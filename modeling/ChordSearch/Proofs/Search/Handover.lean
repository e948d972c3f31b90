import ChordSearch.Proofs.Search.Keeping

/-! # Handing a published index over: one node's part

Publishing merges an index into the node's unpublished one and, when the node is in the
ring, starts one lookup per merged term. The lookup's answer names the term's owner: the node
then drops the term from its index and sends its postings to the owner, which adds them to
its store. This module follows these steps at the node that takes each of them.

* `numbered`, `Node.startLookups`, `Peer.hops`: the ids drawn for the terms, the node once
  their lookups are started, and the first hop of each lookup.
* `publish_run_of_not_inRing`: outside the ring, publishing only merges the index and answers
  `notInRing`; `publish_ok`: inside, it answers with the number of merged terms.
* `publish_sendsVia`: inside the ring, with the node's reference and its successor on the
  wire, publishing starts the lookups in term order and sends their first hops, and nothing
  else.
* `receive_request_relays`, `receive_answer_stores`, `receive_store_keeps`: a lookup's
  request, its answer and the store request it leads to, at the node receiving each.
-/

namespace ChordSearch

open NodeM Std.Do

set_option mvcgen.warning false

/-! ### Runs that move the node and send -/

namespace NodeM.SendsVia

variable {keep : Node → Node} {α β : Type} {act : NodeM α} {t : Turn} {n₁ : Node} {a : α}
  {o₁ o₂ : List (Address × Bytes)}

theorem bind {f : α → NodeM β} {g : Node → Node} {b : β} (h : act.SendsVia keep t n₁ a o₁)
    (hg : ∀ n, keep n = keep n₁ → keep (g n) = keep (g n₁))
    (hf : ∀ t₁, { t with node := n₁ }.Sent keep t₁ o₁ → (f a).SendsVia keep t₁ (g t₁.node) b o₂) :
    (act >>= f).SendsVia keep t (g n₁) b (o₁ ++ o₂) := by
  obtain ⟨t₁, hrun₁, hs₁⟩ := h
  obtain ⟨t₂, hrun₂, hs₂⟩ := hf t₁ hs₁
  refine ⟨t₂, by rw [StateT.run_bind, hrun₁]; exact hrun₂, hs₂.node.trans (hg _ hs₁.node),
    hs₂.now.trans hs₁.now, hs₂.linkOpen.trans hs₁.linkOpen, ?_, hs₂.events.trans hs₁.events⟩
  rw [hs₂.outgoing, hs₁.outgoing, List.append_assoc]

theorem of_moved (h : act.run t = (a, { t with node := n₁ })) : act.SendsVia keep t n₁ a [] :=
  ⟨_, h, Turn.Sent.refl keep _⟩

theorem bind_moved {f : α → NodeM β} {g : Node → Node} {b : β} (h : act.SendsVia keep t n₁ a [])
    (hg : ∀ n, keep n = keep n₁ → keep (g n) = keep (g n₁))
    (hf : ∀ t₁, { t with node := n₁ }.Sent keep t₁ [] → (f a).SendsVia keep t₁ (g t₁.node) b o₂) :
    (act >>= f).SendsVia keep t (g n₁) b o₂ := by
  simpa using h.bind hg hf

end NodeM.SendsVia

/-! ### The ids and lookups of a publication -/

/-- Terms numbered by the transaction ids drawn for them after `x`, in order. -/
def numbered : UInt32 → List Bytes → List (Bytes × UInt32)
  | _, [] => []
  | x, t :: ts => (t, x + 1) :: numbered (x + 1) ts

/-- The node after starting a lookup of the owner of each term of `ts`, in order, to hand
the term over. -/
def Node.startLookups (n : Node) (now : Int) (ts : List Bytes) : Node :=
  ts.foldl (fun n t => n.startLookup now ⟨.store, t, RingId.hash t⟩) n

/-- The first hop of the lookup of each numbered term, as member `p` sends it for `me`. -/
def Peer.hops (p : Peer) (me : NodeRef) (plan : List (Bytes × UInt32)) : List Datagram :=
  plan.map fun q => p.relay q.2 me (RingId.hash q.1) lookupIndex

theorem Node.startLookups_uncounted (n : Node) (now : Int) (ts : List Bytes) :
    (n.startLookups now ts).uncounted = n.uncounted.startLookups now ts := by
  induction ts generalizing n with
  | nil => rfl
  | cons t ts ih => exact ih (n.startLookup now ⟨.store, t, RingId.hash t⟩)

theorem Node.startLookups_cons (n : Node) (now : Int) (t : Bytes) (ts : List Bytes) :
    n.startLookups now (t :: ts) = (n.startLookup now ⟨.store, t, RingId.hash t⟩).startLookups now ts :=
  rfl

theorem numbered_fst (x : UInt32) (ts : List Bytes) : (numbered x ts).map Prod.fst = ts := by
  induction ts generalizing x with
  | nil => rfl
  | cons t ts ih => simp [numbered, ih]

theorem numbered_room {x : UInt32} {t : Bytes} {ts : List Bytes}
    (h : x.toNat + (t :: ts).length < 2 ^ 32) :
    (x + 1).toNat = x.toNat + 1 ∧ (x + 1).toNat + ts.length < 2 ^ 32 := by
  simp only [List.length_cons] at h
  have hx : (x + 1).toNat = x.toNat + 1 := by
    rw [UInt32.toNat_add, UInt32.toNat_one, Nat.mod_eq_of_lt (by omega)]
  exact ⟨hx, by omega⟩

theorem numbered_bounds {x : UInt32} {ts : List Bytes} (h : x.toNat + ts.length < 2 ^ 32) :
    ∀ q ∈ numbered x ts, x.toNat < q.2.toNat ∧ q.2.toNat ≤ x.toNat + ts.length := by
  induction ts generalizing x with
  | nil => simp [numbered]
  | cons t ts ih =>
    obtain ⟨hx, h'⟩ := numbered_room h
    intro q hq
    simp only [numbered, List.mem_cons] at hq
    rcases hq with rfl | hq
    · simp only [List.length_cons, hx]
      omega
    · have := ih h' q hq
      simp only [List.length_cons]
      omega

theorem numbered_nodup {x : UInt32} {ts : List Bytes} (h : x.toNat + ts.length < 2 ^ 32) :
    ((numbered x ts).map Prod.snd).Nodup := by
  induction ts generalizing x with
  | nil => simp [numbered]
  | cons t ts ih =>
    obtain ⟨-, h'⟩ := numbered_room h
    simp only [numbered, List.map_cons, List.nodup_cons, List.mem_map]
    refine ⟨?_, ih h'⟩
    rintro ⟨q, hq, hq2⟩
    have := (numbered_bounds h' q hq).1
    rw [hq2] at this
    omega

namespace Node

variable (n : Node) (now : Int)

theorem startLookups_keeps (ts : List Bytes) :
    (n.startLookups now ts).self = n.self ∧ (n.startLookups now ts).ring = n.ring ∧
      (n.startLookups now ts).search.index = n.search.index ∧
      (n.startLookups now ts).search.store = n.search.store := by
  induction ts generalizing n with
  | nil => exact ⟨rfl, rfl, rfl, rfl⟩
  | cons t ts ih => exact ih (n.startLookup now ⟨.store, t, RingId.hash t⟩)

theorem startLookups_lookups (ts : List Bytes)
    (hfresh : ∀ e ∈ n.search.lookups.entries, ∀ q ∈ numbered n.lastTx ts, e.tx ≠ q.2)
    (hnodup : ((numbered n.lastTx ts).map Prod.snd).Nodup) :
    (n.startLookups now ts).search.lookups.entries = n.search.lookups.entries ++
      (numbered n.lastTx ts).map fun q => ⟨q.2, ⟨.store, q.1, RingId.hash q.1⟩, now⟩ := by
  induction ts generalizing n with
  | nil => simp [startLookups, numbered]
  | cons t ts ih =>
    let n₁ := n.startLookup now ⟨.store, t, RingId.hash t⟩
    have hnum : numbered n.lastTx (t :: ts) = (t, n.lastTx + 1) :: numbered n₁.lastTx ts := rfl
    rw [hnum] at hfresh hnodup
    obtain ⟨hnew, hnodup'⟩ := List.nodup_cons.1 hnodup
    have hkeep : n.search.lookups.entries.filter (·.tx != n.lastTx + 1) = n.search.lookups.entries :=
      List.filter_eq_self.2 fun e he => by simpa using hfresh e he _ List.mem_cons_self
    have h₁ : n₁.search.lookups.entries =
        n.search.lookups.entries ++ [⟨n.lastTx + 1, ⟨.store, t, RingId.hash t⟩, now⟩] := by
      simp only [n₁, startLookup, Tracker.add, hkeep]
    have hfresh₁ : ∀ e ∈ n₁.search.lookups.entries, ∀ q ∈ numbered n₁.lastTx ts, e.tx ≠ q.2 := by
      rw [h₁]
      intro e he q hq
      rcases List.mem_append.1 he with he | he
      · exact hfresh e he q (List.mem_cons_of_mem _ hq)
      · obtain rfl := List.mem_singleton.1 he
        exact fun heq => hnew (List.mem_map.2 ⟨q, hq, heq.symm⟩)
    rw [startLookups_cons, ih n₁ hfresh₁ hnodup', h₁, hnum]
    simp

end Node

/-! ### Publishing inside the ring -/

theorem Node.eq_of_uncounted {m n : Node} (h : m.uncounted = n.uncounted) :
    m.self = n.self ∧ m.ring = n.ring ∧ m.search = n.search ∧ m.lastTx = n.lastTx := by
  have h₁ := congrArg Node.self h
  have h₂ := congrArg Node.ring h
  have h₃ := congrArg Node.search h
  have h₄ := congrArg Node.lastTx h
  exact ⟨h₁, h₂, h₃, h₄⟩

theorem forIn_sendsVia {body : Bytes → Option (Except NodeError Nat) × Nat →
      NodeM (ForInStep (Option (Except NodeError Nat) × Nat))}
    (hbody : ∀ term s u, u.node.ring.inRing = true → u.linkOpen = true → u.node.self.OnWire →
      u.node.ring.successor.OnWire →
      (body term s).SendsVia Node.uncounted u (u.node.startLookup u.now ⟨.store, term, RingId.hash term⟩)
        (.yield (none, s.2 + 1))
        [((u.node.peer.relay (u.node.lastTx + 1) u.node.self (RingId.hash term) lookupIndex).dst,
          (u.node.peer.relay (u.node.lastTx + 1) u.node.self (RingId.hash term) lookupIndex).data)]) :
    ∀ (ts : List Bytes) (k : Nat) (u : Turn), u.node.ring.inRing = true → u.linkOpen = true →
      u.node.self.OnWire → u.node.ring.successor.OnWire →
      (forIn ts (none, k) body).SendsVia Node.uncounted u (u.node.startLookups u.now ts)
        (none, k + ts.length)
        ((u.node.peer.hops u.node.self (numbered u.node.lastTx ts)).map fun d => (d.dst, d.data)) := by
  intro ts
  induction ts with
  | nil =>
    intro k u _ _ _ _
    exact ⟨u, rfl, Turn.Sent.refl _ _⟩
  | cons term ts ih =>
    intro k u hin hl hr hs
    rw [List.forIn_cons]
    have h := hbody term (none, k) u hin hl hr hs
    have hout : (u.node.peer.hops u.node.self (numbered u.node.lastTx (term :: ts))).map
        (fun d => (d.dst, d.data)) =
        [((u.node.peer.relay (u.node.lastTx + 1) u.node.self (RingId.hash term) lookupIndex).dst,
          (u.node.peer.relay (u.node.lastTx + 1) u.node.self (RingId.hash term) lookupIndex).data)] ++
        (u.node.peer.hops u.node.self (numbered (u.node.lastTx + 1) ts)).map fun d => (d.dst, d.data) := by
      simp [Peer.hops, numbered]
    rw [Node.startLookups_cons, hout]
    refine h.bind (g := fun n => n.startLookups u.now ts)
      (fun n hn => by rw [Node.startLookups_uncounted, Node.startLookups_uncounted, hn]) fun t₁ h₁ => ?_
    have he := Node.eq_of_uncounted h₁.node
    have hself : t₁.node.self = u.node.self := he.1
    have hring : t₁.node.ring = u.node.ring := he.2.1
    have hlast : t₁.node.lastTx = u.node.lastTx + 1 := he.2.2.2
    have hpeer : t₁.node.peer = u.node.peer := by simp only [Node.peer, hself, hring]
    have hrest := ih (k + 1) t₁ (by rw [hring]; exact hin) (h₁.linkOpen.trans hl)
      (by rw [hself]; exact hr) (by rw [hring]; exact hs)
    rw [h₁.now, hpeer, hself, hlast] at hrest
    dsimp only
    simpa [Nat.add_assoc, Nat.add_comm 1] using hrest

/-- Publishing inside the ring, with the node's reference and its successor on the wire:
the index is merged, the lookups of the merged terms start in term order under fresh ids,
their first hops are sent, and the number of terms is returned. -/
theorem publish_sendsVia (ix : Index) {t : Turn} (hin : t.node.ring.inRing = true)
    (hl : t.linkOpen = true) (hr : t.node.self.OnWire) (hs : t.node.ring.successor.OnWire) :
    (Search.publish ix).SendsVia Node.uncounted t
      ({ t.node with search := { t.node.search with index := t.node.search.index.merge ix } }.startLookups
        t.now (t.node.search.index.merge ix).terms)
      (.ok (t.node.search.index.merge ix).terms.length)
      ((t.node.peer.hops t.node.self
        (numbered t.node.lastTx (t.node.search.index.merge ix).terms)).map fun d => (d.dst, d.data)) := by
  unfold Search.publish
  refine NodeM.SendsVia.bind_moved
    (g := fun n => n.startLookups t.now (t.node.search.index.merge ix).terms) (.of_moved rfl)
    (fun n hn => by rw [Node.startLookups_uncounted, Node.startLookups_uncounted, hn]) fun t₁ h₁ => ?_
  have hring : t₁.node.ring = t.node.ring := (Node.eq_of_uncounted h₁.node).2.1
  refine NodeM.SendsVia.bind_moved
    (g := fun n => n.startLookups t.now (t.node.search.index.merge ix).terms) (.of_moved rfl)
    (fun n hn => by rw [Node.startLookups_uncounted, Node.startLookups_uncounted, hn]) fun t₂ h₂ => ?_
  simp only [hring, hin, Bool.not_true, Bool.false_eq_true, if_false]
  refine NodeM.SendsVia.bind_moved
    (g := fun n => n.startLookups t.now (t.node.search.index.merge ix).terms) (.of_moved rfl)
    (fun n hn => by rw [Node.startLookups_uncounted, Node.startLookups_uncounted, hn]) fun t₃ h₃ => ?_
  have hsame : t₃.node.uncounted = ({ t.node with search := { t.node.search with
      index := t.node.search.index.merge ix } } : Node).uncounted :=
    h₃.node.trans (h₂.node.trans h₁.node)
  have hnow : t₃.now = t.now := h₃.now.trans (h₂.now.trans h₁.now)
  have hindex : t₂.node.search.index = t.node.search.index.merge ix := by
    have h := congrArg (fun n => n.search.index) (h₂.node.trans h₁.node)
    exact h
  have he := Node.eq_of_uncounted hsame
  have hself : t₃.node.self = t.node.self := he.1
  have hring₃ : t₃.node.ring = t.node.ring := he.2.1
  have hlast : t₃.node.lastTx = t.node.lastTx := he.2.2.2
  have hpeer : t₃.node.peer = t.node.peer := by simp only [Node.peer, hself, hring₃]
  rw [hindex, ← hnow, ← hpeer, ← hself, ← hlast, ← List.append_nil (List.map _ _)]
  refine (forIn_sendsVia ?_ _ 0 t₃ (by rw [hring₃]; exact hin) ((h₃.linkOpen.trans h₂.linkOpen).trans
    (h₁.linkOpen.trans hl)) (by rw [hself]; exact hr) (by rw [hring₃]; exact hs)).bind (g := id)
    (fun _ h => h) fun t₄ h₄ => ?_
  · intro term s u hin hl hr hs
    rw [← List.append_nil [_]]
    refine (Search.lookupFor_sendsVia hin hl hr hs).bind (g := id) (fun _ h => h) fun u₁ _ => ?_
    exact .of_moved rfl
  · exact .of_moved (by simp; rfl)

/-! ### The steps of a lookup, where they are received -/

theorem receive_answer_stores {t : Turn} {src : Address} {x : UInt32} {o : NodeRef}
    {term : Bytes} {docs : DocSet} {at_ : Int} (ho : o.Exact)
    (hpeek : t.node.search.lookups.peek x = some ⟨x, ⟨.store, term, RingId.hash term⟩, at_⟩)
    (hfind : t.node.search.index.map.find? term = some docs)
    (hb : Body.Exact (.storeReq term docs.toList)) (hl : t.linkOpen = true) :
    (Node.receive src (Message.bytes ⟨x, .findSuccessorRsp o (RingId.hash term) lookupIndex⟩)).SendsVia
      Node.uncounted t
      { t.node with lastTx := t.node.lastTx + 1,
                    search := { t.node.search with
                      lookups := ⟨t.node.search.lookups.entries.filter (·.tx != x)⟩,
                      index := ⟨t.node.search.index.map.erase term⟩ } } ()
      [(o.addr, Message.bytes ⟨t.node.lastTx + 1, .storeReq term docs.toList⟩)] := by
  let ms : Metrics := { t.node.metrics with
    received := t.node.metrics.received.bump (Body.findSuccessorRsp o (RingId.hash term) lookupIndex).kind.name }
  let n₁ : Node :=
    { t.node with
      lastTx := t.node.lastTx + 1
      metrics := ms
      search := { t.node.search with
        lookups := ⟨t.node.search.lookups.entries.filter (·.tx != x)⟩
        index := ⟨t.node.search.index.map.erase term⟩ } }
  have hrun : (Node.receive src (Message.bytes ⟨x, .findSuccessorRsp o (RingId.hash term) lookupIndex⟩)).run t =
      (transmit o.addr ⟨t.node.lastTx + 1, .storeReq term docs.toList⟩).run { t with node := n₁ } := by
    rw [receive_eq (Message.decode_bytes (m := ⟨x, .findSuccessorRsp o (RingId.hash term) lookupIndex⟩) ho)]
    simp [Node.handle, foundSuccessor_lookup, Search.lookupResolved, search, Tracker.take_of_peek hpeek,
      modifySearch, modifyNode, modifyMetrics, Search.sendStore, nextTx, node, hfind, n₁, ms]
  have h := @transmit_sends Node.uncounted forgets_uncounted { t with node := n₁ } o.addr
    ⟨t.node.lastTx + 1, .storeReq term docs.toList⟩ hb hl
  exact (NodeM.SendsVia.of_run_eq hrun (.of_sends h)).congr (by rfl)

theorem receive_store_keeps {t : Turn} {src : Address} {y : UInt32} {term : Bytes}
    {docs : List Bytes} (hb : Body.Exact (.storeReq term docs)) :
    (Node.receive src (Message.bytes ⟨y, .storeReq term docs⟩)).SendsVia Node.uncounted t
      { t.node with search := { t.node.search with store := t.node.search.store.add term docs } } ()
      [] := by
  let n₁ : Node :=
    { t.node with
      metrics := { t.node.metrics with
        received := t.node.metrics.received.bump (Body.storeReq term docs).kind.name }
      search := { t.node.search with store := t.node.search.store.add term docs } }
  have hrun : (Node.receive src (Message.bytes ⟨y, .storeReq term docs⟩)).run t =
      (pure () : NodeM Unit).run { t with node := n₁ } := by
    rw [receive_eq (Message.decode_bytes (m := ⟨y, .storeReq term docs⟩) hb)]
    simp [Node.handle, Search.keep, modifySearch, modifyNode, modifyMetrics, n₁]
  exact (NodeM.SendsVia.of_run_eq hrun (.of_sends (.pure _ _ _))).congr (by rfl)

theorem receive_request_relays {t : Turn} {src : Address} {x idx : UInt32} {r : NodeRef}
    {key : RingId} (hin : t.node.ring.inRing = true) (hl : t.linkOpen = true) (hr : r.OnWire)
    (hs : t.node.ring.successor.OnWire) :
    (Node.receive src (Message.bytes ⟨x, .findSuccessorReq r key idx⟩)).Sends Node.uncounted t ()
      [((t.node.peer.relay x r key idx).dst, (t.node.peer.relay x r key idx).data)] :=
  receive_sends forgets_uncounted src (Message.decode_bytes (NodeRef.Exact.of_onWire hr))
    fun t₁ h₁ => by
      have hpeer : t₁.node.peer = t.node.peer := h₁.peer forgets_uncounted
      have hring : t₁.node.ring = t.node.ring := congrArg Peer.ring hpeer
      have h := @findSuccessor_sends t₁ x idx r key (hring ▸ hin) (h₁.linkOpen.trans hl) hr
        (hring ▸ hs)
      rw [hpeer] at h
      exact h

/-! ### The answer of a publication -/

theorem lookupFor_ok {errand : Errand} {term : Bytes} :
    ⦃fun t => ⌜t.node.ring.inRing = true⌝⦄ Search.lookupFor errand term
    ⦃⇓ r t => ⌜r = .ok () ∧ t.node.ring.inRing = true⌝⦄ := by
  mvcgen [Search.lookupFor, Ring.resolve, Ring.findSuccessor]
  all_goals simp_all

theorem publish_ok {ix : Index} {k : Nat} :
    ⦃fun t => ⌜t.node.ring.inRing = true ∧ (t.node.search.index.merge ix).terms.length = k⌝⦄
    Search.publish ix ⦃⇓ r _ => ⌜r = .ok k⌝⦄ := by
  mvcgen [Search.publish, lookupFor_ok] invariants
  · ⇓ p t => ⌜p.2.1 = none ∧ p.2.2 + p.1.suffix.length = k ∧ t.node.ring.inRing = true⌝
  all_goals simp_all +zetaDelta [Turn.mapSearch]
  omega

theorem publish_run_of_not_inRing (ix : Index) (t : Turn) (h : t.node.ring.inRing = false) :
    (Search.publish ix).run t =
      (.error .notInRing, t.mapSearch fun s => { s with index := s.index.merge ix }) := by
  simp [Search.publish, modifySearch, modifyNode, ring, Turn.mapSearch, h]
  rfl

end ChordSearch
