import ChordSearch.Proofs.Ring.Repaired
import ChordSearch.Proofs.Search.Rehoming

/-! # A member leaves the ring

A member in the ring that leaves hands every entry of its store to its successor, one store
request each, and then tells its successor and its predecessor, each naming the one on its other
side; after that it is out of the ring with no neighbours, fingers, pings or stored terms.

* `leave_run`, `leave_outgoing`, `leave_node`: the leave turn, the datagrams it sends and the
  node it leaves behind;
* `receive_storeReq`: a store request adds its documents under its term, and sends nothing;
* `receive_departureReq`: a notice puts the named member in place of the sender among the
  receiver's neighbours (`Membership.bypassed`); as the new predecessor of a member that owns
  every term it holds from it, it is handed nothing, so the receiver sends nothing;
* `Cluster.Correct.eq_successor_of_predecessor`, `Cluster.Correct.eq_predecessor_of_successor`:
  in a correct ring only the leaving member's successor has it as predecessor, and only its
  predecessor has it as successor;
* `Cluster.Correct.owns_bypass`: with the leaving member gone, its predecessor comes right before
  its successor, which then owns every key the two of them owned.
-/

namespace ChordSearch

open NodeM

namespace Turn

/-- The turn after a leaving member `me` told its neighbours: its successor `s` that its
predecessor `p` takes its place, and `p`, when set and another node, that `s` does. A member
that is its own successor tells nobody. -/
def noticed (me s p : NodeRef) (t : Turn) : Turn :=
  if s.same me then t
  else
    let t₁ := t.drawTx.sent s.addr (t.node.lastTx + 1) (.departureReq me p)
    if !p.isUnset && !p.same me then
      t₁.drawTx.sent p.addr (t₁.node.lastTx + 1) (.departureReq me s)
    else t₁

/-- The turn after the member left the ring: out of it, with no neighbours, no fingers and no
pings in flight. -/
def departed (t : Turn) : Turn :=
  (t.mapRing fun r => { r with
    inRing := false, joining := false, successor := NodeRef.unset,
    predecessor := NodeRef.unset, fingers := #[], pings := r.pings.clear }).noted .nodeLeave ""
    (Bytes.ofString "left ring")

section Leaving

variable (me s p : NodeRef) (t : Turn)

@[simp] theorem noticed_self : (t.noticed me s p).node.self = t.node.self := by
  unfold noticed; split_ifs <;> simp
@[simp] theorem noticed_ring : (t.noticed me s p).node.ring = t.node.ring := by
  unfold noticed; split_ifs <;> simp
@[simp] theorem noticed_search : (t.noticed me s p).node.search = t.node.search := by
  unfold noticed; split_ifs <;> simp
@[simp] theorem noticed_linkOpen : (t.noticed me s p).linkOpen = t.linkOpen := by
  unfold noticed; split_ifs <;> simp

@[simp] theorem departed_self : t.departed.node.self = t.node.self := by simp [departed]
@[simp] theorem departed_ring : t.departed.node.ring = { t.node.ring with
    inRing := false, joining := false, successor := NodeRef.unset,
    predecessor := NodeRef.unset, fingers := #[], pings := t.node.ring.pings.clear } := by
  simp [departed]
@[simp] theorem departed_search : t.departed.node.search = t.node.search := by simp [departed]
@[simp] theorem departed_outgoing : t.departed.outgoing = t.outgoing := by simp [departed]

theorem noticed_outgoing (hl : t.linkOpen = true) (hs : s ≠ me) (hp : p ≠ me)
    (hss : s.addr.isSet = true) (hps : p.addr.isSet = true) (h₁ : (Body.departureReq me p).Exact)
    (h₂ : (Body.departureReq me s).Exact) :
    (t.noticed me s p).outgoing.toList = t.outgoing.toList ++
      [(s.addr, (⟨t.node.lastTx + 1, .departureReq me p⟩ : Message).bytes),
       (p.addr, (⟨t.node.lastTx + 1 + 1, .departureReq me s⟩ : Message).bytes)] := by
  have hns : s.same me = false := by simpa [NodeRef.same_iff] using hs
  have hnp : (!p.isUnset && !p.same me) = true := by
    simpa [NodeRef.isUnset, NodeRef.same_iff, hps] using hp
  have hsent₁ := sent_sent (t := t.drawTx) (t.node.lastTx + 1) hss h₁ hl
  have hsent₂ := sent_sent (t := (t.drawTx.sent s.addr (t.node.lastTx + 1)
    (.departureReq me p)).drawTx) (t.node.lastTx + 1 + 1) hps h₂ (by simpa using hl)
  simp only [noticed, hns, Bool.false_eq_true, ↓reduceIte, hnp, sent_lastTx, drawTx_node]
  rw [hsent₂.outgoing]
  simp only [drawTx_outgoing, hsent₁.outgoing, List.append_assoc, List.cons_append,
    List.nil_append]

theorem handedAll_of_ne {n : NodeRef} (hset : n.isUnset = false) (hne : n ≠ t.node.self) :
    t.handedAll n = (t.mapSearch fun s => { s with store := Store.empty }).storesSent n.addr
      t.node.search.store.map.entries := by
  have hns : n.same t.node.self = false := by simpa [NodeRef.same_iff] using hne
  simp only [handedAll, hset, hns, Bool.or_false, Bool.false_eq_true, ↓reduceIte]
  rfl

end Leaving

end Turn

theorem leave_run {t : Turn} (hin : t.node.ring.inRing = true) :
    Ring.leave.run t = (.ok (), ((t.handedAll t.node.ring.successor).noticed t.node.self
      t.node.ring.successor t.node.ring.predecessor).departed) := by
  have hl : (Search.leaving t.node.ring.successor).run t =
      pure ((), t.handedAll t.node.ring.successor) := leaving_run _ _
  have hsend : ∀ d tx b (t : Turn), (send d tx b).run t = pure ((), t.sent d tx b) := send_run
  have hreport : ∀ k p b (t : Turn), (report k p b).run t = pure ((), t.noted k p b) := report_run
  unfold Ring.leave Turn.noticed
  simp only [ring, self, nextTx, node, modifyNode, modifyRing, StateT.run_bind, StateT.run_get,
    StateT.run_pure, pure_bind, hin, Bool.not_true, Bool.false_eq_true,
    ↓reduceIte, hl, Turn.handedAll_self]
  by_cases hs : t.node.ring.successor.same t.node.self = true
  · simp only [hs, Bool.not_true, Bool.false_eq_true, ↓reduceIte, StateT.run_bind,
      StateT.run_modify, pure_bind, hreport]
    rfl
  · by_cases hp : (!t.node.ring.predecessor.isUnset && !t.node.ring.predecessor.same t.node.self) = true
    · simp only [hs, hp, Bool.not_false, ↓reduceIte, StateT.run_bind, StateT.run_get,
        StateT.run_modify, pure_bind, hreport, hsend]
      rfl
    · simp only [hs, hp, Bool.not_false, Bool.false_eq_true, ↓reduceIte, StateT.run_bind,
        StateT.run_get, StateT.run_modify, pure_bind, hreport, hsend]
      rfl

/-- What a ring member's leave turn sends when its neighbours are other nodes on the wire and
its store fits the wire: one store request to the successor per stored entry, in order, then
the notice to the successor and the notice to the predecessor. -/
theorem leave_outgoing {t : Turn} (hin : t.node.ring.inRing = true) (hl : t.linkOpen = true)
    (hs : t.node.ring.successor ≠ t.node.self) (hp : t.node.ring.predecessor ≠ t.node.self)
    (hme : t.node.self.OnWire) (hsw : t.node.ring.successor.OnWire)
    (hpw : t.node.ring.predecessor.OnWire) (hfit : t.node.search.store.map.Fits) :
    ∃ sent tx₁ tx₂, (Ring.leave.run t).2.outgoing.toList = t.outgoing.toList ++ sent ++
        [(t.node.ring.successor.addr,
          (⟨tx₁, .departureReq t.node.self t.node.ring.predecessor⟩ : Message).bytes),
         (t.node.ring.predecessor.addr,
          (⟨tx₂, .departureReq t.node.self t.node.ring.successor⟩ : Message).bytes)] ∧
      List.Forall₂ (fun (d : Address × Bytes) (e : Bytes × DocSet) => ∃ tx,
        d = (t.node.ring.successor.addr, (⟨tx, .storeReq e.1 e.2.toList⟩ : Message).bytes))
        sent t.node.search.store.map.entries := by
  have hset : t.node.ring.successor.isUnset = false := by
    simp [NodeRef.isUnset, hsw.isSet]
  obtain ⟨sent, hsent, hfor⟩ := Turn.storesSent_outgoing t.node.ring.successor.addr
    (t := t.mapSearch fun s => { s with store := Store.empty }) (by simpa using hl) hfit
  have hdep : ∀ (a b : NodeRef), a.OnWire → b.OnWire → (Body.departureReq a b).Exact :=
    fun a b ha hb => ⟨.of_onWire ha, .of_onWire hb⟩
  obtain ⟨T, hT⟩ : ∃ T, T = (t.mapSearch fun s => { s with store := Store.empty }).storesSent
      t.node.ring.successor.addr t.node.search.store.map.entries := ⟨_, rfl⟩
  refine ⟨sent, T.node.lastTx + 1, T.node.lastTx + 1 + 1, ?_, ?_⟩
  · rw [leave_run hin, Turn.handedAll_of_ne t hset hs, Turn.departed_outgoing,
      Turn.noticed_outgoing _ _ _ _ (by simpa using hl) hs hp hsw.isSet hpw.isSet
        (hdep _ _ hme hpw) (hdep _ _ hme hsw), hsent, ← hT]
    simp
  · -- each request is the written message, under the id it was sent with
    refine hfor.imp fun {d e} hde => ?_
    obtain ⟨hd, tx, he⟩ := hde
    refine ⟨tx, ?_⟩
    rw [Message.bytes, he, ← hd]

theorem leave_node {t : Turn} (hin : t.node.ring.inRing = true)
    (hs : t.node.ring.successor ≠ t.node.self) (hset : t.node.ring.successor.isUnset = false) :
    (Ring.leave.run t).2.node.self = t.node.self ∧
    (Ring.leave.run t).2.node.ring = { t.node.ring with
      inRing := false, joining := false, successor := NodeRef.unset,
      predecessor := NodeRef.unset, fingers := #[], pings := t.node.ring.pings.clear } ∧
    (Ring.leave.run t).2.node.search.store = Store.empty := by
  rw [leave_run hin, Turn.handedAll_of_ne t hset hs]
  simp

/-! ### Receiving what a leaving member sends -/

theorem TermMap.mem_terms_add {m : TermMap} {term t : Bytes} {docs : DocSet} :
    t ∈ (m.add term docs).terms ↔ t = term ∨ t ∈ m.terms := by
  refine ⟨TermMap.mem_keys_addTo, ?_⟩
  obtain ⟨l⟩ := m
  simp only [TermMap.terms, TermMap.add]
  induction l with
  | nil => simp [TermMap.addTo]
  | cons e l ih =>
    obtain ⟨t₀, d₀⟩ := e
    simp only [TermMap.addTo]
    split
    · simp only [List.map_cons, List.mem_cons]
      tauto
    · split
      · next heq =>
        subst heq
        simp only [List.map_cons, List.mem_cons]
        tauto
      · simp only [List.map_cons, List.mem_cons] at ih ⊢
        tauto

theorem Store.mem_terms_add {s : Store} {term t : Bytes} {docs : List Bytes} :
    t ∈ (s.add term docs).terms ↔ t = term ∨ t ∈ s.terms :=
  TermMap.mem_terms_add

theorem Store.holds_add {s : Store} {term t x : Bytes} {docs : List Bytes} :
    (s.add term docs).map.Holds t x ↔ s.map.Holds t x ∨ (t = term ∧ x ∈ docs) := by
  simp [Store.add]

theorem receive_storeReq (src : Address) (tx : UInt32) {term : Bytes} {docs : List Bytes}
    (hb : (Body.storeReq term docs).Exact) (t : Turn) :
    ∃ ms, (Node.receive src (Message.bytes ⟨tx, .storeReq term docs⟩)).run t =
      ((), { t with
        node := { t.node with
          metrics := ms
          search := { t.node.search with store := t.node.search.store.add term docs } } }) := by
  rw [receive_eq (Message.decode_bytes hb)]
  exact ⟨_, rfl⟩

namespace Membership

/-- The ring state of a node told that `sender` left and that `conn` takes its place: a member
puts `conn` wherever it had `sender` as a neighbour; a node out of the ring ignores it. -/
def bypassed (r : Membership) (sender conn : NodeRef) : Membership :=
  if r.inRing then
    { r with
      predecessor := (if r.predecessor = sender then conn else r.predecessor),
      successor := (if r.successor = sender then conn else r.successor) }
  else r

variable (r : Membership) (sender conn : NodeRef)

@[simp] theorem bypassed_inRing : (r.bypassed sender conn).inRing = r.inRing := by
  unfold bypassed
  split <;> rfl

theorem bypassed_predecessor : (r.bypassed sender conn).predecessor =
    if r.inRing = true ∧ r.predecessor = sender then conn else r.predecessor := by
  unfold bypassed
  by_cases hin : r.inRing = true <;> by_cases hp : r.predecessor = sender <;> simp [hin, hp]

theorem bypassed_successor : (r.bypassed sender conn).successor =
    if r.inRing = true ∧ r.successor = sender then conn else r.successor := by
  unfold bypassed
  by_cases hin : r.inRing = true <;> by_cases hs : r.successor = sender <;> simp [hin, hs]

end Membership

theorem Store.extractNotOwned_of_owned {s : Store} {pred self : RingId}
    (h : ∀ x ∈ s.terms, Arc.owns pred (RingId.hash x) self = true) :
    s.extractNotOwned pred self = (s, TermMap.empty) := by
  have hall : ∀ e ∈ s.map.entries, Arc.owns pred (RingId.hash e.1) self = true :=
    fun e he => h e.1 (List.mem_map_of_mem he)
  have hnone : s.map.entries.filter (fun e => !Arc.owns pred (RingId.hash e.1) self) = [] :=
    List.filter_eq_nil_iff.2 fun e he => by simp [hall e he]
  rw [Store.extractNotOwned_eq, TermMap.partition_eq]
  simp only [List.filter_eq_self.2 hall, hnone]
  rfl

theorem Turn.handedOver_of_owned {n : NodeRef} {t : Turn}
    (h : ∀ x ∈ t.node.search.store.terms, Arc.owns n.id (RingId.hash x) t.node.self.id = true) :
    t.handedOver n = t := by
  unfold Turn.handedOver
  split
  · rfl
  · simp only [Store.extractNotOwned_of_owned h, TermMap.isEmpty, TermMap.empty, List.isEmpty_nil,
      ↓reduceIte]
    rfl

theorem Turn.predecessorSet_of_owned {n : NodeRef} {t : Turn}
    (h : ∀ x ∈ t.node.search.store.terms, Arc.owns n.id (RingId.hash x) t.node.self.id = true) :
    ∃ ev, t.predecessorSet n =
      { t with node := { t.node with ring := { t.node.ring with predecessor := n } }, events := ev } := by
  unfold Turn.predecessorSet
  split
  · next hsame =>
    obtain rfl := (NodeRef.same_iff _ _).1 hsame
    exact ⟨t.events, rfl⟩
  · rw [Turn.handedOver_of_owned (by simpa using h)]
    unfold Turn.noted
    split <;> exact ⟨_, rfl⟩

theorem Turn.successorSet_eq (n : NodeRef) (t : Turn) :
    ∃ ev, t.successorSet n =
      { t with node := { t.node with ring := { t.node.ring with successor := n } }, events := ev } := by
  unfold Turn.successorSet
  split
  · next hsame =>
    obtain rfl := (NodeRef.same_iff _ _).1 hsame
    exact ⟨t.events, rfl⟩
  · unfold Turn.noted
    split <;> exact ⟨_, rfl⟩

theorem departure_run (sender conn : NodeRef) (t : Turn) :
    (Ring.departure sender conn).run t = ((), if t.node.ring.inRing then
      let t₁ := if t.node.ring.predecessor.same sender then t.predecessorSet conn else t
      (if t₁.node.ring.successor.same sender then t₁.successorSet conn else t₁).noted
        .neighbourDeparture sender.toText (Bytes.ofString "neighbour left")
      else t) := by
  have hpred : ∀ n t, (Ring.setPredecessor n).run t = pure ((), t.predecessorSet n) :=
    setPredecessor_run
  have hsucc : ∀ n t, (Ring.setSuccessor n).run t = pure ((), t.successorSet n) := setSuccessor_run
  have hreport : ∀ k p b (t : Turn), (report k p b).run t = pure ((), t.noted k p b) := report_run
  unfold Ring.departure
  simp only [ring, StateT.run_bind, StateT.run_get, StateT.run_pure, pure_bind]
  cases t.node.ring.inRing
  · rfl
  simp only [Bool.not_true, Bool.false_eq_true, ↓reduceIte]
  by_cases hp : t.node.ring.predecessor.same sender = true
  · by_cases hs : (t.predecessorSet conn).node.ring.successor.same sender = true
    · simp only [hp, hs, ↓reduceIte, StateT.run_bind, StateT.run_get, StateT.run_pure, pure_bind,
        hpred, hsucc, hreport]
      rfl
    · simp only [hp, hs, ↓reduceIte, StateT.run_bind, StateT.run_get, StateT.run_pure, pure_bind,
        hpred, hreport, Bool.false_eq_true]
      rfl
  · by_cases hs : t.node.ring.successor.same sender = true
    · simp only [hp, hs, ↓reduceIte, StateT.run_bind, StateT.run_get, StateT.run_pure, pure_bind,
        hsucc, hreport, Bool.false_eq_true]
      rfl
    · simp only [hp, hs, ↓reduceIte, StateT.run_bind, StateT.run_get, StateT.run_pure, pure_bind,
        hreport, Bool.false_eq_true]
      rfl

theorem Turn.noted_eq (k : EventKind) (p : String) (b : Bytes) (t : Turn) :
    ∃ ev, t.noted k p b = { t with events := ev } := by
  unfold Turn.noted
  split <;> exact ⟨_, rfl⟩

/-- A departure notice from `sender` naming `conn` puts `conn` in `sender`'s place, and when the
node's predecessor is `sender`, a `conn` owning every stored term is handed nothing: the node
changes in its ring state alone, and sends nothing. -/
theorem departure_bypasses {t : Turn} {sender conn : NodeRef}
    (hown : t.node.ring.inRing = true → t.node.ring.predecessor = sender →
      ∀ x ∈ t.node.search.store.terms, Arc.owns conn.id (RingId.hash x) t.node.self.id = true) :
    ∃ ev, ((Ring.departure sender conn).run t).2 =
      { t with node := { t.node with ring := t.node.ring.bypassed sender conn }, events := ev } := by
  rw [departure_run]
  dsimp only
  split
  · next hin =>
    obtain ⟨t₁, ev₁, ht₁, hp₁⟩ : ∃ t₁ ev₁, (if t.node.ring.predecessor.same sender = true then
        t.predecessorSet conn else t) = t₁ ∧ t₁ = { t with
          node := { t.node with
            ring := { t.node.ring with
              predecessor := if t.node.ring.predecessor = sender then conn
                else t.node.ring.predecessor } }
          events := ev₁ } := by
      by_cases hp : t.node.ring.predecessor = sender
      · obtain ⟨ev, hev⟩ := Turn.predecessorSet_of_owned (hown hin hp)
        refine ⟨_, ev, if_pos ((NodeRef.same_iff _ _).2 hp), ?_⟩
        rw [hev, if_pos hp]
      · refine ⟨t, t.events, if_neg (mt (NodeRef.same_iff _ _).1 hp), ?_⟩
        rw [if_neg hp]
    obtain ⟨t₂, ev₂, ht₂, hp₂⟩ : ∃ t₂ ev₂, (if t₁.node.ring.successor.same sender = true then
        t₁.successorSet conn else t₁) = t₂ ∧ t₂ = { t₁ with
          node := { t₁.node with
            ring := { t₁.node.ring with
              successor := if t.node.ring.successor = sender then conn
                else t.node.ring.successor } }
          events := ev₂ } := by
      have hs₁ : t₁.node.ring.successor = t.node.ring.successor := by rw [hp₁]
      by_cases hs : t.node.ring.successor = sender
      · obtain ⟨ev, hev⟩ := Turn.successorSet_eq conn t₁
        refine ⟨_, ev, if_pos ((NodeRef.same_iff _ _).2 (hs₁.trans hs)), ?_⟩
        rw [hev, if_pos hs]
      · refine ⟨t₁, t₁.events, if_neg (mt (NodeRef.same_iff _ _).1 (hs₁ ▸ hs)), ?_⟩
        rw [if_neg hs, ← hs₁]
    obtain ⟨ev, hev⟩ := Turn.noted_eq .neighbourDeparture sender.toText
      (Bytes.ofString "neighbour left") t₂
    refine ⟨ev, ?_⟩
    rw [ht₁, ht₂, hev, hp₂, hp₁]
    simp [Membership.bypassed, hin]
  · next hin =>
    refine ⟨t.events, ?_⟩
    simp [Membership.bypassed, hin]

theorem receive_departureReq (src : Address) (tx : UInt32) {sender conn : NodeRef}
    (hb : (Body.departureReq sender conn).Exact) {t : Turn}
    (hown : t.node.ring.inRing = true → t.node.ring.predecessor = sender →
      ∀ x ∈ t.node.search.store.terms, Arc.owns conn.id (RingId.hash x) t.node.self.id = true) :
    ∃ ms ev, ((Node.receive src (Message.bytes ⟨tx, .departureReq sender conn⟩)).run t).2 =
      { t with
        node := { t.node with metrics := ms, ring := t.node.ring.bypassed sender conn }
        events := ev } := by
  rw [receive_eq (Message.decode_bytes hb), StateT.run_bind]
  obtain ⟨ev, hev⟩ := departure_bypasses (t := t.mapMetrics fun ms => { ms with
    received := ms.received.bump (Body.departureReq sender conn).kind.name }) (by simpa using hown)
  exact ⟨_, ev, hev⟩

/-! ### The leaving member's neighbours -/

theorem Ring.Follows.ne_of_two_le {ids : List RingId} (hnd : ids.Nodup) (h2 : 2 ≤ ids.length)
    {x y : RingId} (h : Ring.Follows ids x y) : x ≠ y := by
  intro hxy
  have hall := h.self_iff.1 hxy
  rcases ids with _ | ⟨a, _ | ⟨b, l⟩⟩
  · simp at h2
  · simp at h2
  · have hab : a ≠ b := fun e => (List.nodup_cons.1 hnd).1 (e ▸ List.mem_cons_self)
    exact hab ((hall a List.mem_cons_self).trans (hall b (by simp)).symm)

namespace Cluster

theorem deliverAt_silent {c : Cluster} {k : Nat} {d : Datagram} {j : Nat} {m m' : Node}
    (hd : c.queue.toList[k]? = some d) (hsrc : d.src ∉ c.cut) (hdst : d.dst ∉ c.cut)
    (hj : c.handlerOf d.dst = some j) (hm : c.members[j]? = some m)
    (hnode : ((Node.receive d.src d.data).run (c.startTurn m)).2.node = m')
    (hout : ((Node.receive d.src d.data).run (c.startTurn m)).2.outgoing = #[]) :
    (c.deliverAt k).members = c.members.modify j (fun _ => m') ∧
      (c.deliverAt k).queue.toList = c.queue.toList.eraseIdx k ∧
      (c.deliverAt k).endpoints = c.endpoints ∧ (c.deliverAt k).cut = c.cut := by
  rw [deliverAt_member hd hsrc hdst hj hm]
  refine ⟨by simp [afterTurn, hnode], ?_, rfl, rfl⟩
  rw [afterTurn_queue, taken_queue, hout]
  simp

theorem Correct.handler_of_inRing {c : Cluster} (hc : c.Correct) {r : NodeRef} (hr : c.InRing r) :
    ∃ j n, c.members[j]? = some n ∧ n.self = r ∧ n.ring.inRing = true ∧
      c.handlerOf r.addr = some j := by
  obtain ⟨n, hn, rfl, hinn⟩ := hr
  obtain ⟨j, hj⟩ := Array.mem_iff_getElem?.1 hn
  exact ⟨j, n, hj, rfl, hinn, hc.handler j n hj hinn⟩

theorem ringMembers_eq_filter {c c₀ : Cluster} (p : NodeRef → Bool)
    (h : List.Forall₂ (fun n n₀ : Node => n.self = n₀.self ∧
      n.ring.inRing = (n₀.ring.inRing && p n₀.self)) c.members.toList c₀.members.toList) :
    c.ringMembers = c₀.ringMembers.filter p := by
  unfold ringMembers peers
  generalize c.members.toList = l at h ⊢
  generalize c₀.members.toList = l₀ at h ⊢
  induction h with
  | nil => rfl
  | @cons n n₀ l l₀ hr _ ih =>
    obtain ⟨hs, hin⟩ := hr
    by_cases h₀ : n₀.ring.inRing = true <;> by_cases hp : p n₀.self = true <;>
      simp [Node.peer, hs, hin, h₀, hp, ih]

theorem mem_ringMembers_iff {c : Cluster} {r : NodeRef} : r ∈ c.ringMembers ↔ c.InRing r := by
  refine ⟨fun hr => ?_, InRing.mem_ringMembers⟩
  simp only [ringMembers, peers, List.mem_map, List.mem_filter] at hr
  obtain ⟨p, ⟨⟨n, hn, rfl⟩, hin⟩, rfl⟩ := hr
  exact ⟨n, Array.mem_toList_iff.1 hn, rfl, hin⟩

section Leaver

variable {c₀ : Cluster} {i : Nat} {L : Node} (hc : c₀.Correct) (hi : c₀.members[i]? = some L)
  (hin : L.ring.inRing = true)
include hc hi hin

theorem Correct.successor_inRing : c₀.InRing L.ring.successor :=
  (hc.successor L (Array.mem_of_getElem? hi) hin).1

theorem Correct.predecessor_inRing : c₀.InRing L.ring.predecessor :=
  (hc.predecessor L (Array.mem_of_getElem? hi) hin).1

theorem Correct.successor_ne (h2 : 2 ≤ c₀.ringIds.length) : L.ring.successor ≠ L.self := by
  intro heq
  have hf := (hc.successor L (Array.mem_of_getElem? hi) hin).2
  rw [heq] at hf
  exact Ring.Follows.ne_of_two_le hc.nodup h2 hf rfl

theorem Correct.predecessor_ne (h2 : 2 ≤ c₀.ringIds.length) : L.ring.predecessor ≠ L.self := by
  intro heq
  have hf := (hc.predecessor L (Array.mem_of_getElem? hi) hin).2
  rw [heq] at hf
  exact Ring.Follows.ne_of_two_le hc.nodup h2 hf rfl

theorem Correct.id_ne {j : Nat} {n₀ : Node} (hj : c₀.members[j]? = some n₀)
    (hin₀ : n₀.ring.inRing = true) (hji : j ≠ i) : n₀.self.id ≠ L.self.id := by
  intro heq
  have hself := hc.inRing_inj ⟨n₀, Array.mem_of_getElem? hj, rfl, hin₀⟩
    ⟨L, Array.mem_of_getElem? hi, rfl, hin⟩ heq
  have hh := hc.handler j n₀ hj hin₀
  rw [hself, hc.handler i L hi hin] at hh
  exact hji (Option.some.inj hh).symm

omit hin in
theorem Correct.handler_of_ne {r : NodeRef} (hr : c₀.InRing r) (hne : r ≠ L.self) :
    ∃ j n₀, c₀.members[j]? = some n₀ ∧ n₀.self = r ∧ n₀.ring.inRing = true ∧
      c₀.handlerOf r.addr = some j ∧ j ≠ i := by
  obtain ⟨j, n₀, hn₀, hself, hin₀, hj⟩ := hc.handler_of_inRing hr
  refine ⟨j, n₀, hn₀, hself, hin₀, hj, ?_⟩
  rintro rfl
  rw [hi] at hn₀
  obtain rfl := Option.some.inj hn₀
  exact hne hself.symm

theorem Correct.eq_successor_of_predecessor {n₀ : Node} (hn₀ : n₀ ∈ c₀.members)
    (hin₀ : n₀.ring.inRing = true) (hp : n₀.ring.predecessor = L.self) :
    n₀.self = L.ring.successor := by
  have h₁ := (hc.predecessor n₀ hn₀ hin₀).2
  rw [hp] at h₁
  have h₂ := hc.successor L (Array.mem_of_getElem? hi) hin
  exact hc.inRing_inj ⟨n₀, hn₀, rfl, hin₀⟩ h₂.1 (h₁.right_unique h₂.2)

theorem Correct.eq_predecessor_of_successor {n₀ : Node} (hn₀ : n₀ ∈ c₀.members)
    (hin₀ : n₀.ring.inRing = true) (hs : n₀.ring.successor = L.self) :
    n₀.self = L.ring.predecessor := by
  have h₁ := (hc.successor n₀ hn₀ hin₀).2
  rw [hs] at h₁
  have h₂ := hc.predecessor L (Array.mem_of_getElem? hi) hin
  have hme : c₀.InRing n₀.self := ⟨n₀, hn₀, rfl, hin₀⟩
  exact hc.inRing_inj hme h₂.1
    (Ring.Follows.left_unique hme.id_mem h₂.1.id_mem h₁ h₂.2)

theorem Correct.successor_eq_self {n₀ : Node} (hn₀ : n₀ ∈ c₀.members) (hin₀ : n₀.ring.inRing = true)
    (hP : n₀.self = L.ring.predecessor) : n₀.ring.successor = L.self := by
  have h₁ := hc.successor n₀ hn₀ hin₀
  rw [hP] at h₁
  exact hc.inRing_inj h₁.1 ⟨L, Array.mem_of_getElem? hi, rfl, hin⟩
    (h₁.2.right_unique (hc.predecessor L (Array.mem_of_getElem? hi) hin).2)

theorem Correct.predecessor_eq_self {n₀ : Node} (hn₀ : n₀ ∈ c₀.members) (hin₀ : n₀.ring.inRing = true)
    (hS : n₀.self = L.ring.successor) : n₀.ring.predecessor = L.self := by
  have hme : c₀.InRing L.self := ⟨L, Array.mem_of_getElem? hi, rfl, hin⟩
  have h₁ := hc.predecessor n₀ hn₀ hin₀
  rw [hS] at h₁
  exact hc.inRing_inj h₁.1 hme (Ring.Follows.left_unique h₁.1.id_mem hme.id_mem h₁.2
    (hc.successor L (Array.mem_of_getElem? hi) hin).2)

theorem Correct.id_mem_bypass {r : NodeRef} (hr : c₀.InRing r) (hne : r ≠ L.self) :
    r.id ∈ c₀.ringIds.filter (· ≠ L.self.id) :=
  List.mem_filter.2 ⟨hr.id_mem, by
    simpa using fun h => hne (hc.inRing_inj hr ⟨L, Array.mem_of_getElem? hi, rfl, hin⟩ h)⟩

theorem Correct.firstFrom_bypass (hp : c₀.Placed) (h2 : 2 ≤ c₀.ringIds.length) {n₀ : Node}
    (hn₀ : n₀ ∈ c₀.members) (hS : n₀.self = L.ring.successor) {x : Bytes}
    (hx : x ∈ n₀.search.store.terms ∨ x ∈ L.search.store.terms) :
    Ring.FirstFrom (c₀.ringIds.filter (· ≠ L.self.id)) (RingId.hash x) L.ring.successor.id := by
  have hL := Array.mem_of_getElem? hi
  have hsub : ∀ m ∈ c₀.ringIds.filter (· ≠ L.self.id), m ∈ c₀.ringIds ∧ m ≠ L.self.id :=
    fun m hm => by simpa using hm
  have hS' := hc.id_mem_bypass hi hin (hc.successor_inRing hi hin) (hc.successor_ne hi hin h2)
  rcases hx with hx | hx
  · -- a key the successor owned stays with it
    obtain ⟨e, he, rfl⟩ := List.mem_map.1 hx
    have hf := (hp n₀ hn₀ e he).2
    rw [hS] at hf
    exact hf.mono (fun m hm => (hsub m hm).1) hS'
  · -- a key the leaving member owned passes to its successor
    obtain ⟨e, he, rfl⟩ := List.mem_map.1 hx
    exact (hp L hL e he).2.bridge (hc.successor L hL hin).2 hsub hS'

theorem Correct.owns_bypass (hp : c₀.Placed) (h2 : 2 ≤ c₀.ringIds.length) {n₀ : Node}
    (hn₀ : n₀ ∈ c₀.members) (hS : n₀.self = L.ring.successor) {x : Bytes}
    (hx : x ∈ n₀.search.store.terms ∨ x ∈ L.search.store.terms) :
    Arc.owns L.ring.predecessor.id (RingId.hash x) L.ring.successor.id = true := by
  have hL := Array.mem_of_getElem? hi
  have hsub : ∀ m ∈ c₀.ringIds.filter (· ≠ L.self.id), m ∈ c₀.ringIds ∧ m ≠ L.self.id :=
    fun m hm => by simpa using hm
  have hfol := (hc.predecessor L hL hin).2.bridge (hc.successor L hL hin).2 hsub
    (hc.id_mem_bypass hi hin (hc.successor_inRing hi hin) (hc.successor_ne hi hin h2))
  rw [Ring.owns_iff_firstFrom
    (hc.id_mem_bypass hi hin (hc.predecessor_inRing hi hin) (hc.predecessor_ne hi hin h2)) hfol]
  exact hc.firstFrom_bypass hi hin hp h2 hn₀ hS hx

end Leaver

end Cluster

end ChordSearch
