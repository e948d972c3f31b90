import ChordSearch.Proofs.Ring.Departure

/-! # A member leaving a correct ring hands over what it stores

The leave of a member `L` puts on the queue a store request for each entry of its store, to its
successor, and a notice to each of its neighbours. Delivering them in any order keeps
`Cluster.Departing`: every other member heals around `L` (`Node.Healing`): it keeps its place,
puts `L`'s other neighbour where it had `L`, and only the successor's store grows, by what `L`
held; each entry of `L` is on its way or at the successor, and each member still pointing at
`L` has a notice on its way. No delivery sends anything, so the queue drains.

* `Cluster.Departing.start`, `Cluster.Departing.delivering`, `Cluster.Departing.drains`: the
  invariant right after the leave, along every run that only delivers, and a run that empties
  the queue;
* `Cluster.Departing.correct`, `Cluster.Departing.placed`, `Cluster.Departing.kept`: once the
  queue is empty the ring is correct without `L`, every entry is with its owner, and no pair is
  lost;
* `Cluster.leave_hands_over`: all of it for a leave from a correct ring of two or more.
-/

namespace ChordSearch

open NodeM

/-! ### The hand-over in flight -/

/-- The notices a leaving member `L` sends: to its successor that its predecessor takes its
place, and to its predecessor that its successor does. -/
inductive Notice (L : Node) : Datagram → Prop
  | toSuccessor (tx : UInt32) : Notice L ⟨L.self.addr, L.ring.successor.addr,
      Message.bytes ⟨tx, .departureReq L.self L.ring.predecessor⟩⟩
  | toPredecessor (tx : UInt32) : Notice L ⟨L.self.addr, L.ring.predecessor.addr,
      Message.bytes ⟨tx, .departureReq L.self L.ring.successor⟩⟩

/-- The store request handing entry `e` of `L`'s store to `L`'s successor under id `tx`. -/
def storeRequest (L : Node) (e : Bytes × DocSet) (tx : UInt32) : Datagram :=
  ⟨L.self.addr, L.ring.successor.addr, Message.bytes ⟨tx, .storeReq e.1 e.2.toList⟩⟩

/-- The datagrams a leaving member `L` sends: a store request for an entry of its store, or
a notice. -/
inductive HandedOn (L : Node) : Datagram → Prop
  | store {e : Bytes × DocSet} (he : e ∈ L.search.store.map.entries) (tx : UInt32) :
      HandedOn L (storeRequest L e tx)
  | notice {d : Datagram} (h : Notice L d) : HandedOn L d

/-- Entry `e` has reached `n`: its term and every document of it are in `n`'s store. -/
def Arrived (e : Bytes × DocSet) (n : Node) : Prop :=
  e.1 ∈ n.search.store.terms ∧ ∀ x ∈ e.2.toList, n.search.store.map.Holds e.1 x

/-- Member `n` is `n₀` from before `L` left: in the same place, with `L` put out of its
neighbours or still to be, and with a store that only `L`'s successor grows, by what `L`
held. -/
structure Node.Healing (n₀ L n : Node) : Prop where
  self : n.self = n₀.self
  inRing : n.ring.inRing = n₀.ring.inRing
  predecessor : n.ring.predecessor = n₀.ring.predecessor ∨
    (n₀.ring.predecessor = L.self ∧ n.ring.predecessor = L.ring.predecessor)
  successor : n.ring.successor = n₀.ring.successor ∨
    (n₀.ring.successor = L.self ∧ n.ring.successor = L.ring.successor)
  store : (n₀.self = L.ring.successor ∧ n₀.ring.inRing = true) ∨
    n.search.store = n₀.search.store
  kept : ∀ t x, n₀.search.store.map.Holds t x → n.search.store.map.Holds t x
  sound : ∀ t x, n.search.store.map.Holds t x →
    n₀.search.store.map.Holds t x ∨ L.search.store.map.Holds t x
  terms_kept : ∀ t ∈ n₀.search.store.terms, t ∈ n.search.store.terms
  terms_sound : ∀ t ∈ n.search.store.terms,
    t ∈ n₀.search.store.terms ∨ t ∈ L.search.store.terms
  ascending : n₀.search.store.map.Ascending → n.search.store.map.Ascending

theorem Node.Healing.refl (n₀ L : Node) : n₀.Healing L n₀ where
  self := rfl
  inRing := rfl
  predecessor := .inl rfl
  successor := .inl rfl
  store := .inr rfl
  kept _ _ h := h
  sound _ _ h := .inl h
  terms_kept _ h := h
  terms_sound _ h := .inl h
  ascending h := h

theorem Message.bytes_inj {m m' : Message} (h : m.body.Exact) (h' : m'.body.Exact)
    (he : m.bytes = m'.bytes) : m = m' := by
  have hd := Message.decode_bytes h
  rw [he, Message.decode_bytes h'] at hd
  exact (Except.ok.inj hd).symm

theorem Node.Healing.add {n₀ L n : Node} (h : n₀.Healing L n) (hS : n₀.self = L.ring.successor)
    (hin₀ : n₀.ring.inRing = true) {e : Bytes × DocSet} (he : e ∈ L.search.store.map.entries)
    (ms : Metrics) :
    n₀.Healing L { n with
      metrics := ms
      search := { n.search with store := n.search.store.add e.1 e.2.toList } } where
  self := h.self
  inRing := h.inRing
  predecessor := h.predecessor
  successor := h.successor
  store := .inl ⟨hS, hin₀⟩
  kept t x hx := Store.holds_add.2 (.inl (h.kept t x hx))
  sound t x hx := by
    rcases Store.holds_add.1 hx with hold | ⟨rfl, hdoc⟩
    · exact h.sound t x hold
    · exact .inr ⟨e.2, he, hdoc⟩
  terms_kept t ht := Store.mem_terms_add.2 (.inr (h.terms_kept t ht))
  terms_sound t ht := by
    rcases Store.mem_terms_add.1 ht with rfl | ht
    · exact .inr (List.mem_map_of_mem he)
    · exact h.terms_sound t ht
  ascending hasc := (h.ascending hasc).add

theorem Node.Healing.bypass {n₀ L n : Node} (h : n₀.Healing L n) {conn : NodeRef}
    (hp : n.ring.inRing = true → n.ring.predecessor = L.self → conn = L.ring.predecessor)
    (hs : n.ring.inRing = true → n.ring.successor = L.self → conn = L.ring.successor)
    (ms : Metrics) :
    n₀.Healing L { n with metrics := ms, ring := n.ring.bypassed L.self conn } where
  self := h.self
  inRing := by simpa using h.inRing
  predecessor := by
    show (n.ring.bypassed L.self conn).predecessor = _ ∨ _
    rw [Membership.bypassed_predecessor]
    split
    · next hc =>
      refine .inr ⟨?_, hp hc.1 hc.2⟩
      rcases h.predecessor with he | ⟨he, -⟩
      · exact he ▸ hc.2
      · exact he
    · exact h.predecessor
  successor := by
    show (n.ring.bypassed L.self conn).successor = _ ∨ _
    rw [Membership.bypassed_successor]
    split
    · next hc =>
      refine .inr ⟨?_, hs hc.1 hc.2⟩
      rcases h.successor with he | ⟨he, -⟩
      · exact he ▸ hc.2
      · exact he
    · exact h.successor
  store := h.store
  kept := h.kept
  sound := h.sound
  terms_kept := h.terms_kept
  terms_sound := h.terms_sound
  ascending := h.ascending

theorem Arrived.add {e : Bytes × DocSet} {n : Node} (h : Arrived e n) (term : Bytes)
    (docs : List Bytes) (ms : Metrics) :
    Arrived e { n with
      metrics := ms
      search := { n.search with store := n.search.store.add term docs } } :=
  ⟨Store.mem_terms_add.2 (.inr h.1), fun x hx => Store.holds_add.2 (.inl (h.2 x hx))⟩

theorem arrived_add (e : Bytes × DocSet) (n : Node) (ms : Metrics) :
    Arrived e { n with
      metrics := ms
      search := { n.search with store := n.search.store.add e.1 e.2.toList } } :=
  ⟨Store.mem_terms_add.2 (.inl rfl), fun _ hx => Store.holds_add.2 (.inr ⟨rfl, hx⟩)⟩

theorem storeReq_exact {K : Corpus} {m : TermMap} (hK : m.Within K) {e : Bytes × DocSet}
    (he : e ∈ m.entries) : (Body.storeReq e.1 e.2.toList).Exact :=
  ⟨(hK e he).1, K.exactSet (hK e he).2⟩

theorem TermMap.Within.fits {K : Corpus} {m : TermMap} (h : m.Within K) : m.Fits :=
  fun e he => ⟨(h e he).1, fun d hd => K.fits d ((h e he).2 d hd)⟩

theorem Notice.ne_storeRequest {L : Node} {d : Datagram} (hn : Notice L d) (hme : L.self.OnWire)
    (hs : L.ring.successor.OnWire) (hp : L.ring.predecessor.OnWire) {e : Bytes × DocSet}
    {tx : UInt32} (hb : (Body.storeReq e.1 e.2.toList).Exact) : d ≠ storeRequest L e tx := by
  intro heq
  cases hn with
  | toSuccessor tx' =>
    have hm := Message.bytes_inj (show Body.Exact (.departureReq L.self L.ring.predecessor) from
      ⟨.of_onWire hme, .of_onWire hp⟩) hb (congrArg Datagram.data heq)
    simp at hm
  | toPredecessor tx' =>
    have hm := Message.bytes_inj (show Body.Exact (.departureReq L.self L.ring.successor) from
      ⟨.of_onWire hme, .of_onWire hs⟩) hb (congrArg Datagram.data heq)
    simp at hm

theorem List.Forall₂.partners {α β : Type} {R : α → β → Prop} {l₁ : List α} {l₂ : List β}
    (h : List.Forall₂ R l₁ l₂) : (∀ a ∈ l₁, ∃ b ∈ l₂, R a b) ∧ ∀ b ∈ l₂, ∃ a ∈ l₁, R a b := by
  induction h with
  | nil => simp
  | cons hab _ ih =>
    refine ⟨fun a ha => ?_, fun b hb => ?_⟩
    · rcases List.mem_cons.1 ha with rfl | ha
      · exact ⟨_, List.mem_cons_self, hab⟩
      · obtain ⟨b, hb, h⟩ := ih.1 a ha
        exact ⟨b, List.mem_cons_of_mem _ hb, h⟩
    · rcases List.mem_cons.1 hb with rfl | hb
      · exact ⟨_, List.mem_cons_self, hab⟩
      · obtain ⟨a, ha, h⟩ := ih.2 b hb
        exact ⟨a, List.mem_cons_of_mem _ ha, h⟩

theorem List.mem_eraseIdx_of_ne {α : Type} {l : List α} {k : Nat} {d x : α} (hk : l[k]? = some d)
    (hx : x ∈ l) (hne : x ≠ d) : x ∈ l.eraseIdx k := by
  obtain ⟨j, hj⟩ := List.mem_iff_getElem?.1 hx
  refine List.mem_eraseIdx_iff_getElem?.2 ⟨j, fun hjk => hne ?_, hj⟩
  rw [hjk, hk] at hj
  exact (Option.some.inj hj).symm

theorem Array.mem_modify_const {α : Type} {xs : Array α} {j : Nat} {a m : α}
    (hm : m ∈ xs.modify j fun _ => a) : m = a ∨ ∃ j', j' ≠ j ∧ xs[j']? = some m := by
  obtain ⟨j', hj'⟩ := Array.mem_iff_getElem?.1 hm
  rw [Array.getElem?_modify] at hj'
  split at hj'
  · next h =>
    obtain ⟨x, -, hx⟩ := Option.map_eq_some_iff.1 hj'
    exact .inl hx.symm
  · next h => exact .inr ⟨j', Ne.symm h, hj'⟩

namespace Cluster

/-- What holds while the datagrams of the leave of member `i`, which was `L` in `c₀` and `L'`
after its turn, are delivered: the members hold their places; the leaving member stays as it
left; every other member heals around it; only the leaving member's datagrams are queued;
each entry of its store is on its way to its successor or there; and each member still
pointing at it has a notice on its way. -/
structure Departing (c₀ : Cluster) (i : Nat) (L L' : Node) (c : Cluster) : Prop where
  selves : c.members.toList.map (·.self) = c₀.members.toList.map (·.self)
  endpoints : c.endpoints = c₀.endpoints
  cut : c.cut = c₀.cut
  leaver : c.members[i]? = some L'
  others : ∀ j n₀, j ≠ i → c₀.members[j]? = some n₀ →
    ∃ n, c.members[j]? = some n ∧ n₀.Healing L n
  queue : ∀ d ∈ c.queue.toList, HandedOn L d
  arrival : ∀ e ∈ L.search.store.map.entries, (∃ tx, storeRequest L e tx ∈ c.queue.toList) ∨
    ∀ n ∈ c.members, n.self = L.ring.successor → n.ring.inRing = true → Arrived e n
  notified : ∀ n ∈ c.members, n.ring.inRing = true →
    (n.ring.predecessor = L.self ∨ n.ring.successor = L.self) →
    ∃ d ∈ c.queue.toList, Notice L d ∧ d.dst = n.self.addr

namespace Departing

variable {c₀ : Cluster} {i : Nat} {L : Node} (hc : c₀.Correct) (hi : c₀.members[i]? = some L)
  (hin : L.ring.inRing = true) (h2 : 2 ≤ c₀.ringIds.length) (hw : c₀.MembersOnWire)

include hc hi hin h2 hw in
theorem start (hfit : L.search.store.map.Fits) (hq : c₀.queue.toList = []) :
    Departing c₀ i L (Ring.leave.run (c₀.startTurn L)).2.node (c₀.turn i Ring.leave).2 := by
  have hL := Array.mem_of_getElem? hi
  have hme : c₀.InRing L.self := ⟨L, hL, rfl, hin⟩
  have hsr := hc.successor_inRing hi hin
  have hpr := hc.predecessor_inRing hi hin
  have hset : L.ring.successor.isUnset = false := by
    simp [NodeRef.isUnset, (hw.of_inRing hsr).isSet]
  obtain ⟨hself, hring, -⟩ := leave_node (t := c₀.startTurn L) hin (hc.successor_ne hi hin h2) hset
  have hout' : (Ring.leave.run (c₀.startTurn L)).2.node.ring.inRing = false := by rw [hring]
  have hl : (c₀.startTurn L).linkOpen = true := linkOpen_of_handlerOf (hc.handler i L hi hin)
  obtain ⟨sent, tx₁, tx₂, hout, hfor⟩ := leave_outgoing (t := c₀.startTurn L) hin hl
    (hc.successor_ne hi hin h2) (hc.predecessor_ne hi hin h2) (hw.of_inRing hme) (hw.of_inRing hsr)
    (hw.of_inRing hpr) hfit
  have hqueue : (c₀.afterTurn i L (Ring.leave.run (c₀.startTurn L)).2).queue.toList =
      sent.map (fun p => ⟨L.self.addr, p.1, p.2⟩) ++
        [⟨L.self.addr, L.ring.successor.addr,
          Message.bytes ⟨tx₁, .departureReq L.self L.ring.predecessor⟩⟩,
         ⟨L.self.addr, L.ring.predecessor.addr,
          Message.bytes ⟨tx₂, .departureReq L.self L.ring.successor⟩⟩] := by
    rw [afterTurn_queue, hq, hout]
    simp [startTurn]
  rw [turn_run hi]
  refine ⟨selves_afterTurn hi hself, rfl, rfl, ?_, fun j n₀ hj hn₀ => ?_, fun d hd => ?_,
    fun e he => .inl ?_, fun n hn hinn hpl => ?_⟩
  · rw [getElem?_afterTurn hi, if_pos rfl]
  · exact ⟨n₀, by rw [getElem?_afterTurn hi, if_neg hj, hn₀], Node.Healing.refl n₀ L⟩
  · rw [hqueue] at hd
    rcases List.mem_append.1 hd with hd | hd
    · -- a store request, for the entry it was sent for
      obtain ⟨p, hp, rfl⟩ := List.mem_map.1 hd
      obtain ⟨e, he, tx, rfl⟩ := (List.Forall₂.partners hfor).1 p hp
      exact .store he tx
    · simp only [List.mem_cons, List.not_mem_nil, or_false] at hd
      rcases hd with rfl | rfl
      · exact .notice (.toSuccessor tx₁)
      · exact .notice (.toPredecessor tx₂)
  · obtain ⟨p, hp, tx, rfl⟩ := (List.Forall₂.partners hfor).2 e he
    exact ⟨tx, by rw [hqueue]; exact List.mem_append_left _ (List.mem_map.2 ⟨_, hp, rfl⟩)⟩
  · rcases mem_afterTurn hi hn with rfl | hn₀
    · rw [hout'] at hinn
      cases hinn
    rw [hqueue]
    rcases hpl with hpl | hpl
    · refine ⟨_, List.mem_append_right _ (List.mem_cons_self), .toSuccessor tx₁, ?_⟩
      rw [hc.eq_successor_of_predecessor hi hin hn₀ hinn hpl]
    · refine ⟨_, List.mem_append_right _ (List.mem_cons_of_mem _ List.mem_cons_self),
        .toPredecessor tx₂, ?_⟩
      rw [hc.eq_predecessor_of_successor hi hin hn₀ hinn hpl]

variable {L' : Node} {c : Cluster}

theorem handlerOf_eq (h : Departing c₀ i L L' c) : c.handlerOf = c₀.handlerOf :=
  handlerOf_of_selves h.selves h.endpoints

theorem selves_eq (h : Departing c₀ i L L' c) {j : Nat} {n n₀ : Node}
    (hj : c.members[j]? = some n) (hj₀ : c₀.members[j]? = some n₀) : n.self = n₀.self := by
  have hs := congrArg (·[j]?) h.selves
  simpa [hj, hj₀] using hs

theorem exists_old (h : Departing c₀ i L L' c) {j : Nat} {n : Node} (hj : c.members[j]? = some n) :
    ∃ n₀, c₀.members[j]? = some n₀ := by
  have hsize : c.members.size = c₀.members.size := by
    simpa using congrArg List.length h.selves
  have hlt := (Array.getElem?_eq_some_iff.1 hj).1
  exact ⟨_, Array.getElem?_eq_getElem (hsize ▸ hlt)⟩

theorem healed (h : Departing c₀ i L L' c) {j : Nat} {n₀ n : Node} (hji : j ≠ i)
    (hn₀ : c₀.members[j]? = some n₀) (hn : c.members[j]? = some n) : n₀.Healing L n := by
  obtain ⟨n', hn', hheal⟩ := h.others j n₀ hji hn₀
  rw [hn] at hn'
  obtain rfl := Option.some.inj hn'
  exact hheal

include hc in
theorem handler (h : Departing c₀ i L L' c) (hL' : L'.ring.inRing = false) {j : Nat} {n : Node}
    (hj : c.members[j]? = some n) (hinn : n.ring.inRing = true) :
    j ≠ i ∧ c.handlerOf n.self.addr = some j := by
  have hji : j ≠ i := by
    rintro rfl
    rw [h.leaver] at hj
    cases hj
    rw [hL'] at hinn
    cases hinn
  obtain ⟨n₀, hn₀⟩ := h.exists_old hj
  have hheal := h.healed hji hn₀ hj
  refine ⟨hji, ?_⟩
  rw [h.handlerOf_eq, hheal.self]
  exact hc.handler j n₀ hn₀ (hheal.inRing ▸ hinn)

include hc in
theorem old_of_inRing (h : Departing c₀ i L L' c) (hL' : L'.ring.inRing = false) {n : Node}
    (hn : n ∈ c.members) (hinn : n.ring.inRing = true) :
    ∃ j n₀, c.members[j]? = some n ∧ j ≠ i ∧ c₀.members[j]? = some n₀ ∧ n₀.Healing L n ∧
      n₀.ring.inRing = true := by
  obtain ⟨j, hj⟩ := Array.mem_iff_getElem?.1 hn
  have hji := (h.handler hc hL' hj hinn).1
  obtain ⟨n₀, hn₀⟩ := h.exists_old hj
  have hheal := h.healed hji hn₀ hj
  exact ⟨j, n₀, hj, hji, hn₀, hheal, hheal.inRing.symm.trans hinn⟩

theorem replace (h : Departing c₀ i L L' c) {c' : Cluster} {k j : Nat} {n n' : Node}
    (hj : c.members[j]? = some n) (hji : j ≠ i) (hmem : c'.members = c.members.modify j fun _ => n')
    (hqueue : c'.queue.toList = c.queue.toList.eraseIdx k) (hend : c'.endpoints = c.endpoints)
    (hcut : c'.cut = c.cut) (hself : n'.self = n.self)
    (hheal : ∀ n₀, c₀.members[j]? = some n₀ → n₀.Healing L n → n₀.Healing L n')
    (harr : ∀ e ∈ L.search.store.map.entries, (∃ tx, storeRequest L e tx ∈ c'.queue.toList) ∨
      ∀ m ∈ c'.members, m.self = L.ring.successor → m.ring.inRing = true → Arrived e m)
    (hnot : ∀ m ∈ c'.members, m.ring.inRing = true →
      (m.ring.predecessor = L.self ∨ m.ring.successor = L.self) →
      ∃ d ∈ c'.queue.toList, Notice L d ∧ d.dst = m.self.addr) :
    Departing c₀ i L L' c' where
  selves := by
    rw [hmem, ← Array.toList_map, members_modify_map (·.self) hj hself, Array.toList_map, h.selves]
  endpoints := hend.trans h.endpoints
  cut := hcut.trans h.cut
  leaver := by
    rw [hmem, Array.getElem?_modify, if_neg hji]
    exact h.leaver
  others j' n₀ hj' hn₀ := by
    obtain ⟨m, hm, hheal'⟩ := h.others j' n₀ hj' hn₀
    rw [hmem, Array.getElem?_modify]
    split
    · next hjj =>
      subst hjj
      rw [hj] at hm
      obtain rfl := Option.some.inj hm
      exact ⟨n', by rw [hj]; rfl, hheal n₀ hn₀ hheal'⟩
    · exact ⟨m, hm, hheal'⟩
  queue d hd := h.queue d (List.mem_of_mem_eraseIdx (hqueue ▸ hd))
  arrival := harr
  notified := hnot

variable (hL' : L'.ring.inRing = false)
  (hcut : ∀ n ∈ c₀.members, n.ring.inRing = true → n.self.addr ∉ c₀.cut)
  {K : Corpus} (hK : L.search.store.map.Within K)
include hc hi hin h2 hw hL' hcut hK

theorem deliver_store (h : Departing c₀ i L L' c) {k : Nat} {e : Bytes × DocSet} {tx : UInt32}
    (he : e ∈ L.search.store.map.entries) (hd : c.queue.toList[k]? = some (storeRequest L e tx)) :
    Departing c₀ i L L' (c.deliverAt k) ∧
      (c.deliverAt k).queue.toList = c.queue.toList.eraseIdx k := by
  have hL := Array.mem_of_getElem? hi
  have hb := storeReq_exact hK he
  obtain ⟨j, n₀, hn₀, hself₀, hin₀, hj₀, hji⟩ :=
    hc.handler_of_ne hi (hc.successor_inRing hi hin) (hc.successor_ne hi hin h2)
  have hjc : c.handlerOf L.ring.successor.addr = some j := h.handlerOf_eq ▸ hj₀
  obtain ⟨n, hn, hheal⟩ := h.others j n₀ hji hn₀
  obtain ⟨ms, hrun⟩ := receive_storeReq L.self.addr tx hb (c.startTurn n)
  have hdst : L.ring.successor.addr ∉ c.cut := by
    rw [h.cut, ← hself₀]
    exact hcut n₀ (Array.mem_of_getElem? hn₀) hin₀
  have hnode : ((Node.receive (storeRequest L e tx).src (storeRequest L e tx).data).run
      (c.startTurn n)).2.node = { n with
        metrics := ms
        search := { n.search with store := n.search.store.add e.1 e.2.toList } } := by
    rw [storeRequest, hrun]
    rfl
  obtain ⟨hmem, hqueue, hend, hcut'⟩ := deliverAt_silent hd (h.cut ▸ hcut L hL hin) hdst hjc hn
    hnode (by rw [storeRequest, hrun]; rfl)
  have honly : ∀ j' m, j' ≠ j → c.members[j']? = some m → m.self = L.ring.successor →
      m.ring.inRing = true → False := by
    intro j' m hj' hm hmS hmin
    have hh := (h.handler hc hL' hm hmin).2
    rw [hmS, hjc] at hh
    exact hj' (Option.some.inj hh).symm
  refine ⟨h.replace hn hji hmem hqueue hend hcut' rfl ?_ (fun e' he' => ?_)
    (fun m hm hmin hpl => ?_), hqueue⟩
  · intro n₁ hn₁ hh
    rw [hn₀] at hn₁
    obtain rfl := Option.some.inj hn₁
    exact hh.add hself₀ hin₀ he ms
  · rcases h.arrival e' he' with ⟨tx', hq'⟩ | hall
    · by_cases hsame : storeRequest L e' tx' = storeRequest L e tx
      · -- the request just delivered: the entry has arrived
        have hm := Message.bytes_inj (storeReq_exact hK he') hb (congrArg Datagram.data hsame)
        simp only [Message.mk.injEq, Body.storeReq.injEq] at hm
        refine .inr fun m hm' hmS hmin => ?_
        rw [hmem] at hm'
        rcases Array.mem_modify_const hm' with rfl | ⟨j', hj', hmj'⟩
        · have ha := arrived_add e n ms
          exact ⟨hm.2.1 ▸ ha.1, fun x hx => hm.2.1 ▸ ha.2 x (hm.2.2 ▸ hx)⟩
        · exact (honly j' m hj' hmj' hmS hmin).elim
      · exact .inl ⟨tx', hqueue ▸ List.mem_eraseIdx_of_ne hd hq' hsame⟩
    · refine .inr fun m hm' hmS hmin => ?_
      rw [hmem] at hm'
      rcases Array.mem_modify_const hm' with rfl | ⟨j', hj', hmj'⟩
      · exact (hall n (Array.mem_of_getElem? hn) hmS hmin).add e.1 e.2.toList ms
      · exact hall m (Array.mem_of_getElem? hmj') hmS hmin
  · -- the notices still queued are not the request delivered
    have hnot : ∀ m' ∈ c.members, m'.self = m.self → m'.ring = m.ring →
        ∃ d ∈ (c.deliverAt k).queue.toList, Notice L d ∧ d.dst = m.self.addr := by
      intro m' hm' hself hring
      obtain ⟨d', hd', hn', hdst⟩ := h.notified m' hm' (hring ▸ hmin) (hring ▸ hpl)
      refine ⟨d', hqueue ▸ List.mem_eraseIdx_of_ne hd hd' ?_, hn', hself ▸ hdst⟩
      exact hn'.ne_storeRequest (hw.of_inRing ⟨L, hL, rfl, hin⟩)
        (hw.of_inRing (hc.successor_inRing hi hin)) (hw.of_inRing (hc.predecessor_inRing hi hin)) hb
    rw [hmem] at hm
    rcases Array.mem_modify_const hm with rfl | ⟨j', -, hmj'⟩
    · exact hnot n (Array.mem_of_getElem? hn) rfl rfl
    · exact hnot m (Array.mem_of_getElem? hmj') rfl rfl

/-- Delivering a notice to `X`, one of the leaving member's neighbours, naming `conn`, the
neighbour on its other side: the member at `X` puts `conn` where it had the leaving member, and
as the successor's new predecessor `conn` is handed nothing. -/
theorem deliver_departure (hplaced : c₀.Placed) (h : Departing c₀ i L L' c) {k : Nat}
    {X conn : NodeRef} {tx : UInt32} (hX : X = L.ring.successor ∨ X = L.ring.predecessor)
    (hXc : (X = L.ring.successor → conn = L.ring.predecessor) ∧
      (X = L.ring.predecessor → conn = L.ring.successor))
    (hd : c.queue.toList[k]? = some
      ⟨L.self.addr, X.addr, Message.bytes ⟨tx, .departureReq L.self conn⟩⟩) :
    Departing c₀ i L L' (c.deliverAt k) ∧
      (c.deliverAt k).queue.toList = c.queue.toList.eraseIdx k := by
  have hL := Array.mem_of_getElem? hi
  have hme : c₀.InRing L.self := ⟨L, hL, rfl, hin⟩
  have hsr := hc.successor_inRing hi hin
  have hpr := hc.predecessor_inRing hi hin
  have hXin : c₀.InRing X ∧ X ≠ L.self := by
    rcases hX with rfl | rfl
    · exact ⟨hsr, hc.successor_ne hi hin h2⟩
    · exact ⟨hpr, hc.predecessor_ne hi hin h2⟩
  have hconn : c₀.InRing conn ∧ conn ≠ L.self := by
    rcases hX with hXS | hXP
    · rw [hXc.1 hXS]
      exact ⟨hpr, hc.predecessor_ne hi hin h2⟩
    · rw [hXc.2 hXP]
      exact ⟨hsr, hc.successor_ne hi hin h2⟩
  have hb : (Body.departureReq L.self conn).Exact :=
    ⟨.of_onWire (hw.of_inRing hme), .of_onWire (hw.of_inRing hconn.1)⟩
  obtain ⟨j, n₀, hn₀, hself₀, hin₀, hj₀, hji⟩ := hc.handler_of_ne hi hXin.1 hXin.2
  have hn₀m := Array.mem_of_getElem? hn₀
  have hjc : c.handlerOf X.addr = some j := h.handlerOf_eq ▸ hj₀
  obtain ⟨n, hn, hheal⟩ := h.others j n₀ hji hn₀
  have hpS : n.ring.predecessor = L.self → X = L.ring.successor := by
    intro hp
    have hp₀ : n₀.ring.predecessor = L.self := by
      rcases hheal.predecessor with he | ⟨he, -⟩
      · exact he ▸ hp
      · exact he
    rw [← hself₀]
    exact hc.eq_successor_of_predecessor hi hin hn₀m hin₀ hp₀
  have hsP : n.ring.successor = L.self → X = L.ring.predecessor := by
    intro hs
    have hs₀ : n₀.ring.successor = L.self := by
      rcases hheal.successor with he | ⟨he, -⟩
      · exact he ▸ hs
      · exact he
    rw [← hself₀]
    exact hc.eq_predecessor_of_successor hi hin hn₀m hin₀ hs₀
  have hown : n.ring.inRing = true → n.ring.predecessor = L.self →
      ∀ x ∈ n.search.store.terms, Arc.owns conn.id (RingId.hash x) n.self.id = true := by
    intro _ hp x hx
    rw [hXc.1 (hpS hp), hheal.self, hself₀, hpS hp]
    exact hc.owns_bypass hi hin hplaced h2 hn₀m (hself₀.trans (hpS hp)) (hheal.terms_sound x hx)
  obtain ⟨ms, ev, hrun⟩ := receive_departureReq L.self.addr tx hb (t := c.startTurn n) hown
  have hnode : ((Node.receive L.self.addr (Message.bytes ⟨tx, .departureReq L.self conn⟩)).run
      (c.startTurn n)).2.node = { n with metrics := ms, ring := n.ring.bypassed L.self conn } := by
    rw [hrun]
    rfl
  have hdst : X.addr ∉ c.cut := by
    rw [h.cut, ← hself₀]
    exact hcut n₀ hn₀m hin₀
  obtain ⟨hmem, hqueue, hend, hcut'⟩ := deliverAt_silent hd (h.cut ▸ hcut L hL hin) hdst hjc hn
    hnode (by rw [hrun]; rfl)
  refine ⟨h.replace hn hji hmem hqueue hend hcut' rfl ?_ (fun e he => ?_)
    (fun m hm hmin hpl => ?_), hqueue⟩
  · intro n₁ hn₁ hh
    rw [hn₀] at hn₁
    obtain rfl := Option.some.inj hn₁
    exact hh.bypass (fun _ hp => hXc.1 (hpS hp)) (fun _ hs => hXc.2 (hsP hs)) ms
  · -- the store requests queued are not the notice delivered, and no store changed
    rcases h.arrival e he with ⟨tx', hq'⟩ | hall
    · refine .inl ⟨tx', hqueue ▸ List.mem_eraseIdx_of_ne hd hq' fun heq => ?_⟩
      have hm := Message.bytes_inj (storeReq_exact hK he) hb (congrArg Datagram.data heq)
      simp at hm
    · refine .inr fun m hm hmS hmin => ?_
      rw [hmem] at hm
      rcases Array.mem_modify_const hm with rfl | ⟨j', -, hmj'⟩
      · exact hall n (Array.mem_of_getElem? hn) hmS (by simpa using hmin)
      · exact hall m (Array.mem_of_getElem? hmj') hmS hmin
  · rw [hmem] at hm
    rcases Array.mem_modify_const hm with rfl | ⟨j', hj', hmj'⟩
    · -- the member at `X` no longer points at the leaving member
      have hinn : n.ring.inRing = true := by simpa using hmin
      exfalso
      rcases hpl with hp | hs
      · change (n.ring.bypassed L.self conn).predecessor = L.self at hp
        rw [Membership.bypassed_predecessor] at hp
        split at hp
        · exact hconn.2 hp
        · next hno => exact hno ⟨hinn, hp⟩
      · change (n.ring.bypassed L.self conn).successor = L.self at hs
        rw [Membership.bypassed_successor] at hs
        split at hs
        · exact hconn.2 hs
        · next hno => exact hno ⟨hinn, hs⟩
    · -- another member's notice is still queued: it goes to another address
      obtain ⟨d', hd', hn', hdst'⟩ := h.notified m (Array.mem_of_getElem? hmj') hmin hpl
      refine ⟨d', hqueue ▸ List.mem_eraseIdx_of_ne hd hd' fun heq => hj' ?_, hn', hdst'⟩
      have hh := (h.handler hc hL' hmj' hmin).2
      rw [← hdst', heq, hjc] at hh
      exact (Option.some.inj hh).symm

theorem deliverAt (hplaced : c₀.Placed) (h : Departing c₀ i L L' c) {k : Nat}
    (hk : k < c.queue.toList.length) :
    Departing c₀ i L L' (c.deliverAt k) ∧
      (c.deliverAt k).queue.toList.length < c.queue.toList.length := by
  generalize hdk : c.queue.toList[k] = d
  have hd : c.queue.toList[k]? = some d := hdk ▸ List.getElem?_eq_getElem hk
  have hh : HandedOn L d := h.queue d (List.mem_of_getElem? hd)
  obtain ⟨h', hq⟩ : Departing c₀ i L L' (c.deliverAt k) ∧
      (c.deliverAt k).queue.toList = c.queue.toList.eraseIdx k := by
    cases hh with
    | store he tx => exact h.deliver_store hc hi hin h2 hw hL' hcut hK he hd
    | notice hn =>
      cases hn with
      | toSuccessor tx =>
        exact h.deliver_departure hc hi hin h2 hw hL' hcut hK hplaced (.inl rfl)
          ⟨fun _ => rfl, fun hSP => hSP.symm⟩ hd
      | toPredecessor tx =>
        exact h.deliver_departure hc hi hin h2 hw hL' hcut hK hplaced (.inr rfl)
          ⟨fun hPS => hPS.symm, fun _ => rfl⟩ hd
  refine ⟨h', ?_⟩
  rw [hq, List.length_eraseIdx_of_lt hk]
  omega

theorem delivering (hplaced : c₀.Placed) (h : Departing c₀ i L L' c) {c' : Cluster}
    (hrun : Delivering c c') : Departing c₀ i L L' c' := by
  refine Run.invariant (I := Departing c₀ i L L') ?_ hrun h
  intro c₁ c₂ h₁ hstep
  cases hstep with
  | act hno => exact hno.elim
  | deliver k =>
    by_cases hk : k < c₁.queue.toList.length
    · exact (h₁.deliverAt hc hi hin h2 hw hL' hcut hK hplaced hk).1
    · rw [deliverAt_of_length_le (Nat.le_of_not_lt hk)]
      exact h₁

theorem drains (hplaced : c₀.Placed) (h : Departing c₀ i L L' c) :
    ∃ c', Delivering c c' ∧ c'.queue.toList = [] := by
  induction hn : c.queue.toList.length using Nat.strong_induction_on generalizing c with
  | _ n ih =>
    cases hq : c.queue.toList with
    | nil => exact ⟨c, .refl, hq⟩
    | cons d ds =>
      have hk : 0 < c.queue.toList.length := by simp [hq]
      obtain ⟨h', hlt⟩ := h.deliverAt hc hi hin h2 hw hL' hcut hK hplaced hk
      obtain ⟨c', hrun, hempty⟩ := ih _ (hn ▸ hlt) h' rfl
      exact ⟨c', .head (.deliver 0) hrun, hempty⟩

end Departing

/-! ### Once nothing is in flight -/

namespace Departing

variable {c₀ : Cluster} {i : Nat} {L L' : Node} {c : Cluster}

theorem unlinked (h : Departing c₀ i L L' c) (hq : c.queue.toList = []) {n : Node}
    (hn : n ∈ c.members) (hinn : n.ring.inRing = true) :
    n.ring.predecessor ≠ L.self ∧ n.ring.successor ≠ L.self := by
  have hnone : ¬ (n.ring.predecessor = L.self ∨ n.ring.successor = L.self) := fun hpl => by
    obtain ⟨d, hd, -⟩ := h.notified n hn hinn hpl
    rw [hq] at hd
    cases hd
  exact ⟨fun hp => hnone (.inl hp), fun hs => hnone (.inr hs)⟩

theorem arrived (h : Departing c₀ i L L' c) (hq : c.queue.toList = []) {n : Node}
    (hn : n ∈ c.members) (hS : n.self = L.ring.successor) (hinn : n.ring.inRing = true)
    {e : Bytes × DocSet} (he : e ∈ L.search.store.map.entries) : Arrived e n := by
  refine (h.arrival e he).resolve_left ?_ n hn hS hinn
  rintro ⟨tx, htx⟩
  rw [hq] at htx
  cases htx

section Successor

variable (h : Departing c₀ i L L' c) (hq : c.queue.toList = []) {j : Nat} {n₀ n : Node}
  (hji : j ≠ i) (hn₀ : c₀.members[j]? = some n₀) (hn : c.members[j]? = some n)
  (hS : n₀.self = L.ring.successor) (hin₀ : n₀.ring.inRing = true)
include h hq hji hn₀ hn hS hin₀

theorem successor_holds (t x : Bytes) :
    n.search.store.map.Holds t x ↔
      n₀.search.store.map.Holds t x ∨ L.search.store.map.Holds t x := by
  have hheal := h.healed hji hn₀ hn
  refine ⟨hheal.sound t x, ?_⟩
  rintro (hx | ⟨d, hd, hx⟩)
  · exact hheal.kept t x hx
  · exact (h.arrived hq (Array.mem_of_getElem? hn) (hheal.self.trans hS)
      (hheal.inRing.trans hin₀) hd).2 x hx

theorem successor_terms (t : Bytes) :
    t ∈ n.search.store.terms ↔ t ∈ n₀.search.store.terms ∨ t ∈ L.search.store.terms := by
  have hheal := h.healed hji hn₀ hn
  refine ⟨hheal.terms_sound t, ?_⟩
  rintro (ht | ht)
  · exact hheal.terms_kept t ht
  · obtain ⟨e, he, rfl⟩ := List.mem_map.1 ht
    exact (h.arrived hq (Array.mem_of_getElem? hn) (hheal.self.trans hS)
      (hheal.inRing.trans hin₀) he).1

theorem successor_postings (hasc₀ : n₀.search.store.map.Ascending)
    (hasc : L.search.store.map.Ascending) (t : Bytes) :
    n.search.store.postings t = (n₀.search.store.postings t).union (L.search.store.postings t) := by
  have hheal := h.healed hji hn₀ hn
  refine DocSet.ext_mem fun x => ?_
  rw [DocSet.mem_union, Store.postings, Store.postings, Store.postings,
    ← TermMap.holds_iff_postings (hheal.ascending hasc₀), ← TermMap.holds_iff_postings hasc₀,
    ← TermMap.holds_iff_postings hasc]
  exact h.successor_holds hq hji hn₀ hn hS hin₀ t x

end Successor

variable (hc : c₀.Correct) (hi : c₀.members[i]? = some L) (hin : L.ring.inRing = true)
  (hL' : L'.ring.inRing = false)
include hc hi hin hL'

theorem ringMembers_eq (h : Departing c₀ i L L' c) :
    c.ringMembers = c₀.ringMembers.filter (· != L.self) := by
  apply ringMembers_eq_filter
  have hlen : c.members.toList.length = c₀.members.toList.length := by
    simpa using congrArg List.length h.selves
  refine List.forall₂_of_length_eq_of_get hlen fun j h₁ h₂ => ?_
  have hj : c.members[j]? = some (c.members.toList.get ⟨j, h₁⟩) := by simp
  have hj₀ : c₀.members[j]? = some (c₀.members.toList.get ⟨j, h₂⟩) := by simp
  generalize c.members.toList.get ⟨j, h₁⟩ = n at hj ⊢
  generalize c₀.members.toList.get ⟨j, h₂⟩ = n₀ at hj₀ ⊢
  refine ⟨h.selves_eq hj hj₀, ?_⟩
  by_cases hji : j = i
  · -- the leaving member is out of the ring
    subst hji
    rw [h.leaver] at hj
    rw [hi] at hj₀
    obtain rfl := Option.some.inj hj
    obtain rfl := Option.some.inj hj₀
    simp [hL']
  · -- every other member is where it was, and is not the leaving member
    obtain ⟨n', hn', hheal⟩ := h.others j n₀ hji hj₀
    rw [hj] at hn'
    obtain rfl := Option.some.inj hn'
    rw [hheal.inRing]
    cases hin₀ : n₀.ring.inRing
    · rfl
    · have hne := hc.id_ne hi hin hj₀ hin₀ hji
      simpa using fun heq => hne (congrArg NodeRef.id heq)

theorem inRing_iff (h : Departing c₀ i L L' c) {r : NodeRef} :
    c.InRing r ↔ c₀.InRing r ∧ r ≠ L.self := by
  rw [← mem_ringMembers_iff, ← mem_ringMembers_iff, h.ringMembers_eq hc hi hin hL']
  simp

theorem mem_ringIds (h : Departing c₀ i L L' c) {x : RingId} :
    x ∈ c.ringIds ↔ x ∈ c₀.ringIds ∧ x ≠ L.self.id := by
  unfold ringIds
  rw [h.ringMembers_eq hc hi hin hL']
  simp only [List.mem_map, List.mem_filter, bne_iff_ne, ne_eq]
  constructor
  · rintro ⟨r, ⟨hr, hne⟩, rfl⟩
    exact ⟨⟨r, hr, rfl⟩, fun heq => hne (hc.inRing_inj (mem_ringMembers_iff.1 hr)
      ⟨L, Array.mem_of_getElem? hi, rfl, hin⟩ heq)⟩
  · rintro ⟨⟨r, hr, rfl⟩, hne⟩
    exact ⟨r, ⟨hr, fun heq => hne (heq ▸ rfl)⟩, rfl⟩

variable (h2 : 2 ≤ c₀.ringIds.length)

include h2 in
theorem neighbours_inRing (h : Departing c₀ i L L' c) :
    c.InRing L.ring.successor ∧ c.InRing L.ring.predecessor :=
  ⟨(h.inRing_iff hc hi hin hL').2 ⟨hc.successor_inRing hi hin, hc.successor_ne hi hin h2⟩,
    (h.inRing_iff hc hi hin hL').2 ⟨hc.predecessor_inRing hi hin, hc.predecessor_ne hi hin h2⟩⟩

include h2 in
theorem successor_follows (h : Departing c₀ i L L' c) (hq : c.queue.toList = []) {n : Node}
    (hn : n ∈ c.members) (hinn : n.ring.inRing = true) :
    c.InRing n.ring.successor ∧ Ring.Follows c.ringIds n.self.id n.ring.successor.id := by
  have hL := Array.mem_of_getElem? hi
  obtain ⟨j, n₀, -, -, hn₀, hheal, hin₀⟩ := h.old_of_inRing hc hL' hn hinn
  have hn₀m := Array.mem_of_getElem? hn₀
  have hsub : ∀ m ∈ c.ringIds, m ∈ c₀.ringIds ∧ m ≠ L.self.id :=
    fun m hm => (h.mem_ringIds hc hi hin hL').1 hm
  rcases hheal.successor with hs | ⟨hs₀, hs⟩
  · -- a successor other than the leaving member stays
    obtain ⟨hr, hf⟩ := hc.successor n₀ hn₀m hin₀
    have hr' : c.InRing n.ring.successor :=
      (h.inRing_iff hc hi hin hL').2 ⟨by rw [hs]; exact hr, (h.unlinked hq hn hinn).2⟩
    refine ⟨hr', ?_⟩
    rw [hs] at hr' ⊢
    rw [hheal.self]
    exact hf.mono (fun m hm => (hsub m hm).1) hr'.id_mem
  · -- the leaving member's predecessor now has its successor next
    have hP := hc.eq_predecessor_of_successor hi hin hn₀m hin₀ hs₀
    have hS' := (h.neighbours_inRing hc hi hin hL' h2).1
    rw [hs, hheal.self, hP]
    exact ⟨hS', (hc.predecessor L hL hin).2.bridge (hc.successor L hL hin).2 hsub hS'.id_mem⟩

include h2 in
theorem predecessor_follows (h : Departing c₀ i L L' c) (hq : c.queue.toList = []) {n : Node}
    (hn : n ∈ c.members) (hinn : n.ring.inRing = true) :
    c.InRing n.ring.predecessor ∧ Ring.Follows c.ringIds n.ring.predecessor.id n.self.id := by
  have hL := Array.mem_of_getElem? hi
  obtain ⟨j, n₀, -, -, hn₀, hheal, hin₀⟩ := h.old_of_inRing hc hL' hn hinn
  have hn₀m := Array.mem_of_getElem? hn₀
  have hsub : ∀ m ∈ c.ringIds, m ∈ c₀.ringIds ∧ m ≠ L.self.id :=
    fun m hm => (h.mem_ringIds hc hi hin hL').1 hm
  rcases hheal.predecessor with hp | ⟨hp₀, hp⟩
  · -- a predecessor other than the leaving member stays
    obtain ⟨hr, hf⟩ := hc.predecessor n₀ hn₀m hin₀
    have hr' : c.InRing n.ring.predecessor :=
      (h.inRing_iff hc hi hin hL').2 ⟨by rw [hp]; exact hr, (h.unlinked hq hn hinn).1⟩
    have hme : n.self.id ∈ c.ringIds := InRing.id_mem ⟨n, hn, rfl, hinn⟩
    refine ⟨hr', ?_⟩
    rw [hheal.self] at hme ⊢
    rw [hp]
    exact hf.mono (fun m hm => (hsub m hm).1) hme
  · -- the leaving member's successor now has its predecessor before it
    have hS := hc.eq_successor_of_predecessor hi hin hn₀m hin₀ hp₀
    obtain ⟨hS', hP'⟩ := h.neighbours_inRing hc hi hin hL' h2
    rw [hp, hheal.self, hS]
    exact ⟨hP', (hc.predecessor L hL hin).2.bridge (hc.successor L hL hin).2 hsub hS'.id_mem⟩

include h2 in
theorem correct (h : Departing c₀ i L L' c) (hq : c.queue.toList = []) : c.Correct where
  nodup := by
    unfold ringIds
    rw [h.ringMembers_eq hc hi hin hL']
    exact (List.filter_sublist.map _).nodup hc.nodup
  addressed n hn := by
    obtain ⟨j, hj⟩ := Array.mem_iff_getElem?.1 hn
    obtain ⟨n₀, hn₀⟩ := h.exists_old hj
    rw [h.selves_eq hj hn₀]
    exact hc.addressed n₀ (Array.mem_of_getElem? hn₀)
  wired n hn hinn := by
    obtain ⟨⟨n₀, hn₀, hs, hin₀⟩, -⟩ := (h.inRing_iff hc hi hin hL').1 ⟨n, hn, rfl, hinn⟩
    rw [← hs]
    exact hc.wired n₀ hn₀ hin₀
  handler _ _ hj hinn := (h.handler hc hL' hj hinn).2
  successor _ hn hinn := h.successor_follows hc hi hin hL' h2 hq hn hinn
  predecessor _ hn hinn := h.predecessor_follows hc hi hin hL' h2 hq hn hinn

include h2 in
theorem placed (hplaced : c₀.Placed) (h : Departing c₀ i L L' c)
    (hL'e : L'.search.store.map.entries = []) : c.Placed := by
  intro n hn e he
  obtain ⟨j, hj⟩ := Array.mem_iff_getElem?.1 hn
  by_cases hji : j = i
  · subst hji
    rw [h.leaver] at hj
    obtain rfl := Option.some.inj hj
    rw [hL'e] at he
    cases he
  obtain ⟨n₀, hn₀⟩ := h.exists_old hj
  have hheal := h.healed hji hn₀ hj
  have hn₀m := Array.mem_of_getElem? hn₀
  have hsub : ∀ m ∈ c.ringIds, m ∈ c₀.ringIds ∧ m ≠ L.self.id :=
    fun m hm => (h.mem_ringIds hc hi hin hL').1 hm
  rcases hheal.store with ⟨hS, hin₀⟩ | hst
  · -- the successor: every key it holds, its own or the leaving member's, is its own now
    have hf := hc.firstFrom_bypass hi hin hplaced h2 hn₀m hS
      (hheal.terms_sound e.1 (List.mem_map.2 ⟨e, he, rfl⟩))
    have hS' := (h.neighbours_inRing hc hi hin hL' h2).1
    rw [hheal.inRing, hheal.self, hS]
    exact ⟨hin₀, hf.mono (fun m hm => List.mem_filter.2 ⟨(hsub m hm).1, by simpa using (hsub m hm).2⟩)
      hS'.id_mem⟩
  · rw [hst] at he
    obtain ⟨hin₀, hf⟩ := hplaced n₀ hn₀m e he
    have hme : n.self.id ∈ c.ringIds := InRing.id_mem ⟨n, hn, rfl, hheal.inRing.trans hin₀⟩
    refine ⟨hheal.inRing.trans hin₀, ?_⟩
    rw [hheal.self] at hme ⊢
    exact hf.mono (fun m hm => (hsub m hm).1) hme

theorem predecessor_joined (h : Departing c₀ i L L' c) (hq : c.queue.toList = []) {n : Node}
    (hn : n ∈ c.members) (hinn : n.ring.inRing = true) (hP : n.self = L.ring.predecessor) :
    n.ring.successor = L.ring.successor := by
  obtain ⟨j, n₀, -, -, hn₀, hheal, hin₀⟩ := h.old_of_inRing hc hL' hn hinn
  rcases hheal.successor with hs | ⟨-, hs⟩
  · -- its old successor was the leaving member, which no member points at any more
    have hs₀ := hc.successor_eq_self hi hin (Array.mem_of_getElem? hn₀) hin₀
      (hheal.self.symm.trans hP)
    exact absurd (hs.trans hs₀) (h.unlinked hq hn hinn).2
  · exact hs

theorem successor_joined (h : Departing c₀ i L L' c) (hq : c.queue.toList = []) {n : Node}
    (hn : n ∈ c.members) (hinn : n.ring.inRing = true) (hS : n.self = L.ring.successor) :
    n.ring.predecessor = L.ring.predecessor := by
  obtain ⟨j, n₀, -, -, hn₀, hheal, hin₀⟩ := h.old_of_inRing hc hL' hn hinn
  rcases hheal.predecessor with hp | ⟨-, hp⟩
  · -- its old predecessor was the leaving member, which no member points at any more
    have hp₀ := hc.predecessor_eq_self hi hin (Array.mem_of_getElem? hn₀) hin₀
      (hheal.self.symm.trans hS)
    exact absurd (hp.trans hp₀) (h.unlinked hq hn hinn).1
  · exact hp

omit hL' in
include h2 in
theorem kept (hplaced : c₀.Placed) (h : Departing c₀ i L L' c) (hq : c.queue.toList = [])
    {n₀ : Node} (hn₀ : n₀ ∈ c₀.members) {t x : Bytes} (hx : n₀.search.store.map.Holds t x) :
    ∃ n ∈ c.members, n.ring.inRing = true ∧ n.search.store.map.Holds t x := by
  obtain ⟨j, hj₀⟩ := Array.mem_iff_getElem?.1 hn₀
  by_cases hji : j = i
  · -- the leaving member's pair is at its successor
    rw [hji, hi] at hj₀
    obtain rfl := Option.some.inj hj₀
    obtain ⟨s, S₀, hS₀, hself, hinS, -, hsi⟩ :=
      hc.handler_of_ne hi (hc.successor_inRing hi hin) (hc.successor_ne hi hin h2)
    obtain ⟨n, hn, hheal⟩ := h.others s S₀ hsi hS₀
    exact ⟨n, Array.mem_of_getElem? hn, hheal.inRing.trans hinS,
      (h.successor_holds hq hsi hS₀ hn hself hinS t x).2 (.inr hx)⟩
  · -- any other pair stays where it was, with a member in the ring
    obtain ⟨n, hn, hheal⟩ := h.others j n₀ hji hj₀
    have hin₀ : n₀.ring.inRing = true := by
      obtain ⟨d, hd, -⟩ := hx
      exact (hplaced n₀ hn₀ _ hd).1
    exact ⟨n, Array.mem_of_getElem? hn, hheal.inRing.trans hin₀, hheal.kept t x hx⟩

end Departing

/-- A member leaves a correct ring of two or more, with every stored entry placed with its
owner: it hands each entry of its store to its successor, tells its successor and its
predecessor, and every datagram it sends can be delivered. Once they all are, the member is out
of the ring with nothing stored; the ring is the old one without it and correct, with its
successor and predecessor next to each other; the successor holds its own entries and the
leaving member's, each other member its own; every entry is still placed with its owner, and no
pair held before is lost. -/
theorem leave_hands_over {c₀ : Cluster} {K : Corpus} (hc : c₀.Correct) (hplaced : c₀.Placed)
    (hw : c₀.MembersOnWire) (hcut : ∀ n ∈ c₀.members, n.ring.inRing = true → n.self.addr ∉ c₀.cut)
    (hq : c₀.queue.toList = []) (hK : ∀ n ∈ c₀.members, n.search.store.map.Tidy K)
    (h2 : 2 ≤ c₀.ringMembers.length) {i : Nat} {L : Node} (hi : c₀.members[i]? = some L)
    (hin : L.ring.inRing = true) :
    (∃ c, Delivering (c₀.turn i Ring.leave).2 c ∧ c.queue.toList = []) ∧
    ∀ c, Delivering (c₀.turn i Ring.leave).2 c → c.queue.toList = [] →
      (∃ n, c.members[i]? = some n ∧ n.self = L.self ∧
        n.ring = { L.ring with
          inRing := false, joining := false, successor := NodeRef.unset,
          predecessor := NodeRef.unset, fingers := #[], pings := L.ring.pings.clear } ∧
        n.search.store = Store.empty) ∧
      c.Correct ∧ c.ringMembers = c₀.ringMembers.erase L.self ∧
      (∀ n ∈ c.members, n.ring.inRing = true → n.self = L.ring.predecessor →
        n.ring.successor = L.ring.successor) ∧
      (∀ n ∈ c.members, n.ring.inRing = true → n.self = L.ring.successor →
        n.ring.predecessor = L.ring.predecessor) ∧
      (∀ j n₀ n, j ≠ i → c₀.members[j]? = some n₀ → c.members[j]? = some n →
        n₀.self = L.ring.successor → n₀.ring.inRing = true →
        (∀ t, t ∈ n.search.store.terms ↔
          t ∈ n₀.search.store.terms ∨ t ∈ L.search.store.terms) ∧
        ∀ t, n.search.store.postings t =
          (n₀.search.store.postings t).union (L.search.store.postings t)) ∧
      (∀ j n₀ n, j ≠ i → c₀.members[j]? = some n₀ → c.members[j]? = some n →
        (n₀.self = L.ring.successor → n₀.ring.inRing = false) →
        n.search.store = n₀.search.store) ∧
      c.Placed ∧
      ∀ n₀ ∈ c₀.members, ∀ t x, n₀.search.store.map.Holds t x →
        ∃ n ∈ c.members, n.ring.inRing = true ∧ n.search.store.map.Holds t x := by
  have hL := Array.mem_of_getElem? hi
  have h2' : 2 ≤ c₀.ringIds.length := by simpa [ringIds] using h2
  have htidy := hK L hL
  have hset : L.ring.successor.isUnset = false := by
    simp [NodeRef.isUnset, (hw.of_inRing (hc.successor_inRing hi hin)).isSet]
  obtain ⟨hself, hring, hstore⟩ :=
    leave_node (t := c₀.startTurn L) hin (hc.successor_ne hi hin h2') hset
  have hL' : (Ring.leave.run (c₀.startTurn L)).2.node.ring.inRing = false := by rw [hring]
  have hstart := Departing.start hc hi hin h2' hw htidy.2.fits hq
  refine ⟨hstart.drains hc hi hin h2' hw hL' hcut htidy.2 hplaced, fun c hrun hq' => ?_⟩
  have h := hstart.delivering hc hi hin h2' hw hL' hcut htidy.2 hplaced hrun
  have hnd : c₀.ringMembers.Nodup := List.Nodup.of_map NodeRef.id hc.nodup
  refine ⟨⟨_, h.leaver, hself, hring, hstore⟩, h.correct hc hi hin hL' h2' hq', ?_,
    fun n hn hinn hP => h.predecessor_joined hc hi hin hL' hq' hn hinn hP,
    fun n hn hinn hS => h.successor_joined hc hi hin hL' hq' hn hinn hS,
    fun j n₀ n hji hn₀ hn hS hin₀ => ⟨h.successor_terms hq' hji hn₀ hn hS hin₀,
      h.successor_postings hq' hji hn₀ hn hS hin₀ (hK n₀ (Array.mem_of_getElem? hn₀)).1 htidy.1⟩,
    fun j n₀ n hji hn₀ hn hnS => ?_,
    h.placed hc hi hin hL' h2' hplaced (by rw [hstore]; rfl),
    fun n₀ hn₀ t x hx => h.kept hc hi hin h2' hplaced hq' hn₀ hx⟩
  · rw [h.ringMembers_eq hc hi hin hL', hnd.erase_eq_filter]
  · -- a member other than the successor keeps its store as it was
    refine (h.healed hji hn₀ hn).store.resolve_left fun hSin => ?_
    rw [hnS hSin.1] at hSin
    cases hSin.2

/-! ### Two members, one of them holding a term -/

/-- Node 1 of the pair, storing `doc1` under `apple`, a term it owns. -/
def holdingOne : Node :=
  { pairedWith refOne refTwo with search := { store := ⟨appleIndex.map⟩ } }

/-- Nodes 1 and 2, each the other's neighbour on both sides, node 1 storing `apple`. -/
def handingPair : Cluster := { stillPair with members := #[holdingOne, pairedWith refTwo refOne] }

theorem mem_handingPair {n : Node} (hn : n ∈ handingPair.members) :
    n = holdingOne ∨ n = pairedWith refTwo refOne := by
  simpa [handingPair] using hn

theorem handingPair_correct : handingPair.Correct :=
  stillPair_correct.of_sameLinks ⟨by simp [handingPair, stillPair, holdingOne, Node.links], rfl, rfl⟩

theorem handingPair_placed : handingPair.Placed := by
  intro n hn e he
  rcases mem_handingPair hn with rfl | rfl
  · simp only [holdingOne, appleIndex, List.mem_singleton] at he
    subst he
    refine ⟨rfl, ?_⟩
    unfold Ring.FirstFrom
    decide +kernel
  · simp [pairedWith, Store.empty, TermMap.empty] at he

theorem handingPair_membersOnWire : handingPair.MembersOnWire := by
  intro p hp _
  simp only [peers, handingPair, List.map_cons, List.map_nil, List.mem_cons, List.not_mem_nil,
    or_false] at hp
  rcases hp with rfl | rfl
  · exact ⟨[10, 0, 0, 1], rfl, rfl, by decide⟩
  · exact ⟨[10, 0, 0, 2], rfl, rfl, by decide⟩

theorem handingPair_tidy : ∀ n ∈ handingPair.members, n.search.store.map.Tidy doc1Corpus := by
  intro n hn
  rcases mem_handingPair hn with rfl | rfl
  · exact ⟨List.pairwise_singleton _ _, by decide⟩
  · exact TermMap.tidy_empty

/-- Node 1 leaves the pair: node 2 is left alone in the ring, its own neighbour on both sides,
and holds `apple`. -/
theorem handingPair_hands_over :
    handingPair.Correct ∧ handingPair.Placed ∧ handingPair.MembersOnWire ∧
    (∀ n ∈ handingPair.members, n.ring.inRing = true → n.self.addr ∉ handingPair.cut) ∧
    handingPair.queue.toList = [] ∧
    (∀ n ∈ handingPair.members, n.search.store.map.Tidy doc1Corpus) ∧
    2 ≤ handingPair.ringMembers.length ∧ handingPair.members[0]? = some holdingOne ∧
    holdingOne.ring.inRing = true ∧
    (∃ c, Delivering (handingPair.turn 0 Ring.leave).2 c ∧ c.queue.toList = []) ∧
    ∀ c, Delivering (handingPair.turn 0 Ring.leave).2 c → c.queue.toList = [] →
      (∃ n, c.members[0]? = some n ∧ n.self = holdingOne.self ∧
        n.ring = { holdingOne.ring with
          inRing := false, joining := false, successor := NodeRef.unset,
          predecessor := NodeRef.unset, fingers := #[], pings := holdingOne.ring.pings.clear } ∧
        n.search.store = Store.empty) ∧
      c.Correct ∧ c.ringMembers = handingPair.ringMembers.erase holdingOne.self ∧
      (∀ n ∈ c.members, n.ring.inRing = true → n.self = holdingOne.ring.predecessor →
        n.ring.successor = holdingOne.ring.successor) ∧
      (∀ n ∈ c.members, n.ring.inRing = true → n.self = holdingOne.ring.successor →
        n.ring.predecessor = holdingOne.ring.predecessor) ∧
      (∀ j n₀ n, j ≠ 0 → handingPair.members[j]? = some n₀ → c.members[j]? = some n →
        n₀.self = holdingOne.ring.successor → n₀.ring.inRing = true →
        (∀ t, t ∈ n.search.store.terms ↔
          t ∈ n₀.search.store.terms ∨ t ∈ holdingOne.search.store.terms) ∧
        ∀ t, n.search.store.postings t =
          (n₀.search.store.postings t).union (holdingOne.search.store.postings t)) ∧
      (∀ j n₀ n, j ≠ 0 → handingPair.members[j]? = some n₀ → c.members[j]? = some n →
        (n₀.self = holdingOne.ring.successor → n₀.ring.inRing = false) →
        n.search.store = n₀.search.store) ∧
      c.Placed ∧
      ∀ n₀ ∈ handingPair.members, ∀ t x, n₀.search.store.map.Holds t x →
        ∃ n ∈ c.members, n.ring.inRing = true ∧ n.search.store.map.Holds t x := by
  have hcut : ∀ n ∈ handingPair.members, n.ring.inRing = true → n.self.addr ∉ handingPair.cut :=
    fun _ _ _ => List.not_mem_nil
  have h2 : 2 ≤ handingPair.ringMembers.length := by decide
  exact ⟨handingPair_correct, handingPair_placed, handingPair_membersOnWire, hcut, rfl,
    handingPair_tidy, h2, rfl, rfl,
    leave_hands_over handingPair_correct handingPair_placed handingPair_membersOnWire hcut rfl
      handingPair_tidy h2 rfl rfl⟩

end Cluster

end ChordSearch
