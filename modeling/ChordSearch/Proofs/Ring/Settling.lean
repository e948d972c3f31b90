import ChordSearch.Proofs.Ring.Joining

/-! # Stabilize ticks settle the joiner into the ring

A tick of a ring member sends a stabilize request to its successor and repairs its table,
asking at most one lookup for a later entry. The successor answers with its predecessor, and
the member takes the answer as successor when it lies between them. Through the phases of
`Arrival.Spliced`, only three such exchanges change the ring: the joiner's request in phase 0,
which `succ` adopts, handing over the terms of `(pred, joiner]` one store request each;
`pred`'s answer in phase 1, which names the joiner; and `pred`'s request in phase 2, which the
joiner adopts, with nothing to hand on. Every other exchange leaves the ring as it is.

* `Node.Agrees`, `Arrival.Stands`: a member as the phase describes it, whatever its counters and
  the owners in its table.
* `Arrival.Setting.succ_adopts`, `succ_keeps_joiner`, `joiner_adopts`, `Arrival.Stands.answers`:
  who adopts whom, and what each answer names.
* `Arrival.Ticks`: a tick in flight, with its exchange, its lookup and the store requests on
  their way; `Arrival.Ticks.deliverAt` delivers any queued datagram, keeps it and lowers
  `Arrival.tickWeight`.
* `Arrival.tick_advances`: a tick on a quiet cluster, then every datagram it causes delivered in
  any order, moves the cluster to the phase `Arrival.advance` gives.
-/

namespace ChordSearch

open NodeM

/-! ### What the entry looks at -/

/-- Node `n'` agrees with `n` in all that the entry looks at: its place in the ring and its
neighbours, its store, and where the entries of its table sit. -/
structure Node.Agrees (n' n : Node) : Prop where
  links : n'.links = n.links
  store : n'.search.store = n.search.store
  places : n'.ring.fingers.map Finger.place = n.ring.fingers.map Finger.place

namespace Node.Agrees

theorem refl (n : Node) : n.Agrees n := ⟨rfl, rfl, rfl⟩

theorem trans {n'' n' n : Node} (h₁ : n''.Agrees n') (h₂ : n'.Agrees n) : n''.Agrees n :=
  ⟨h₁.links.trans h₂.links, h₁.store.trans h₂.store, h₁.places.trans h₂.places⟩

theorem of_uncounted {n' n : Node} (h : n'.uncounted = n.uncounted) : n'.Agrees n := by
  obtain ⟨hself, hring, hsearch, -⟩ := Node.eq_of_uncounted h
  exact ⟨Node.links_eq.2 ⟨hself, by rw [hring], by rw [hring], by rw [hring]⟩, by rw [hsearch],
    by rw [hring]⟩

variable {n' n : Node} (ha : n'.Agrees n)
include ha

theorem self_eq : n'.self = n.self := (Node.links_eq.1 ha.links).1

theorem inRing_eq : n'.ring.inRing = n.ring.inRing := (Node.links_eq.1 ha.links).2.1

theorem successor_eq : n'.ring.successor = n.ring.successor := (Node.links_eq.1 ha.links).2.2.1

theorem predecessor_eq : n'.ring.predecessor = n.ring.predecessor :=
  (Node.links_eq.1 ha.links).2.2.2

theorem size_eq : n'.ring.fingers.size = n.ring.fingers.size := by
  simpa using congrArg Array.size ha.places

theorem shaped (h : n.Shaped) : n'.Shaped := by
  unfold Node.Shaped
  rw [ha.self_eq]
  exact Membership.Shaped.of_places h ha.places ha.inRing_eq

end Node.Agrees

namespace Arrival

variable {E : Arrival} {c₀ : Cluster} {ph ph' j : Nat} {n₀ n n' : Node}
  {R R' : List ((Bytes × DocSet) × UInt32)}

theorem Member.of_agrees (h : E.Member ph j n₀ n) (ha : n'.Agrees n) : E.Member ph j n₀ n' := by
  obtain ⟨hself, hin, hsucc, hpred⟩ := Node.links_eq.1 ha.links
  exact ⟨hself.trans h.self, hin.trans h.inRing, hsucc.trans h.successor,
    hpred.trans h.predecessor, ha.store.trans h.store, ha.places.trans h.places⟩

theorem Joiner.of_agrees (h : E.Joiner ph R n) (ha : n'.Agrees n) : E.Joiner ph R n' :=
  ⟨ha.self_eq.trans h.self, ha.inRing_eq.trans h.inRing, ha.successor_eq.trans h.successor,
    ha.predecessor_eq.trans h.predecessor, ha.store ▸ h.ascending, by rw [ha.store]; exact h.store,
    ha.shaped h.shaped, ha.size_eq.trans h.complete⟩

/-- A member is described alike in two phases on the same side of the phase where `pred`
takes the joiner as successor, when it is `pred`, and of the phase where `succ` takes it as
predecessor, when it is `succ`. -/
theorem Member.rephase (h : E.Member ph j n₀ n) (hp : j = E.p → (2 ≤ ph ↔ 2 ≤ ph'))
    (hs : j = E.s → (1 ≤ ph ↔ 1 ≤ ph')) : E.Member ph' j n₀ n := by
  refine ⟨h.self, h.inRing, ?_, ?_, ?_, h.places⟩
  · rw [h.successor, successorAt, successorAt]
    by_cases hj : j = E.p
    · simp [hj, hp hj]
    · simp [hj]
  · rw [h.predecessor, predecessorAt, predecessorAt]
    by_cases hj : j = E.s
    · simp [hj, hs hj]
    · simp [hj]
  · rw [h.store, storeAt, storeAt]
    by_cases hj : j = E.s
    · simp [hj, hs hj]
    · simp [hj]

theorem Joiner.rephase (h : E.Joiner ph R n) (h₁ : 1 ≤ ph ↔ 1 ≤ ph') (h₃ : 3 ≤ ph ↔ 3 ≤ ph') :
    E.Joiner ph' R n := by
  refine ⟨h.self, h.inRing, h.successor, ?_, h.ascending, ?_, h.shaped, h.complete⟩
  · rw [h.predecessor, joinerPredecessor, joinerPredecessor]
    simp only [h₃]
  · have hst := h.store
    rwa [handedAt, if_congr h₁ rfl rfl, ← handedAt] at hst

theorem Joiner.empty (h : E.Joiner 0 R n) : n.search.store.map.entries = [] ∧ R = [] := by
  have hst := h.store
  rw [handedAt, if_neg (by omega)] at hst
  obtain ⟨hn, hR⟩ := List.append_eq_nil_iff.1 hst.eq_nil
  exact ⟨hn, List.map_eq_nil_iff.1 hR⟩

theorem Joiner.hand (h : E.Joiner 0 R n) (hR : R'.map Prod.fst = E.split.2.entries) :
    E.Joiner 1 R' n := by
  refine ⟨h.self, h.inRing, h.successor, ?_, h.ascending, ?_, h.shaped, h.complete⟩
  · rw [h.predecessor, joinerPredecessor, joinerPredecessor]
    simp
  · rw [h.empty.1, List.nil_append, hR, handedAt, if_pos le_rfl]

/-- Member `j` of the cluster is `n` in phase `ph`, with the store requests `R` on their way
to the joiner: the joiner as `Joiner` says, or a member of `c₀` as `Member` says. -/
def Stands (E : Arrival) (c₀ : Cluster) (ph : Nat) (R : List ((Bytes × DocSet) × UInt32))
    (j : Nat) (n : Node) : Prop :=
  (j = E.x ∧ E.Joiner ph R n) ∨ (j ≠ E.x ∧ ∃ n₀, c₀.members[j]? = some n₀ ∧ E.Member ph j n₀ n)

theorem Stands.of_agrees (h : E.Stands c₀ ph R j n) (ha : n'.Agrees n) :
    E.Stands c₀ ph R j n' := by
  rcases h with ⟨hjx, hJ⟩ | ⟨hjx, n₀, hn₀, hM⟩
  · exact .inl ⟨hjx, hJ.of_agrees ha⟩
  · exact .inr ⟨hjx, n₀, hn₀, hM.of_agrees ha⟩

theorem Stands.joiner (h : E.Stands c₀ ph R E.x n) : E.Joiner ph R n := by
  rcases h with ⟨-, hJ⟩ | ⟨hjx, -⟩
  · exact hJ
  · exact absurd rfl hjx

theorem Stands.member (h : E.Stands c₀ ph R j n) (hjx : j ≠ E.x) (hj : c₀.members[j]? = some n₀) :
    E.Member ph j n₀ n := by
  rcases h with ⟨hjx', -⟩ | ⟨-, n₁, hn₁, hM⟩
  · exact absurd hjx' hjx
  · rw [hj] at hn₁
    rw [Option.some.inj hn₁]
    exact hM

namespace Spliced

variable {c c' : Cluster}

theorem stands (h : E.Spliced c₀ ph R c) (hj : c.members[j]? = some n) : E.Stands c₀ ph R j n := by
  by_cases hjx : j = E.x
  · subst hjx
    exact .inl ⟨rfl, h.joiner_of hj⟩
  · exact .inr ⟨hjx, h.member_of hjx hj⟩

theorem update (h : E.Spliced c₀ ph R c) {n' : Node}
    (hmem : c'.members = c.members.modify j fun _ => n') (hend : c'.endpoints = c.endpoints)
    (hcut : c'.cut = c.cut) (hnew : E.Stands c₀ ph' R' j n')
    (hrest : ∀ j' n, j' ≠ j → c.members[j']? = some n → E.Stands c₀ ph R j' n →
      E.Stands c₀ ph' R' j' n) :
    E.Spliced c₀ ph' R' c' where
  size := by rw [hmem, Array.size_modify, h.size]
  endpoints := hend.trans h.endpoints
  cut := hcut.trans h.cut
  member j' n₀ hj'x hj' := by
    rw [hmem, Array.getElem?_modify]
    split
    · next hjj =>
      subst hjj
      obtain ⟨n, hn, -⟩ := h.member j n₀ hj'x hj'
      exact ⟨n', by rw [hn]; rfl, hnew.member hj'x hj'⟩
    · next hjj =>
      obtain ⟨n, hn, hM⟩ := h.member j' n₀ hj'x hj'
      exact ⟨n, hn, (hrest j' n (Ne.symm hjj) hn (.inr ⟨hj'x, n₀, hj', hM⟩)).member hj'x hj'⟩
  joiner := by
    obtain ⟨n, hn, hJ⟩ := h.joiner
    rw [hmem, Array.getElem?_modify]
    split
    · next hjx =>
      subst hjx
      exact ⟨n', by rw [hn]; rfl, hnew.joiner⟩
    · next hjx =>
      exact ⟨n, hn, (hrest E.x n (Ne.symm hjx) hn (.inl ⟨rfl, hJ⟩)).joiner⟩

theorem replace (h : E.Spliced c₀ ph R c) {n' : Node} (hj : c.members[j]? = some n)
    (ha : n'.Agrees n) (hmem : c'.members = c.members.modify j fun _ => n')
    (hend : c'.endpoints = c.endpoints) (hcut : c'.cut = c.cut) : E.Spliced c₀ ph R c' :=
  h.update hmem hend hcut ((h.stands hj).of_agrees ha) fun _ _ _ _ hs => hs

end Spliced

end Arrival

/-! ### The ring with the joiner, and who adopts whom -/

namespace Arrival

variable (E : Arrival)

/-- The positions of the ring of `c₀` with the joiner let in. -/
def ringIds (c₀ : Cluster) : List RingId := E.joiner.self.id :: c₀.ringIds

/-- A node of the ring of `c₀` with the joiner let in. -/
def RingMember (c₀ : Cluster) (r : NodeRef) : Prop := c₀.InRing r ∨ r = E.joiner.self

/-- The phase once the stabilize request of member `i`'s tick, begun in phase `ph`, has been
handled: `succ` takes the joiner as predecessor on the joiner's tick in phase 0, and the
joiner takes `pred` on `pred`'s tick in phase 2. -/
def adopted (ph i : Nat) : Nat :=
  if i = E.x ∧ ph = 0 then 1 else if i = E.p ∧ ph = 2 then 3 else ph

/-- The phase after member `i`'s tick begun in phase `ph`: in phase 1, `pred` also hears of
the joiner from `succ` and takes it as successor. -/
def advance (ph i : Nat) : Nat :=
  if i = E.p ∧ ph = 1 then 2 else E.adopted ph i

/-- The phase at each stage of the exchange of member `i`'s tick begun in phase `ph`. -/
def phaseAt (ph i : Nat) : Exchange → Nat
  | .request => ph
  | .answer => E.adopted ph i
  | .ended => E.advance ph i

/-- The predecessor that the successor of member `i`, which was `m`, names in its answer on a
tick begun in phase `ph`: the joiner when `pred` asks in phase 1, and `m` itself otherwise. -/
def answerAt (ph i : Nat) (m : Node) : NodeRef :=
  if i = E.p ∧ ph = 1 then E.joiner.self else m.self

/-- The datagram in flight of the exchange of the tick of member `i`, which was `m`, begun in
phase `ph`, under the id the tick drew. -/
def exchangeDatagram (ph i : Nat) (m : Node) : Exchange → Option Datagram
  | .request => some ⟨m.self.addr, m.ring.successor.addr,
      Message.bytes ⟨m.lastTx + 1, .stabilizeReq m.self⟩⟩
  | .answer => some ⟨m.ring.successor.addr, m.self.addr,
      Message.bytes ⟨m.lastTx + 1, .stabilizeRsp (E.answerAt ph i m)⟩⟩
  | .ended => none

/-- The store request from `succ` handing the joiner entry `q.1` under id `q.2`. -/
def storeDatagram (q : (Bytes × DocSet) × UInt32) : Datagram :=
  ⟨E.succ.self.addr, E.joiner.self.addr, Message.bytes ⟨q.2, .storeReq q.1.1 q.1.2.toList⟩⟩

/-- Deliveries left of a tick's exchange, at most: the request may cost a store request for
every entry `succ` hands the joiner. -/
def exchangeWeight : Exchange → Nat
  | .request => E.split.2.entries.length + 2
  | .answer => 1
  | .ended => 0

variable {E} {c₀ : Cluster} {K : Corpus}

theorem RingMember.id_mem {r : NodeRef} (h : E.RingMember c₀ r) : r.id ∈ E.ringIds c₀ := by
  rcases h with hr | rfl
  · exact List.mem_cons_of_mem _ hr.id_mem
  · exact List.mem_cons_self

theorem ringIds_sub : ∀ m ∈ E.ringIds c₀, m ∈ c₀.ringIds ∨ m = E.joiner.self.id := by
  intro m hm
  rcases List.mem_cons.1 hm with rfl | hm
  · exact .inr rfl
  · exact .inl hm

theorem storeRequests_of_sent {sent : List (Address × Bytes)} {es : List (Bytes × DocSet)}
    (h : List.Forall₂ (fun (d : Address × Bytes) (e : Bytes × DocSet) =>
      ∃ tx, d = (E.joiner.self.addr, (⟨tx, .storeReq e.1 e.2.toList⟩ : Message).bytes)) sent es) :
    ∃ R : List ((Bytes × DocSet) × UInt32), R.map Prod.fst = es ∧
      sent.map (fun p => (⟨E.succ.self.addr, p.1, p.2⟩ : Datagram)) = R.map E.storeDatagram := by
  induction h with
  | nil => exact ⟨[], rfl, rfl⟩
  | @cons d e _ _ hde _ ih =>
    obtain ⟨tx, rfl⟩ := hde
    obtain ⟨R, hR, hsent⟩ := ih
    exact ⟨(e, tx) :: R, by simp [hR], by simp [hsent, storeDatagram]⟩

namespace Setting

variable (hs : E.Setting c₀ K)
include hs

theorem onWire {r : NodeRef} (h : E.RingMember c₀ r) : r.OnWire := by
  rcases h with hr | rfl
  · exact hs.wire.of_inRing hr
  · exact hs.joinerWire

theorem uncut_of {r : NodeRef} (h : E.RingMember c₀ r) : r.addr ∉ c₀.cut := by
  rcases h with ⟨n₀, hn₀, rfl, hin₀⟩ | rfl
  · exact hs.uncut n₀ hn₀ hin₀
  · exact hs.joinerUncut

theorem ne_x {j : Nat} {n₀ : Node} (hj : c₀.members[j]? = some n₀) (hin₀ : n₀.ring.inRing = true) :
    j ≠ E.x := fun e => by
  rw [e, hs.joiner] at hj
  rw [← Option.some.inj hj, hs.outside] at hin₀
  exact Bool.false_ne_true hin₀

theorem joiner_ne {r : NodeRef} (hr : c₀.InRing r) : E.joiner.self ≠ r :=
  fun e => hs.fresh (e ▸ hr.id_mem)

theorem pred_follows : Ring.Follows (E.ringIds c₀) E.pred.self.id E.joiner.self.id :=
  hs.follows.splice_left ringIds_sub hs.inside List.mem_cons_self

theorem joiner_follows : Ring.Follows (E.ringIds c₀) E.joiner.self.id E.succ.self.id :=
  hs.follows.splice_right ringIds_sub hs.inside
    (List.mem_cons_of_mem _ hs.succ_inRing.id_mem)

theorem pred_isUnset : E.pred.self.isUnset = false := by
  simp [NodeRef.isUnset, (hs.wire.of_inRing hs.pred_inRing).isSet]

theorem joiner_isUnset : E.joiner.self.isUnset = false := by
  simp [NodeRef.isUnset, hs.joinerWire.isSet]

theorem joiner_same_succ : E.joiner.self.same E.succ.self = false := by
  rw [← Bool.not_eq_true, NodeRef.same_iff]
  exact hs.joiner_ne hs.succ_inRing

theorem succ_adopts : Ring.adopts E.succ.self E.pred.self E.joiner.self = true := by
  by_cases hps : E.pred.self = E.succ.self
  · -- alone in the ring, `succ` is its own predecessor
    simp [Ring.adopts, hs.joiner_isUnset, hs.joiner_same_succ, hps]
  · have hPS : E.pred.self.same E.succ.self = false := by
      rw [← Bool.not_eq_true, NodeRef.same_iff]
      exact hps
    simp [Ring.adopts, hs.joiner_isUnset, hs.pred_isUnset, hs.joiner_same_succ, hPS, hs.inside]

theorem succ_keeps_joiner : Ring.adopts E.succ.self E.joiner.self E.pred.self = false := by
  have hin : Arc.inside E.joiner.self.id E.pred.self.id E.succ.self.id = false :=
    hs.joiner_follows.2 _ (List.mem_cons_of_mem _ hs.pred_inRing.id_mem)
  simp [Ring.adopts, hs.pred_isUnset, hs.joiner_isUnset, hs.joiner_same_succ, hin]

theorem joiner_adopts : Ring.adopts E.joiner.self E.joiner.ring.predecessor E.pred.self = true := by
  simp [Ring.adopts, hs.pred_isUnset, hs.unlinked]

theorem owns_handed {e : Bytes × DocSet} (he : e ∈ E.split.2.entries) :
    Arc.owns E.pred.self.id (RingId.hash e.1) E.joiner.self.id = true := by
  obtain ⟨hS, hown⟩ := mem_moved he
  have hfirst := (hs.placed E.succ (Array.mem_of_getElem? hs.succ) e hS).2
  have hnew := hfirst.splice_new ringIds_sub (Ring.dist_le_of_not_owns hown)
    (List.mem_cons_self (a := E.joiner.self.id))
  exact (Ring.owns_iff_firstFrom (List.mem_cons_of_mem _ hs.pred_inRing.id_mem)
    hs.pred_follows).2 hnew

end Setting

namespace Stands

variable {ph j : Nat} {n : Node} {R : List ((Bytes × DocSet) × UInt32)}

theorem ringMember (h : E.Stands c₀ ph R j n) (hin : n.ring.inRing = true) :
    E.RingMember c₀ n.self := by
  rcases h with ⟨-, hJ⟩ | ⟨-, n₀, hn₀, hM⟩
  · exact .inr hJ.self
  · rw [hM.self]
    exact .inl ⟨n₀, Array.mem_of_getElem? hn₀, rfl, hM.inRing ▸ hin⟩

variable (hs : E.Setting c₀ K)
include hs

theorem successor_ringMember (h : E.Stands c₀ ph R j n) (hin : n.ring.inRing = true) :
    E.RingMember c₀ n.ring.successor := by
  rcases h with ⟨-, hJ⟩ | ⟨-, n₀, hn₀, hM⟩
  · rw [hJ.successor]
    exact .inl hs.succ_inRing
  · rw [hM.successor, successorAt]
    split
    · exact .inr rfl
    · exact .inl (hs.correct.successor n₀ (Array.mem_of_getElem? hn₀) (hM.inRing ▸ hin)).1

theorem eq_x (h : E.Stands c₀ ph R j n) (hin : n.ring.inRing = true)
    (hself : n.self = E.joiner.self) : j = E.x := by
  rcases h with ⟨hjx, -⟩ | ⟨-, n₀, hn₀, hM⟩
  · exact hjx
  · exact absurd ⟨n₀, Array.mem_of_getElem? hn₀, rfl, hM.inRing ▸ hin⟩
      (fun hr => hs.joiner_ne hr (hself.symm.trans hM.self))

theorem eq_of_self (h : E.Stands c₀ ph R j n) (hin : n.ring.inRing = true) {j₀ : Nat} {n₀ : Node}
    (hj₀ : c₀.members[j₀]? = some n₀) (hin₀ : n₀.ring.inRing = true) (hself : n.self = n₀.self) :
    j = j₀ ∧ E.Member ph j n₀ n := by
  rcases h with ⟨rfl, hJ⟩ | ⟨-, n₁, hn₁, hM⟩
  · exact absurd ⟨n₀, Array.mem_of_getElem? hj₀, rfl, hin₀⟩
      (fun hr => hs.joiner_ne hr (hJ.self ▸ hself))
  · obtain rfl := hs.index_eq hn₁ (hM.inRing ▸ hin) hj₀ hin₀ (hM.self.symm.trans hself)
    rw [hj₀] at hn₁
    obtain rfl := Option.some.inj hn₁
    exact ⟨rfl, hM⟩

theorem complete_of_self {i : Nat} {m : Node} {R' : List ((Bytes × DocSet) × UInt32)} {ph' : Nat}
    (hm : E.Stands c₀ ph' R' i m) (hin : m.ring.inRing = true)
    (hsize : m.ring.fingers.size = idBits) (h : E.Stands c₀ ph R j n)
    (hnin : n.ring.inRing = true) (hself : n.self = m.self) : n.ring.fingers.size = idBits := by
  rcases hm with ⟨-, hJ⟩ | ⟨-, n₀, hn₀, hM⟩
  · obtain rfl := h.eq_x hs hnin (hself.trans hJ.self)
    exact h.joiner.complete
  · obtain ⟨-, hMn⟩ := h.eq_of_self hs hnin hn₀ (hM.inRing ▸ hin) (hself.trans hM.self)
    rw [← hsize]
    simpa using congrArg Array.size (hMn.places.trans hM.places.symm)

/-- The member that the request of member `i`, which was `m`, reaches in phase `ph` keeps its
predecessor, unless `succ` adopts the joiner or the joiner adopts `pred`; that predecessor is
the one the answer names. -/
theorem answers {i : Nat} {m : Node} {R' : List ((Bytes × DocSet) × UInt32)}
    (hm : E.Stands c₀ ph R' i m) (hin : m.ring.inRing = true) (hno : ¬(i = E.x ∧ ph = 0))
    (hno' : ¬(i = E.p ∧ ph = 2)) (h : E.Stands c₀ ph R j n) (hnin : n.ring.inRing = true)
    (hself : n.self = m.ring.successor) :
    n.ring.predecessor = E.answerAt ph i m ∧
      Ring.adopts n.self n.ring.predecessor m.self = false := by
  suffices hpred : n.ring.predecessor = E.answerAt ph i m ∧ (n.ring.predecessor = m.self ∨
      (n.self = E.succ.self ∧ n.ring.predecessor = E.joiner.self ∧ m.self = E.pred.self)) by
    refine ⟨hpred.1, ?_⟩
    rcases hpred.2 with hp | ⟨hS, hX, hP⟩
    · exact adopts_eq_false (.inr hp.symm)
    · rw [hS, hX, hP]
      exact hs.succ_keeps_joiner
  rcases hm with ⟨rfl, hJ⟩ | ⟨hix, n₀, hn₀, hM⟩
  · -- the joiner asks `succ`, which has it as predecessor from phase 1 on
    have hph : 1 ≤ ph := Nat.pos_of_ne_zero fun h0 => hno ⟨rfl, h0⟩
    obtain ⟨rfl, hMs⟩ := h.eq_of_self hs hnin hs.succ hs.succIn (hself.trans hJ.successor)
    have hpred : n.ring.predecessor = E.joiner.self := by
      rw [hMs.predecessor, predecessorAt, if_pos ⟨rfl, hph⟩]
    exact ⟨by rw [hpred, answerAt, if_neg fun hc => hs.x_ne_p hc.1, hJ.self],
      .inl (hpred.trans hJ.self.symm)⟩
  · have hin₀ : n₀.ring.inRing = true := hM.inRing ▸ hin
    have hmself : m.self = n₀.self := hM.self
    by_cases hp2 : i = E.p ∧ 2 ≤ ph
    · -- `pred` asks the joiner, which has it as predecessor in phase 3
      obtain ⟨rfl, h2⟩ := hp2
      have hph : 3 ≤ ph := by
        have : ph ≠ 2 := fun h' => hno' ⟨rfl, h'⟩
        omega
      rw [hs.pred] at hn₀
      obtain rfl := Option.some.inj hn₀
      have hsucc : m.ring.successor = E.joiner.self := by
        rw [hM.successor, successorAt, if_pos ⟨rfl, h2⟩]
      obtain rfl := h.eq_x hs hnin (hself.trans hsucc)
      have hpred : n.ring.predecessor = E.pred.self := by
        rw [h.joiner.predecessor, joinerPredecessor, if_pos hph]
      exact ⟨by rw [hpred, answerAt, if_neg (by omega), hmself], .inl (hpred.trans hmself.symm)⟩
    · -- any other member asks the member after it in `c₀`
      have hsucc : m.ring.successor = n₀.ring.successor := by
        rw [hM.successor, successorAt, if_neg hp2]
      obtain ⟨⟨ns, hns, hnsself, hnsin⟩, -⟩ :=
        hs.correct.successor n₀ (Array.mem_of_getElem? hn₀) hin₀
      obtain ⟨js, hjs⟩ := Array.mem_iff_getElem?.1 hns
      obtain ⟨hjj, hMs⟩ := h.eq_of_self hs hnin hjs hnsin (hself.trans (hsucc.trans hnsself.symm))
      subst hjj
      by_cases hS : j = E.s ∧ 1 ≤ ph
      · -- `succ`, asked by `pred` in phase 1, has the joiner as predecessor
        obtain ⟨rfl, h1⟩ := hS
        rw [hs.succ] at hjs
        obtain rfl := Option.some.inj hjs
        have hP : n₀.self = E.pred.self :=
          (hs.correct.eq_predecessor_of_successor hs.succ hs.succIn (Array.mem_of_getElem? hn₀)
            hin₀ hnsself.symm).trans hs.before
        have hip : i = E.p := hs.index_eq hn₀ hin₀ hs.pred hs.predIn hP
        have hph : ph = 1 := by
          have : ¬ 2 ≤ ph := fun h' => hp2 ⟨hip, h'⟩
          omega
        have hpred : n.ring.predecessor = E.joiner.self := by
          rw [hMs.predecessor, predecessorAt, if_pos ⟨rfl, h1⟩]
        exact ⟨by rw [hpred, answerAt, if_pos ⟨hip, hph⟩], .inr ⟨hMs.self, hpred, hmself.trans hP⟩⟩
      · -- the member after `n₀` has `n₀` as predecessor
        have hpred : n.ring.predecessor = n₀.self := by
          rw [hMs.predecessor, predecessorAt, if_neg hS]
          exact hs.correct.predecessor_eq_self hn₀ hin₀ hns hnsin hnsself
        refine ⟨?_, .inl (hpred.trans hmself.symm)⟩
        rw [hpred, answerAt, if_neg ?_, hmself]
        rintro ⟨rfl, rfl⟩
        rw [hs.pred] at hn₀
        obtain rfl := Option.some.inj hn₀
        exact hS ⟨hs.index_eq hjs hnsin hs.succ hs.succIn (hnsself.trans hs.pred_successor),
          le_rfl⟩

end Stands

namespace Spliced

variable {c : Cluster} {ph : Nat} {R : List ((Bytes × DocSet) × UInt32)} (hs : E.Setting c₀ K)
include hs

theorem reach (h : E.Spliced c₀ ph R c) {r : NodeRef} (hr : E.RingMember c₀ r) :
    ∃ j n, c.handlerOf r.addr = some j ∧ r.addr ∉ c.cut ∧ c.members[j]? = some n ∧
      n.self = r ∧ n.ring.inRing = true ∧ (c.startTurn n).linkOpen = true := by
  suffices ∃ j n, c.handlerOf r.addr = some j ∧ r.addr ∉ c.cut ∧ c.members[j]? = some n ∧
      n.self = r ∧ n.ring.inRing = true by
    obtain ⟨j, n, hj, hcut, hn, hself, hin⟩ := this
    exact ⟨j, n, hj, hcut, hn, hself, hin, Cluster.linkOpen_of_handlerOf (by rw [hself]; exact hj)⟩
  rw [h.handlerOf hs, h.cut]
  have hcut := hs.uncut_of hr
  rcases hr with ⟨n₀, hn₀, rfl, hin₀⟩ | rfl
  · obtain ⟨j, hj⟩ := Array.mem_iff_getElem?.1 hn₀
    obtain ⟨n, hn, hM⟩ := h.member j n₀ (hs.ne_x hj hin₀) hj
    exact ⟨j, n, hs.correct.handler j n₀ hj hin₀, hcut, hn, hM.self, hM.inRing.trans hin₀⟩
  · obtain ⟨n, hn, hJ⟩ := h.joiner
    exact ⟨E.x, n, hs.joinerHandled, hcut, hn, hJ.self, hJ.inRing⟩

theorem shaped (h : E.Spliced c₀ ph R c) {j : Nat} {n : Node} (hj : c.members[j]? = some n) :
    n.Shaped := by
  rcases h.stands hj with ⟨-, hJ⟩ | ⟨-, n₀, hn₀, hM⟩
  · exact hJ.shaped
  · unfold Node.Shaped
    rw [hM.self]
    exact Membership.Shaped.of_places (hs.shaped n₀ (Array.mem_of_getElem? hn₀)) hM.places hM.inRing

omit hs in
theorem self_ringMember (h : E.Spliced c₀ ph R c) {j : Nat} {n : Node}
    (hj : c.members[j]? = some n) (hin : n.ring.inRing = true) : E.RingMember c₀ n.self :=
  (h.stands hj).ringMember hin

theorem successor_ringMember (h : E.Spliced c₀ ph R c) {j : Nat} {n : Node}
    (hj : c.members[j]? = some n) (hin : n.ring.inRing = true) :
    E.RingMember c₀ n.ring.successor :=
  (h.stands hj).successor_ringMember hs hin

end Spliced

end Arrival

/-! ### A tick and its datagrams, handler by handler -/

namespace Turn

/-- The turn after a tick's request to the successor, under a fresh transaction id, with entry 0
of the table given the successor. -/
def stabilized (t : Turn) : Turn :=
  (t.drawTx.sent t.node.ring.successor.addr (t.node.lastTx + 1) (.stabilizeReq t.node.self)).mapRing
    fun r => { r with fingers := r.fingers.modify 0 fun f => { f with owner := r.successor } }

theorem repaired_search (t : Turn) (j : Nat) : (t.repaired j).node.search = t.node.search := by
  unfold repaired
  split <;> simp [requested]

theorem repaired_lookup {t : Turn} {j : Nat} (hshape : t.node.Shaped)
    (hsize : t.node.ring.fingers.size = idBits) (hl : t.linkOpen = true)
    (hme : t.node.self.OnWire) (hs : t.node.ring.successor.OnWire) :
    (t.repaired j).node.Agrees t.node ∧ ∃ w : Option FingerLookup,
      (∀ l ∈ w, j ≤ l.k ∧ l.k < idBits ∧
        l.leg = .asking t.node.self.addr t.node.ring.successor) ∧
      (t.repaired j).outgoing.toList.map (fun p => (⟨t.node.self.addr, p.1, p.2⟩ : Datagram)) =
        t.outgoing.toList.map (fun p => ⟨t.node.self.addr, p.1, p.2⟩) ++
          (w.bind (·.datagram t.node.self)).toList := by
  obtain ⟨fs, ask, hcarry⟩ : ∃ fs ask, Ring.carryOwners t.node.ring.fingers
      (List.range' j (idBits - j)) = (fs, ask) := ⟨_, _, rfl⟩
  have hends := repaired_ends hcarry hl hme hs
  have hplaces : fs.map Finger.place = t.node.ring.fingers.map Finger.place := by
    have hc := Finger.places_carryOwners t.node.ring.fingers (List.range' j (idBits - j))
    rwa [hcarry] at hc
  refine ⟨⟨hends.links, by rw [repaired_search], hends.fingers ▸ hplaces⟩, ?_⟩
  cases ask with
  | none =>
    refine ⟨none, fun l hl => by simp at hl, ?_⟩
    rw [hends.outgoing]
    simp
  | some f =>
    obtain ⟨k, -, hjk, -, hf, -⟩ := carryOwners_asks (idBits - j) _ j fs f hcarry
    obtain ⟨hidx, hstart⟩ := Finger.place_of_places hplaces hshape hf
    have hk : k < idBits := by
      have hsz : fs.size = idBits := by simpa [hsize] using congrArg Array.size hplaces
      have := (Array.getElem?_eq_some_iff.1 hf).1
      omega
    refine ⟨some ⟨k, t.node.lastTx + 1, .asking t.node.self.addr t.node.ring.successor⟩,
      fun l hl => ?_, ?_⟩
    · obtain rfl := Option.mem_some_iff.1 hl
      exact ⟨hjk, hk, rfl⟩
    · rw [hends.outgoing]
      simp [t.asked_datagram hidx hstart]

end Turn

theorem stabilize_run_stabilized {t : Turn} (hin : t.node.ring.inRing = true)
    (hsize : t.node.ring.fingers.size = idBits) :
    Ring.stabilize.run t = ((), t.stabilized.repaired 1) :=
  stabilize_run hin hsize

theorem fixFinger_run_incomplete (i : Nat) {t : Turn} (hsize : t.node.ring.fingers.size ≠ idBits) :
    (Ring.fixFinger i).run t = ((), t) := by
  unfold Ring.fixFinger
  simp [ring, hsize]
  rfl

theorem stabilize_run_incomplete {t : Turn} (hin : t.node.ring.inRing = true)
    (hsize : t.node.ring.fingers.size ≠ idBits) : Ring.stabilize.run t = ((), t.stabilized) := by
  unfold Ring.stabilize
  simp only [ring, self, nextTx, node, modifyNode, modifyRing, StateT.run_bind, StateT.run_get,
    StateT.run_pure, StateT.run_modify, pure_bind, hin, Bool.not_true, Bool.false_eq_true,
    ↓reduceIte, send_run]
  exact fixFinger_run_incomplete 2 (by simpa using hsize)

theorem tick_run (t : Turn) : ∃ g : Metrics → Metrics,
    Node.tick.run t = ((), (Ring.stabilize.run t).2.mapMetrics g) := by
  let n := (Ring.stabilize.run t).2.node
  exact ⟨fun m => { m with
    inRing := if n.ring.inRing then 1 else 0
    storedTerms := n.search.store.size
    fingerEntries := n.ring.fingers.size }, rfl⟩

theorem receive_stabilizeReq_keeps (src : Address) (tx : UInt32) {t : Turn} {r : NodeRef}
    (hin : t.node.ring.inRing = true)
    (ha : Ring.adopts t.node.self t.node.ring.predecessor r = false) (hr : r.OnWire)
    (hp : t.node.ring.predecessor.OnWire) (hl : t.linkOpen = true) :
    (Node.receive src (Message.bytes ⟨tx, .stabilizeReq r⟩)).Sends Node.uncounted t ()
      [(r.addr, (⟨tx, .stabilizeRsp t.node.ring.predecessor⟩ : Message).bytes)] :=
  receive_sends forgets_uncounted src (Message.decode_bytes (NodeRef.Exact.of_onWire hr))
    fun t₁ h₁ => by
    have hpeer := h₁.peer forgets_uncounted
    have hring : t₁.node.ring = t.node.ring := congrArg Peer.ring hpeer
    have hself : t₁.node.self = t.node.self := congrArg Peer.self hpeer
    refine ⟨t₁.sent r.addr tx (.stabilizeRsp t.node.ring.predecessor), ?_, ?_⟩
    · show (Ring.stabilizeRequest tx r).run t₁ = _
      rw [stabilizeRequest_run, hring, hself, hin, if_pos rfl, ha]
      simp only [Bool.false_eq_true, ↓reduceIte, hring]
    · exact Turn.sent_sent tx hr.isSet
        (show Body.Exact (.stabilizeRsp t.node.ring.predecessor) from .of_onWire hp)
        (h₁.linkOpen.trans hl)

theorem receive_stabilizeReq_adopts (src : Address) (tx : UInt32) {t : Turn} {r : NodeRef}
    (hin : t.node.ring.inRing = true)
    (ha : Ring.adopts t.node.self t.node.ring.predecessor r = true) (hr : r.OnWire) :
    ∃ g : Metrics → Metrics, (Node.receive src (Message.bytes ⟨tx, .stabilizeReq r⟩)).run t =
      ((), ((t.mapMetrics g).predecessorSet r).sent r.addr tx (.stabilizeRsp r)) := by
  let g : Metrics → Metrics := fun ms =>
    { ms with received := ms.received.bump (Body.stabilizeReq r).kind.name }
  refine ⟨g, ?_⟩
  rw [receive_eq (Message.decode_bytes (show Body.Exact (.stabilizeReq r) from .of_onWire hr)),
    StateT.run_bind]
  refine (stabilizeRequest_run tx r (t.mapMetrics g)).trans ?_
  simp [hin, ha]

theorem Store.extractNotOwned_of_owns {s : Store} {pred self : RingId}
    (h : ∀ e ∈ s.map.entries, Arc.owns pred (RingId.hash e.1) self = true) :
    s.extractNotOwned pred self = (s, ⟨[]⟩) := by
  rw [Store.extractNotOwned_eq, TermMap.partition_eq, List.filter_eq_self.2 h,
    List.filter_eq_nil_iff.2 fun e he => by simp [h e he]]

/-- A member in the ring that adopts an asker other than its predecessor keeps the entries it
still owns, sends the asker one store request for each of the others, in order, and answers
with the asker; it changes in nothing else but its predecessor and its counters. -/
theorem receive_stabilizeReq_hands (src : Address) (tx : UInt32) {t : Turn} {r : NodeRef}
    (hin : t.node.ring.inRing = true)
    (ha : Ring.adopts t.node.self t.node.ring.predecessor r = true) (hr : r.OnWire)
    (hne : t.node.ring.predecessor ≠ r) (hl : t.linkOpen = true)
    (hfit : t.node.search.store.map.Fits) :
    ∃ T, (Node.receive src (Message.bytes ⟨tx, .stabilizeReq r⟩)).run t = ((), T) ∧
      T.node.self = t.node.self ∧ T.node.ring = { t.node.ring with predecessor := r } ∧
      T.node.search.store = (t.node.search.store.extractNotOwned r.id t.node.self.id).1 ∧
      ∃ sent, T.outgoing.toList = t.outgoing.toList ++ sent ++
          [(r.addr, (⟨tx, .stabilizeRsp r⟩ : Message).bytes)] ∧
        List.Forall₂ (fun (d : Address × Bytes) (e : Bytes × DocSet) =>
          ∃ tx', d = (r.addr, (⟨tx', .storeReq e.1 e.2.toList⟩ : Message).bytes)) sent
          (t.node.search.store.extractNotOwned r.id t.node.self.id).2.entries := by
  obtain ⟨g, hrun⟩ := receive_stabilizeReq_adopts src tx hin ha hr
  refine ⟨_, hrun, ?_⟩
  have hsame : t.node.ring.predecessor.same r = false := by
    rw [← Bool.not_eq_true, NodeRef.same_iff]
    exact hne
  have hset : r.isUnset = false := by simp [NodeRef.isUnset, hr.isSet]
  have hchange : ¬((t.mapMetrics g).node.ring.predecessor.same r = true) := fun h => by
    rw [show (t.mapMetrics g).node.ring.predecessor = t.node.ring.predecessor from rfl, hsame] at h
    exact Bool.false_ne_true h
  rw [Turn.predecessorSet, if_neg hchange, Turn.handedOver_of_set hset]
  simp only [Turn.noted_node, Turn.mapRing_node, Turn.mapMetrics_node]
  have hsub : ∀ e ∈ (t.node.search.store.extractNotOwned r.id t.node.self.id).2.entries,
      e ∈ t.node.search.store.map.entries := by
    rw [Store.extractNotOwned_eq, TermMap.partition_eq]
    exact fun e he => List.mem_of_mem_filter he
  obtain ⟨sent, hsent, hfor⟩ := Turn.storesSent_outgoing r.addr (t := Turn.mapSearch
    (fun s => { s with store := (t.node.search.store.extractNotOwned r.id t.node.self.id).1 })
    ((Turn.mapRing (fun r' => { r' with predecessor := r }) (t.mapMetrics g)).noted
      .predecessorChange r.toText (Bytes.ofString ("predecessor " ++
        t.node.ring.predecessor.toText ++ " -> " ++ r.toText))))
    (by simpa using hl) fun e he => hfit e (hsub e he)
  refine ⟨by simp, by simp, by simp, sent, ?_, hfor.imp fun {d e} hde => ?_⟩
  · rw [(Turn.sent_sent tx hr.isSet (show Body.Exact (.stabilizeRsp r) from .of_onWire hr)
      (by simpa using hl)).outgoing, hsent]
    simp
  · -- each request is the written message, under the id it was sent with
    obtain ⟨hd, tx', he⟩ := hde
    exact ⟨tx', by rw [Message.bytes, he, ← hd]⟩

theorem receive_stabilizeRsp_moves (src : Address) (tx : UInt32) {t : Turn} {q : NodeRef}
    (hin : t.node.ring.inRing = true) (hq : q.OnWire) (hne : q ≠ t.node.self)
    (hinside : Arc.inside t.node.self.id q.id t.node.ring.successor.id = true) :
    ∃ g : Metrics → Metrics, (Node.receive src (Message.bytes ⟨tx, .stabilizeRsp q⟩)).run t =
      ((), (t.mapMetrics g).successorSet q) := by
  let g : Metrics → Metrics := fun ms =>
    { ms with received := ms.received.bump (Body.stabilizeRsp q).kind.name }
  refine ⟨g, ?_⟩
  rw [receive_eq (Message.decode_bytes (show Body.Exact (.stabilizeRsp q) from .of_onWire hq)),
    StateT.run_bind]
  refine (stabilizeReply_run q (t.mapMetrics g)).trans ?_
  have hqu : q.isUnset = false := by simp [NodeRef.isUnset, hq.isSet]
  have hqs : q.same t.node.self = false := by
    rw [← Bool.not_eq_true, NodeRef.same_iff]
    exact hne
  simp [hin, hqu, hqs, hinside]

namespace Turn

theorem stabilized_agrees (t : Turn) : t.stabilized.node.Agrees t.node :=
  ⟨by simp [stabilized, Node.links], by simp [stabilized],
    by simp [stabilized, Finger.places_modify]⟩

theorem stabilized_outgoing {t : Turn} (hl : t.linkOpen = true) (hme : t.node.self.OnWire)
    (hs : t.node.ring.successor.OnWire) :
    t.stabilized.outgoing.toList = t.outgoing.toList ++ [(t.node.ring.successor.addr,
      (⟨t.node.lastTx + 1, .stabilizeReq t.node.self⟩ : Message).bytes)] := by
  have hsent := Turn.sent_sent (t := t.drawTx) (t.node.lastTx + 1) hs.isSet
    (show Body.Exact (.stabilizeReq t.node.self) from .of_onWire hme) hl
  simp only [stabilized, mapRing_outgoing]
  rw [hsent.outgoing]
  rfl

theorem mapMetrics_agrees (t : Turn) (g : Metrics → Metrics) : (t.mapMetrics g).node.Agrees t.node :=
  ⟨rfl, rfl, rfl⟩

end Turn

/-! ### Entries on their way to the joiner -/

namespace TermMap

theorem addTo_perm {term : Bytes} {docs : DocSet} {l : List (Bytes × DocSet)}
    (h : term ∉ l.map Prod.fst) : (addTo term docs l).Perm ((term, docs) :: l) := by
  induction l with
  | nil => simp [addTo]
  | cons e l ih =>
    obtain ⟨t, d⟩ := e
    simp only [List.map_cons, List.mem_cons, not_or] at h
    unfold addTo
    split
    · exact .refl _
    · rw [if_neg h.1]
      exact ((ih h.2).cons _).trans (.swap _ _ _)

theorem Ascending.terms_nodup {m : TermMap} (h : m.Ascending) : (m.entries.map Prod.fst).Nodup :=
  h.imp fun hlt heq => by subst heq; simp [Bytes.lexLt_irrefl] at hlt

end TermMap

namespace Arrival

variable {E : Arrival} {c₀ : Cluster} {K : Corpus} {ph : Nat} {n : Node}
  {R : List ((Bytes × DocSet) × UInt32)}

theorem mem_handedAt {e : Bytes × DocSet} (h : e ∈ E.handedAt ph) : e ∈ E.split.2.entries := by
  unfold handedAt at h
  split at h
  · exact h
  · simp at h

theorem Setting.handed_nodup (hs : E.Setting c₀ K) : ((E.handedAt ph).map Prod.fst).Nodup := by
  unfold handedAt
  split
  · apply TermMap.Ascending.terms_nodup
    rw [split, Store.extractNotOwned_eq]
    exact ((hs.tidy E.succ (Array.mem_of_getElem? hs.succ)).1.partition
      fun t => Arc.owns E.joiner.self.id (RingId.hash t) E.succ.self.id).2
  · simp

theorem Joiner.fresh_term (hs : E.Setting c₀ K) (h : E.Joiner ph R n)
    {q : (Bytes × DocSet) × UInt32} (hq : q ∈ R) :
    q.1.1 ∉ n.search.store.map.entries.map Prod.fst := by
  have hnd := (h.store.map Prod.fst).nodup_iff.2 hs.handed_nodup
  rw [List.map_append, List.nodup_append'] at hnd
  exact fun hin => hnd.2.2 hin (List.mem_map_of_mem (List.mem_map_of_mem hq))

theorem Joiner.stored (hs : E.Setting c₀ K) (h : E.Joiner ph R n)
    {q : (Bytes × DocSet) × UInt32} (hq : q ∈ R) (ms : Metrics) :
    E.Joiner ph (R.erase q) { n with
      metrics := ms
      search := { n.search with store := n.search.store.add q.1.1 q.1.2.toList } } := by
  refine ⟨h.self, h.inRing, h.successor, h.predecessor, TermMap.ascending_addTo h.ascending, ?_,
    h.shaped, h.complete⟩
  show (TermMap.addTo q.1.1 (DocSet.ofList q.1.2.toList) n.search.store.map.entries ++
    (R.erase q).map Prod.fst).Perm (E.handedAt ph)
  rw [DocSet.ofList_toList]
  calc List.Perm _ ((q.1 :: n.search.store.map.entries) ++ (R.erase q).map Prod.fst) :=
        (TermMap.addTo_perm (h.fresh_term hs hq)).append_right _
    List.Perm _ (n.search.store.map.entries ++ (q :: R.erase q).map Prod.fst) :=
        List.perm_middle.symm
    List.Perm _ (n.search.store.map.entries ++ R.map Prod.fst) :=
        ((List.perm_cons_erase hq).map _).symm.append_left _
    List.Perm _ (E.handedAt ph) := h.store

end Arrival

/-! ### A tick in flight -/

theorem perm_delivered {α : Type} {q A B b : List α} {a : α} {k : Nat}
    (hq : q.Perm (A ++ [a] ++ B)) (hk : q[k]? = some a) : (q.eraseIdx k ++ b).Perm (A ++ b ++ B) := by
  have hmid : (A ++ [a] ++ B).Perm (a :: (A ++ B)) := by
    rw [List.append_assoc, List.singleton_append]
    exact List.perm_middle
  have hrest := List.perm_eraseIdx_of_perm_cons hk (hq.trans hmid)
  refine (hrest.append_right b).trans ?_
  rw [List.append_assoc, List.append_assoc]
  exact List.perm_append_comm.append_left A

namespace Arrival

variable (E : Arrival)

/-- What holds while the tick of member `i`, which was `m` when the tick began in phase `ph`,
is delivered, with its exchange at `ex`, its lookup `w` in flight and the store requests `R`
on their way to the joiner: the cluster is in the phase the exchange has reached; a lookup in
flight is for an entry of `m`'s complete table, and is held by, or names, a node of the ring
with the joiner, from an address off the cut; and the queue holds exactly the datagrams of
the exchange, of the lookup and of the store requests. -/
structure Ticks (c₀ : Cluster) (i : Nat) (m : Node) (ph : Nat) (ex : Exchange)
    (w : Option FingerLookup) (R : List ((Bytes × DocSet) × UInt32)) (c : Cluster) : Prop where
  spliced : E.Spliced c₀ (E.phaseAt ph i ex) R c
  lookup : ∀ l ∈ w, l.k < idBits ∧ l.leg.Carried c₀.cut (E.RingMember c₀) ∧
    m.ring.fingers.size = idBits
  queue : c.queue.toList.Perm ((E.exchangeDatagram ph i m ex).toList ++
    (w.bind (·.datagram m.self)).toList ++ R.map E.storeDatagram)

/-- Deliveries left of a tick of `m` on the ring with the joiner, at most. -/
def tickWeight (c₀ : Cluster) (m : Node) (ex : Exchange) (w : Option FingerLookup)
    (R : List ((Bytes × DocSet) × UInt32)) : Nat :=
  E.exchangeWeight ex + w.elim 0 (·.weight (E.ringIds c₀) m.self) + R.length

namespace Ticks

variable {E} {c₀ c : Cluster} {K : Corpus} {ph i : Nat} {m : Node}

/-- Right after member `i`, which was `m`, ticks in phase `ph` with nothing in flight, its
request is on its way to its successor, with a lookup for the first entry its repair could
not carry, if any. -/
theorem start (hs : E.Setting c₀ K) (h : E.Spliced c₀ ph [] c) (hq : c.queue.toList = [])
    (hi : c.members[i]? = some m) (hin : m.ring.inRing = true) :
    ∃ w, E.Ticks c₀ i m ph .request w [] (c.turn i Node.tick).2 := by
  have hme := h.self_ringMember hi hin
  have hsr := h.successor_ringMember hs hi hin
  obtain ⟨j, -, hj, hcut, -, -⟩ := h.reach hs hme
  have hl : (c.startTurn m).linkOpen = true := Cluster.linkOpen_of_handlerOf hj
  have hout := Turn.stabilized_outgoing (t := c.startTurn m) hl (hs.onWire hme) (hs.onWire hsr)
  obtain ⟨g, hrun⟩ := tick_run (c.startTurn m)
  rw [Cluster.turn_run hi, hrun]
  have hreq : (E.exchangeDatagram ph i m .request).toList =
      [⟨m.self.addr, m.ring.successor.addr, Message.bytes ⟨m.lastTx + 1, .stabilizeReq m.self⟩⟩] :=
    rfl
  have hT₂ := (c.startTurn m).stabilized_agrees
  have hstart : (c.startTurn m).node = m := rfl
  rw [hstart] at hout hT₂
  have hme₀ : m.self.addr ∉ c₀.cut := hs.uncut_of hme
  by_cases hsize : m.ring.fingers.size = idBits
  · -- a complete table is repaired from entry 1, and at most one entry is asked for
    rw [stabilize_run_stabilized hin hsize]
    obtain ⟨hag, w, hw, hwout⟩ := Turn.repaired_lookup (j := 1) (hT₂.shaped (h.shaped hs hi))
      (hT₂.size_eq.trans hsize) (by simpa [Turn.stabilized] using hl)
      (by rw [hT₂.self_eq]; exact hs.onWire hme) (by rw [hT₂.successor_eq]; exact hs.onWire hsr)
    rw [hT₂.self_eq, hT₂.successor_eq] at hw
    rw [hT₂.self_eq] at hwout
    rw [hout] at hwout
    refine ⟨w, h.replace hi ((Turn.mapMetrics_agrees _ g).trans (hag.trans hT₂)) rfl rfl rfl,
      fun l hl => ?_, ?_⟩
    · obtain ⟨-, hk, hleg⟩ := hw l hl
      rw [hleg]
      exact ⟨hk, ⟨hme₀, hsr⟩, hsize⟩
    · simp only [Cluster.afterTurn_queue, hq, Turn.mapMetrics_outgoing, List.nil_append]
      rw [hwout, hreq]
      simp [Cluster.startTurn]
  · -- a table not yet complete is not repaired, and nothing is asked
    rw [stabilize_run_incomplete hin hsize]
    refine ⟨none, h.replace hi ((Turn.mapMetrics_agrees _ g).trans hT₂) rfl rfl rfl,
      fun l hl => by simp at hl, ?_⟩
    simp only [Cluster.afterTurn_queue, hq, Turn.mapMetrics_outgoing, List.nil_append]
    rw [hout, hreq]
    simp [Cluster.startTurn]

variable (hs : E.Setting c₀ K) (hm : E.Stands c₀ ph [] i m) (hin : m.ring.inRing = true)
include hs hm hin

theorem deliver_request_kept (h : E.Ticks c₀ i m ph .request w R c) (hno : ¬(i = E.x ∧ ph = 0))
    (hno' : ¬(i = E.p ∧ ph = 2)) {k : Nat}
    (hk : c.queue.toList[k]? = some ⟨m.self.addr, m.ring.successor.addr,
      Message.bytes ⟨m.lastTx + 1, .stabilizeReq m.self⟩⟩) :
    E.Ticks c₀ i m ph .answer w R (c.deliverAt k) := by
  have hph : E.phaseAt ph i .answer = ph := by
    simp only [phaseAt, adopted]
    rw [if_neg hno, if_neg hno']
  have hsp : E.Spliced c₀ ph R c := h.spliced
  have hme := hm.ringMember hin
  have hsr := hm.successor_ringMember hs hin
  obtain ⟨j, n, hj, hdst, hn, hself, hnin, hl⟩ := hsp.reach hs hsr
  obtain ⟨-, -, -, hsrc, -, -⟩ := hsp.reach hs hme
  obtain ⟨hpred, hadopt⟩ := hm.answers hs hin hno hno' (hsp.stands hn) hnin hself
  have hq : (E.answerAt ph i m).OnWire := by
    unfold answerAt
    split
    · exact hs.joinerWire
    · exact hs.onWire hme
  have hsends := receive_stabilizeReq_keeps m.self.addr (m.lastTx + 1) (t := c.startTurn n) hnin
    hadopt (hs.onWire hme) (hpred ▸ hq) hl
  obtain ⟨m', hu', hsame, hmem, hq'⟩ := Cluster.deliverAt_sendsVia hk hsrc hdst hj hn
    (.of_sends hsends) rfl
  refine ⟨by rw [hph]; exact hsp.replace hn (.of_uncounted hu') hmem hsame.endpoints hsame.cut,
    h.lookup, ?_⟩
  have hrest := List.perm_eraseIdx_of_perm_cons hk (by simpa [exchangeDatagram] using h.queue)
  rw [hq']
  simp only [exchangeDatagram, Option.toList_some, List.map_cons, List.map_nil, List.cons_append,
    List.nil_append]
  rw [hself, show (c.startTurn n).node.ring.predecessor = E.answerAt ph i m from hpred]
  exact (hrest.append_right _).trans (List.perm_append_singleton _ _)

/-- The joiner's request in phase 0 reaches `succ`, which takes the joiner as predecessor,
keeps the entries it still owns and answers with the joiner: phase 1, with a store request on
its way for every entry handed. -/
theorem deliver_request_adopted (h : E.Ticks c₀ i m ph .request w R c) (hx : i = E.x ∧ ph = 0)
    {k : Nat} (hk : c.queue.toList[k]? = some ⟨m.self.addr, m.ring.successor.addr,
      Message.bytes ⟨m.lastTx + 1, .stabilizeReq m.self⟩⟩) :
    ∃ R', R'.length = E.split.2.entries.length ∧
      E.Ticks c₀ i m ph .answer w R' (c.deliverAt k) := by
  obtain ⟨rfl, rfl⟩ := hx
  have hsp : E.Spliced c₀ 0 R c := h.spliced
  have hJm : E.Joiner 0 [] m := hm.joiner
  obtain ⟨nx, hnx, hJx⟩ := hsp.joiner
  obtain rfl : R = [] := hJx.empty.2
  have hme := hm.ringMember hin
  have hsr := hm.successor_ringMember hs hin
  obtain ⟨j, n, hj, hdst, hn, hself, hnin, hl⟩ := hsp.reach hs hsr
  obtain ⟨-, -, -, hsrc, -, -⟩ := hsp.reach hs hme
  obtain ⟨rfl, hMs⟩ := (hsp.stands hn).eq_of_self hs hnin hs.succ hs.succIn
    (hself.trans hJm.successor)
  have hnself : n.self = E.succ.self := hMs.self
  have hpred : n.ring.predecessor = E.pred.self := by
    rw [hMs.predecessor, predecessorAt, if_neg (by omega), hs.before]
  have hstore : n.search.store = E.succ.search.store := by
    rw [hMs.store, storeAt, if_neg (by omega)]
  have hadopt : Ring.adopts n.self n.ring.predecessor m.self = true := by
    rw [hnself, hpred, hJm.self]
    exact hs.succ_adopts
  have hne : n.ring.predecessor ≠ m.self := by
    rw [hpred, hJm.self]
    exact (hs.joiner_ne hs.pred_inRing).symm
  have hfit : n.search.store.map.Fits := by
    rw [hstore]
    exact (hs.tidy E.succ (Array.mem_of_getElem? hs.succ)).2.fits
  obtain ⟨T, hrun, hTself, hTring, hTstore, sent, hout, hfor⟩ :=
    receive_stabilizeReq_hands m.self.addr (m.lastTx + 1) (t := c.startTurn n) hnin hadopt
      (hs.onWire hme) hne hl hfit
  have hsplit : n.search.store.extractNotOwned m.self.id n.self.id = E.split := by
    rw [hstore, hnself, hJm.self, split]
  change List.Forall₂ _ sent (n.search.store.extractNotOwned m.self.id n.self.id).2.entries at hfor
  rw [hsplit, hJm.self] at hfor
  obtain ⟨R', hR', hsent⟩ := storeRequests_of_sent hfor
  obtain ⟨hmem, hq', hend, hcut⟩ := Cluster.deliverAt_turn hk hsrc hdst hj hn
    (congrArg Prod.snd hrun)
  refine ⟨R', by rw [← hR', List.length_map], ?_, h.lookup, ?_⟩
  · -- `succ` stands in phase 1, and every other member as it stood in phase 0
    have hMs' : E.Member 1 E.s E.succ T.node := by
      refine ⟨hTself.trans hnself, by rw [hTring]; exact hMs.inRing, ?_, ?_, ?_, ?_⟩
      · rw [hTring]
        exact hMs.successor.trans (by simp [successorAt])
      · rw [hTring, predecessorAt, if_pos ⟨rfl, le_rfl⟩]
        exact hJm.self
      · rw [hTstore, storeAt, if_pos ⟨rfl, le_rfl⟩]
        exact congrArg Prod.fst hsplit
      · rw [hTring]
        exact hMs.places
    have hph : E.phaseAt 0 E.x .answer = 1 := by simp [phaseAt, adopted]
    rw [hph]
    refine hsp.update hmem hend hcut (.inr ⟨hs.x_ne_s.symm, E.succ, hs.succ, hMs'⟩)
      fun j' n' hj' _ hst => ?_
    rcases hst with ⟨rfl, hJ⟩ | ⟨hjx, n₀, hn₀, hM⟩
    · exact .inl ⟨rfl, hJ.hand hR'⟩
    · exact .inr ⟨hjx, n₀, hn₀, hM.rephase (fun _ => by omega) fun e => absurd e hj'⟩
  · -- the answer and the store requests take the request's place
    have hrest := List.perm_eraseIdx_of_perm_cons hk (by simpa [exchangeDatagram] using h.queue)
    rw [hq', hout]
    simp only [Cluster.startTurn, Array.toList_empty, List.nil_append, List.map_append,
      List.map_cons, List.map_nil, hnself, hsent]
    simp only [exchangeDatagram, answerAt, Option.toList_some, List.cons_append, List.nil_append,
      hJm.successor]
    rw [if_neg fun hc => hs.x_ne_p hc.1]
    refine (hrest.append_right _).trans ?_
    rw [← List.append_assoc]
    exact List.perm_append_singleton _ _

theorem deliver_request_linked (h : E.Ticks c₀ i m ph .request w R c) (hp : i = E.p ∧ ph = 2)
    {k : Nat} (hk : c.queue.toList[k]? = some ⟨m.self.addr, m.ring.successor.addr,
      Message.bytes ⟨m.lastTx + 1, .stabilizeReq m.self⟩⟩) :
    E.Ticks c₀ i m ph .answer w R (c.deliverAt k) := by
  obtain ⟨rfl, rfl⟩ := hp
  have hsp : E.Spliced c₀ 2 R c := h.spliced
  have hMm : E.Member 2 E.p E.pred m := hm.member hs.x_ne_p.symm hs.pred
  have hmself : m.self = E.pred.self := hMm.self
  have hsucc : m.ring.successor = E.joiner.self := by
    rw [hMm.successor, successorAt, if_pos ⟨rfl, le_rfl⟩]
  have hme := hm.ringMember hin
  obtain ⟨j, n, hj, hdst, hn, hself, hnin, hl⟩ :=
    hsp.reach hs (hsucc ▸ .inr rfl : E.RingMember c₀ m.ring.successor)
  obtain ⟨-, -, -, hsrc, -, -⟩ := hsp.reach hs hme
  obtain rfl := (hsp.stands hn).eq_x hs hnin (hself.trans hsucc)
  have hJ : E.Joiner 2 R n := (hsp.stands hn).joiner
  have hpred : n.ring.predecessor = E.joiner.ring.predecessor := by
    rw [hJ.predecessor, joinerPredecessor, if_neg (by omega)]
  have hadopt : Ring.adopts n.self n.ring.predecessor m.self = true := by
    rw [hJ.self, hpred, hmself]
    exact hs.joiner_adopts
  have hne : n.ring.predecessor ≠ m.self := fun e => by
    have hu := hs.unlinked
    rw [← hpred, e, hmself, hs.pred_isUnset] at hu
    exact Bool.false_ne_true hu
  have hheld : ∀ e ∈ n.search.store.map.entries, e ∈ E.split.2.entries := fun e he => by
    have hst := hJ.store.subset (List.mem_append_left _ he)
    rwa [handedAt, if_pos (by omega)] at hst
  have hfit : n.search.store.map.Fits := fun e he =>
    (hs.tidy E.succ (Array.mem_of_getElem? hs.succ)).2.fits e (Setting.mem_moved (hheld e he)).1
  have hkeep : n.search.store.extractNotOwned m.self.id n.self.id = (n.search.store, ⟨[]⟩) :=
    Store.extractNotOwned_of_owns fun e he => by
      rw [hmself, hJ.self]
      exact hs.owns_handed (hheld e he)
  obtain ⟨T, hrun, hTself, hTring, hTstore, sent, hout, hfor⟩ :=
    receive_stabilizeReq_hands m.self.addr (m.lastTx + 1) (t := c.startTurn n) hnin hadopt
      (hs.onWire hme) hne hl hfit
  change T.node.search.store = (n.search.store.extractNotOwned m.self.id n.self.id).1 at hTstore
  change List.Forall₂ _ sent (n.search.store.extractNotOwned m.self.id n.self.id).2.entries at hfor
  rw [hkeep] at hTstore hfor
  obtain rfl := List.forall₂_nil_right_iff.1 hfor
  obtain ⟨hmem, hq', hend, hcut⟩ := Cluster.deliverAt_turn hk hsrc hdst hj hn
    (congrArg Prod.snd hrun)
  refine ⟨?_, h.lookup, ?_⟩
  · -- the joiner stands in phase 3, and every other member as it stood in phase 2
    have hJ' : E.Joiner 3 R T.node := by
      refine ⟨hTself.trans hJ.self, by rw [hTring]; exact hJ.inRing,
        by rw [hTring]; exact hJ.successor, ?_, by rw [hTstore]; exact hJ.ascending, ?_, ?_,
        by rw [hTring]; exact hJ.complete⟩
      · rw [hTring, joinerPredecessor, if_pos le_rfl]
        exact hmself
      · rw [hTstore, handedAt, if_pos (by omega)]
        simpa [handedAt] using hJ.store
      · unfold Node.Shaped
        rw [hTself]
        exact Membership.Shaped.of_places hJ.shaped (by rw [hTring]; rfl) (by rw [hTring]; rfl)
    have hph : E.phaseAt 2 E.p .answer = 3 := by simp [phaseAt, adopted, hs.x_ne_p.symm]
    rw [hph]
    refine hsp.update hmem hend hcut (.inl ⟨rfl, hJ'⟩) fun j' n' hj' _ hst => ?_
    rcases hst with ⟨rfl, -⟩ | ⟨hjx, n₀, hn₀, hM⟩
    · exact absurd rfl hj'
    · exact .inr ⟨hjx, n₀, hn₀, hM.rephase (fun _ => by omega) fun _ => by omega⟩
  · -- the answer takes the request's place
    have hrest := List.perm_eraseIdx_of_perm_cons hk (by simpa [exchangeDatagram] using h.queue)
    rw [hq', hout]
    simp only [Cluster.startTurn, Array.toList_empty, List.nil_append, List.map_cons,
      List.map_nil, hself, hsucc]
    simp only [exchangeDatagram, answerAt, Option.toList_some, List.cons_append, List.nil_append,
      hsucc]
    rw [if_neg fun hc => by omega]
    exact (hrest.append_right _).trans (List.perm_append_singleton _ _)

/-- The answer reaches the ticking member. In phase 1 it names the joiner to `pred`, which
takes it as successor: phase 2. Otherwise it names the member itself, which changes nothing.
Either way the exchange ends. -/
theorem deliver_answer (h : E.Ticks c₀ i m ph .answer w R c) {k : Nat}
    (hk : c.queue.toList[k]? = some ⟨m.ring.successor.addr, m.self.addr,
      Message.bytes ⟨m.lastTx + 1, .stabilizeRsp (E.answerAt ph i m)⟩⟩) :
    E.Ticks c₀ i m ph .ended w R (c.deliverAt k) := by
  have hsp : E.Spliced c₀ (E.adopted ph i) R c := h.spliced
  have hme := hm.ringMember hin
  obtain ⟨j, n, hj, hdst, hn, hself, hnin, hl⟩ := hsp.reach hs hme
  obtain ⟨-, -, -, hsrc, -, -⟩ := hsp.reach hs (hm.successor_ringMember hs hin)
  have hrest := List.perm_eraseIdx_of_perm_cons hk (by simpa [exchangeDatagram] using h.queue)
  by_cases hp1 : i = E.p ∧ ph = 1
  · -- `pred` hears of the joiner, which lies between it and `succ`
    obtain ⟨rfl, rfl⟩ := hp1
    have hMm : E.Member 1 E.p E.pred m := hm.member hs.x_ne_p.symm hs.pred
    have hph : E.adopted 1 E.p = 1 := by simp [adopted]
    rw [hph] at hsp
    obtain ⟨rfl, hMn⟩ := (hsp.stands hn).eq_of_self hs hnin hs.pred hs.predIn (hself.trans hMm.self)
    have hnsucc : n.ring.successor = E.succ.self := by
      rw [hMn.successor, successorAt, if_neg (by omega), hs.pred_successor]
    have hans : E.answerAt 1 E.p m = E.joiner.self := by simp [answerAt]
    obtain ⟨g, hrun⟩ := receive_stabilizeRsp_moves m.ring.successor.addr (m.lastTx + 1)
      (t := c.startTurn n) hnin hs.joinerWire
      (fun e => hs.joiner_ne hs.pred_inRing (e.trans hMn.self))
      (by show Arc.inside n.self.id _ n.ring.successor.id = true
          rw [hMn.self, hnsucc]; exact hs.inside)
    rw [hans] at hk
    obtain ⟨hmem, hq', hend, hcut⟩ := Cluster.deliverAt_turn hk hsrc hdst hj hn
      (congrArg Prod.snd hrun)
    have hMn' : E.Member 2 E.p E.pred ((c.startTurn n).mapMetrics g |>.successorSet E.joiner.self).node := by
      refine ⟨by simpa [Cluster.startTurn] using hMn.self, by simpa [Cluster.startTurn] using hMn.inRing,
        ?_, ?_, ?_, by simpa [Cluster.startTurn] using hMn.places⟩
      · simp [successorAt]
      · simpa [predecessorAt, Cluster.startTurn] using hMn.predecessor
      · simpa [storeAt, Cluster.startTurn] using hMn.store
    have hph' : E.phaseAt 1 E.p .ended = 2 := by simp [phaseAt, advance]
    refine ⟨?_, h.lookup, ?_⟩
    · rw [hph']
      refine hsp.update hmem hend hcut (.inr ⟨hs.x_ne_p.symm, E.pred, hs.pred, hMn'⟩)
        fun j' n' hj' _ hst => ?_
      rcases hst with ⟨rfl, hJ⟩ | ⟨hjx, n₀, hn₀, hM⟩
      · exact .inl ⟨rfl, hJ.rephase (by omega) (by omega)⟩
      · exact .inr ⟨hjx, n₀, hn₀, hM.rephase (fun e => absurd e hj') fun _ => by omega⟩
    · rw [hq']
      simpa [exchangeDatagram, Cluster.startTurn] using hrest
  · -- any other member hears of itself
    have hans : E.answerAt ph i m = (c.startTurn n).node.self := by
      rw [answerAt, if_neg hp1]
      exact hself.symm
    rw [hans] at hk
    have hwire : (c.startTurn n).node.self.OnWire := by
      rw [show (c.startTurn n).node = n from rfl, hself]
      exact hs.onWire hme
    obtain ⟨m', hu', hsame, hmem, hq'⟩ := Cluster.deliverAt_sendsVia hk hsrc hdst hj hn
      (.of_sends (receive_stabilizeRsp_self _ _ hwire)) rfl
    have hph : E.phaseAt ph i .ended = E.adopted ph i := by
      simp only [phaseAt, advance]
      rw [if_neg hp1]
    refine ⟨by rw [hph]; exact hsp.replace hn (.of_uncounted hu') hmem hsame.endpoints hsame.cut,
      h.lookup, ?_⟩
    rw [hq']
    simpa [exchangeDatagram] using hrest

omit hm hin in
theorem deliver_store {ex : Exchange} (h : E.Ticks c₀ i m ph ex w R c)
    {q : (Bytes × DocSet) × UInt32} (hq : q ∈ R) {k : Nat}
    (hk : c.queue.toList[k]? = some (E.storeDatagram q)) :
    E.Ticks c₀ i m ph ex w (R.erase q) (c.deliverAt k) := by
  have hsp := h.spliced
  obtain ⟨j, n, hj, hdst, hn, hself, hnin, -⟩ := hsp.reach hs (.inr rfl)
  obtain ⟨-, -, -, hsrc, -, -⟩ := hsp.reach hs (.inl hs.succ_inRing)
  obtain rfl := (hsp.stands hn).eq_x hs hnin hself
  have hJ := (hsp.stands hn).joiner
  have hq₁ : q.1 ∈ E.split.2.entries :=
    mem_handedAt (hJ.store.subset (List.mem_append_right _ (List.mem_map_of_mem hq)))
  obtain ⟨ms, hrun⟩ := receive_storeReq E.succ.self.addr q.2
    (storeReq_exact (hs.tidy E.succ (Array.mem_of_getElem? hs.succ)).2 (Setting.mem_moved hq₁).1)
    (c.startTurn n)
  obtain ⟨hmem, hq', hend, hcut⟩ := Cluster.deliverAt_silent hk hsrc hdst hj hn
    (congrArg (·.2.node) hrun) (congrArg (·.2.outgoing) hrun)
  refine ⟨hsp.update hmem hend hcut (.inl ⟨rfl, hJ.stored hs hq ms⟩) fun j' n' hj' _ hst => ?_,
    h.lookup, ?_⟩
  · rcases hst with ⟨rfl, -⟩ | hM
    · exact absurd rfl hj'
    · exact .inr hM
  · rw [hq']
    refine List.perm_eraseIdx_of_perm_cons hk (h.queue.trans ?_)
    refine ((((List.perm_cons_erase hq).map E.storeDatagram).append_left _).trans ?_)
    exact List.perm_middle

/-- The lookup's request reaches the member holding it, which relays it along its successor:
the answer naming the successor when the successor owns the entry's start, the request passed
on, nearer to the start, otherwise. -/
theorem deliver_lookup {ex : Exchange} {kk : Nat} {tx : UInt32} {src : Address} {hd : NodeRef}
    (h : E.Ticks c₀ i m ph ex (some ⟨kk, tx, .asking src hd⟩) R c) {k : Nat}
    (hk : c.queue.toList[k]? = some ⟨src, hd.addr, Message.bytes ⟨tx,
      .findSuccessorReq m.self (m.self.id.addPow2 kk) (UInt32.ofNat kk)⟩⟩) :
    ∃ l, E.Ticks c₀ i m ph ex (some l) R (c.deliverAt k) ∧
      l.weight (E.ringIds c₀) m.self <
        (⟨kk, tx, .asking src hd⟩ : FingerLookup).weight (E.ringIds c₀) m.self := by
  obtain ⟨hkk, ⟨hsrc₀, hhd⟩, hsize⟩ := h.lookup _ rfl
  have hsp := h.spliced
  obtain ⟨j, n, hj, hdst, hn, hself, hnin, hl⟩ := hsp.reach hs hhd
  have hsr := hsp.successor_ringMember hs hn hnin
  have hsends := @receive_request_relays (c.startTurn n) src tx (UInt32.ofNat kk) m.self
    (m.self.id.addPow2 kk) hnin hl (hs.onWire (hm.ringMember hin)) (hs.onWire hsr)
  obtain ⟨m', hu', hsame, hmem, hq'⟩ := Cluster.deliverAt_sendsVia hk
    (by rw [hsp.cut]; exact hsrc₀) hdst hj hn (.of_sends hsends) rfl
  let leg := Leg.next n.self n.ring.successor (m.self.id.addPow2 kk)
  have hnext : (⟨kk, tx, leg⟩ : FingerLookup).datagram m.self =
      some (n.peer.relay tx m.self (m.self.id.addPow2 kk) (UInt32.ofNat kk)) :=
    FingerLookup.datagram_next m.self kk tx n.peer
  refine ⟨⟨kk, tx, leg⟩, ⟨hsp.replace hn (.of_uncounted hu') hmem hsame.endpoints hsame.cut,
    fun l hl => ?_, ?_⟩, ?_⟩
  · obtain rfl := Option.mem_some_iff.1 hl
    exact ⟨hkk, Leg.next_carried _ (hself ▸ hs.uncut_of hhd) hsr, hsize⟩
  · -- the member relays from its own address
    have hb : ((some (⟨kk, tx, leg⟩ : FingerLookup)).bind (·.datagram m.self)).toList =
        [(⟨n.peer.self.addr, (n.peer.relay tx m.self (m.self.id.addPow2 kk) (UInt32.ofNat kk)).dst,
          (n.peer.relay tx m.self (m.self.id.addPow2 kk) (UInt32.ofNat kk)).data⟩ : Datagram)] := by
      rw [Option.bind_some, hnext, Peer.relay_eq]
      rfl
    rw [hq', hb]
    exact perm_delivered h.queue hk
  · -- the request moves nearer to the entry's start
    have hlt := @Leg.next_weight_lt (E.ringIds c₀) n.self n.ring.successor
      (m.self.id.addPow2 kk) hsr.id_mem
    show (idBits - kk) * _ + leg.weight _ _ < (idBits - kk) * _ + (Leg.asking src hd).weight _ _
    exact Nat.add_lt_add_left (lt_of_lt_of_eq hlt (by rw [hself]; rfl)) _

theorem deliver_found {ex : Exchange} {kk : Nat} {tx : UInt32} {src : Address} {o : NodeRef}
    (h : E.Ticks c₀ i m ph ex (some ⟨kk, tx, .answered src o⟩) R c) {k : Nat}
    (hk : c.queue.toList[k]? = some ⟨src, m.self.addr, Message.bytes ⟨tx,
      .findSuccessorRsp o (m.self.id.addPow2 kk) (UInt32.ofNat kk)⟩⟩) :
    ∃ w', E.Ticks c₀ i m ph ex w' R (c.deliverAt k) ∧
      w'.elim 0 (·.weight (E.ringIds c₀) m.self) <
        (⟨kk, tx, .answered src o⟩ : FingerLookup).weight (E.ringIds c₀) m.self := by
  obtain ⟨hkk, ⟨hsrc₀, ho⟩, hsize⟩ := h.lookup _ rfl
  have hkk : kk < idBits := hkk
  have hsp := h.spliced
  have hme := hm.ringMember hin
  obtain ⟨j, n, hj, hdst, hn, hself, hnin, hl⟩ := hsp.reach hs hme
  have hsr := hsp.successor_ringMember hs hn hnin
  have hnsize : n.ring.fingers.size = idBits :=
    hm.complete_of_self hs hin hsize (hsp.stands hn) hnin hself
  have hshape : n.Shaped := hsp.shaped hs hn
  obtain ⟨f, hf⟩ : ∃ f, n.ring.fingers[kk]? = some f :=
    ⟨_, Array.getElem?_eq_getElem (by omega)⟩
  have hfs : f.start = m.self.id.addPow2 kk := by
    obtain ⟨hlt, rfl⟩ := Array.getElem?_eq_some_iff.1 hf
    rw [(hshape.entry kk hlt).2, hself]
  obtain ⟨g, hrun⟩ := receive_fingerAnswer src tx (t := c.startTurn n) hkk hnin hnsize hf
    (hs.onWire ho)
  let t₁ := ((c.startTurn n).mapMetrics g).mapRing fun r => { r with
    fingers := r.fingers.modify kk fun c => { c with owner := o } }
  have hk' : c.queue.toList[k]? = some ⟨src, m.self.addr, Message.bytes ⟨tx,
      .findSuccessorRsp o f.start (UInt32.ofNat kk)⟩⟩ := by
    rw [hfs]
    exact hk
  obtain ⟨hmem, hq', hend, hcut⟩ := Cluster.deliverAt_turn hk' (by rw [hsp.cut]; exact hsrc₀)
    hdst hj hn (show _ = t₁.repaired (kk + 1) by rw [hrun])
  have ht₁ : t₁.node.Agrees n :=
    ⟨by simp [t₁, Cluster.startTurn, Node.links], by simp [t₁, Cluster.startTurn],
      by simp [t₁, Cluster.startTurn, Finger.places_modify]⟩
  have hself₁ : t₁.node.self = m.self := ht₁.self_eq.trans hself
  obtain ⟨hag, w', hw', hwout⟩ := Turn.repaired_lookup (t := t₁) (j := kk + 1)
    (ht₁.shaped hshape) (ht₁.size_eq.trans hnsize) (by simpa [t₁] using hl)
    (by rw [hself₁]; exact hs.onWire hme) (by rw [ht₁.successor_eq]; exact hs.onWire hsr)
  rw [hself₁, ht₁.successor_eq] at hw'
  rw [hself₁] at hwout
  refine ⟨w', ⟨hsp.replace hn (hag.trans ht₁) hmem hend hcut, fun l hl => ?_, ?_⟩, ?_⟩
  · obtain ⟨-, hlk, hleg⟩ := hw' l hl
    rw [hleg]
    exact ⟨hlk, ⟨hs.uncut_of hme, hsr⟩, hsize⟩
  · have hout₁ : t₁.outgoing.toList = [] := rfl
    rw [hq', hself, hwout, hout₁, List.map_nil, List.nil_append]
    exact perm_delivered h.queue hk
  · -- a later entry, and a request that passes each member at most once
    cases w' with
    | none => simp [FingerLookup.weight, Leg.weight]
    | some l =>
      obtain ⟨hlk, -, hleg⟩ := hw' l rfl
      have hN := Ring.arcCount_lt_length hsr.id_mem (m.self.id.addPow2 l.k)
      have hmul : (idBits - l.k + 1) * ((E.ringIds c₀).length + 3) ≤
          (idBits - kk) * ((E.ringIds c₀).length + 3) :=
        Nat.mul_le_mul_right _ (by omega)
      rw [Nat.succ_mul] at hmul
      simp only [Option.elim, FingerLookup.weight, hleg, Leg.weight]
      omega

theorem deliverAt {ex : Exchange} (h : E.Ticks c₀ i m ph ex w R c) {k : Nat}
    (hk : k < c.queue.toList.length) :
    ∃ ex' w' R', E.Ticks c₀ i m ph ex' w' R' (c.deliverAt k) ∧
      E.tickWeight c₀ m ex' w' R' < E.tickWeight c₀ m ex w R := by
  obtain ⟨d, hd⟩ : ∃ d, c.queue.toList[k]? = some d := ⟨_, List.getElem?_eq_getElem hk⟩
  have hmem := h.queue.subset (List.mem_of_getElem? hd)
  simp only [List.mem_append] at hmem
  rcases hmem with (hex | hw) | hR
  · -- the exchange's datagram
    cases ex with
    | request =>
      obtain rfl : d = _ := by simpa [exchangeDatagram] using hex
      by_cases hx : i = E.x ∧ ph = 0
      · obtain ⟨R', hR', h'⟩ := h.deliver_request_adopted hs hm hin hx hd
        obtain ⟨n, -, hJ⟩ := h.spliced.joiner
        have hR : R = [] := by
          change E.Joiner ph R n at hJ
          rw [hx.2] at hJ
          exact hJ.empty.2
        refine ⟨_, _, _, h', ?_⟩
        simp only [tickWeight, exchangeWeight, hR', hR, List.length_nil]
        omega
      · by_cases hp : i = E.p ∧ ph = 2
        · refine ⟨_, _, _, h.deliver_request_linked hs hm hin hp hd, ?_⟩
          simp only [tickWeight, exchangeWeight]
          omega
        · refine ⟨_, _, _, h.deliver_request_kept hs hm hin hx hp hd, ?_⟩
          simp only [tickWeight, exchangeWeight]
          omega
    | answer =>
      obtain rfl : d = _ := by simpa [exchangeDatagram] using hex
      refine ⟨_, _, _, h.deliver_answer hs hm hin hd, ?_⟩
      simp only [tickWeight, exchangeWeight]
      omega
    | ended => simp [exchangeDatagram] at hex
  · -- the lookup's datagram
    cases w with
    | none => simp at hw
    | some l =>
      obtain ⟨kk, tx, leg⟩ := l
      cases leg with
      | asking src hd' =>
        obtain rfl : d = _ := by simpa [FingerLookup.datagram] using hw
        obtain ⟨l', h', hlt⟩ := h.deliver_lookup hs hm hin hd
        refine ⟨_, _, _, h', ?_⟩
        simp only [tickWeight, Option.elim]
        omega
      | answered src o =>
        obtain rfl : d = _ := by simpa [FingerLookup.datagram] using hw
        obtain ⟨w', h', hlt⟩ := h.deliver_found hs hm hin hd
        refine ⟨_, _, _, h', ?_⟩
        simp only [tickWeight, Option.elim] at hlt ⊢
        omega
      | storing => simp [FingerLookup.datagram] at hw
      | kept => simp [FingerLookup.datagram] at hw
  · -- a store request
    obtain ⟨q, hq, rfl⟩ := List.mem_map.1 hR
    refine ⟨_, _, _, h.deliver_store hs hq hd, ?_⟩
    have hpos := List.length_pos_of_mem hq
    simp only [tickWeight, List.length_erase_of_mem hq]
    omega

omit hs hm hin in
theorem quiet {ex : Exchange} (h : E.Ticks c₀ i m ph ex w R c) (hq : c.queue.toList = []) :
    E.Spliced c₀ (E.advance ph i) [] c := by
  have hnil : (E.exchangeDatagram ph i m ex).toList ++ (w.bind (·.datagram m.self)).toList ++
      R.map E.storeDatagram = [] := by
    have hperm := h.queue
    rw [hq] at hperm
    exact hperm.symm.eq_nil
  simp only [List.append_eq_nil_iff, List.map_eq_nil_iff] at hnil
  obtain ⟨⟨hex, -⟩, rfl⟩ := hnil
  cases ex with
  | request => simp [exchangeDatagram] at hex
  | answer => simp [exchangeDatagram] at hex
  | ended => exact h.spliced

end Ticks

variable {E} {c₀ : Cluster}

/-- A tick of ring member `i`, which is `m`, on a quiet cluster in phase `ph` of the entry,
followed by the delivery of every datagram it causes, in whatever order, leaves the cluster in
the phase after the tick; and delivering the first datagram again and again does drain it. -/
theorem tick_advances {c : Cluster} {K : Corpus} {ph i : Nat} {m : Node} (hs : E.Setting c₀ K)
    (h : E.Spliced c₀ ph [] c) (hq : c.queue.toList = []) (hi : c.members[i]? = some m)
    (hin : m.ring.inRing = true) :
    (∃ c₁, Cluster.Delivering (c.turn i Node.tick).2 c₁ ∧ c₁.queue.toList = []) ∧
      ∀ c₁, Cluster.Delivering (c.turn i Node.tick).2 c₁ → c₁.queue.toList = [] →
        E.Spliced c₀ (E.advance ph i) [] c₁ := by
  have hm := h.stands hi
  obtain ⟨w, h₀⟩ := Ticks.start hs h hq hi hin
  let I : Exchange × Option FingerLookup × List ((Bytes × DocSet) × UInt32) → Cluster → Prop :=
    fun st c' => E.Ticks c₀ i m ph st.1 st.2.1 st.2.2 c'
  have hstep : ∀ st c' k, I st c' → k < c'.queue.toList.length →
      ∃ st', I st' (c'.deliverAt k) ∧
        E.tickWeight c₀ m st'.1 st'.2.1 st'.2.2 < E.tickWeight c₀ m st.1 st.2.1 st.2.2 :=
    fun _ _ _ hI hk => by
      obtain ⟨ex', w', R', h', hlt⟩ := Ticks.deliverAt hs hm hin hI hk
      exact ⟨(ex', w', R'), h', hlt⟩
  refine ⟨?_, fun c₁ hrun hq₁ => ?_⟩
  · obtain ⟨c₁, -, hrun, -, hq₁⟩ := Cluster.drains_of
      (fun st => E.tickWeight c₀ m st.1 st.2.1 st.2.2) hstep (s := (.request, w, [])) h₀
    exact ⟨c₁, hrun, hq₁⟩
  · obtain ⟨st, h₁⟩ := Cluster.delivering_of
      (fun st c' k hI hk => (hstep st c' k hI hk).imp fun _ h' => h'.1) (s := (.request, w, []))
      h₀ hrun
    exact h₁.quiet hq₁

end Arrival

end ChordSearch
