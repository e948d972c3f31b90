import Mathlib
import ChordSearch.Proofs.Cluster.Run

/-! # Where ring pointers point

The ring layer keeps two pointers per node, its successor and its predecessor, and passes
node references around in five message types: a join answer names the joiner's successor,
a stabilize request its sender, a stabilize answer the answerer's predecessor, a departure
notice the node on the leaver's other side, and a finger answer a key's owner. A set `R` of
nodes is *closed* for a turn when every one of these references is unset or in `R`
(`Turn.PointersIn`), counting the node itself once it is in the ring (`Turn.Wide`), and a
ring member's successor is never unset.

Every handler keeps the references closed, as long as the messages it reads are
(`receive_pointersIn`), and so does every operator request except one: a node that leaves
while its predecessor is unset tells its successor to take the unset predecessor in its
place (`leave_pointersIn` needs `Node.LeavesClosed`).

The proofs run `mvcgen` over each handler; what is left is a chain of the turn functions of
`ChordSearch.Proofs.Node.Effects`, which the lemmas of the first part follow one at a time.
-/

namespace ChordSearch

open NodeM Std.Do

set_option mvcgen.warning false

@[simp] theorem NodeRef.same_self (n : NodeRef) : n.same n = true := (NodeRef.same_iff n n).2 rfl

@[simp] theorem NodeRef.same_eq_false (a b : NodeRef) : a.same b = false ↔ a ≠ b := by
  rw [← Bool.not_eq_true, NodeRef.same_iff]

/-- `r` is the unset reference or in `R`. -/
def RefIn (R : NodeRef → Prop) (r : NodeRef) : Prop := r = NodeRef.unset ∨ R r

theorem RefIn.mono {R R' : NodeRef → Prop} (h : ∀ r, R r → R' r) {r : NodeRef}
    (hr : RefIn R r) : RefIn R' r :=
  hr.imp_right (h r)

theorem RefIn.of_isUnset {R : NodeRef → Prop} {r : NodeRef} (hr : RefIn R r)
    (h : r.isUnset = false) : R r :=
  hr.resolve_left fun he => by simp [he, NodeRef.isUnset, NodeRef.unset, NodeRef.unsetWith,
    NodeRef.make, Address.isSet] at h

/-- The node references of a message the ring layer acts on are in `R` (the stabilize
messages may also carry the unset reference). -/
def Body.PointersIn (R : NodeRef → Prop) : Body → Prop
  | .joinRsp _ _ s => R s
  | .stabilizeRsp p => RefIn R p
  | .stabilizeReq s => RefIn R s
  | .departureReq _ c => R c
  | .findSuccessorRsp o _ _ => R o
  | _ => True

/-- The message types whose references `Body.PointersIn` constrains. -/
def Kind.Pointing (k : Kind) : Prop :=
  k = .joinRsp ∨ k = .stabilizeRsp ∨ k = .stabilizeReq ∨ k = .departureReq ∨
    k = .findSuccessorRsp

theorem Body.pointersIn_of_not_pointing {R : NodeRef → Prop} {b : Body}
    (h : ¬ b.kind.Pointing) : b.PointersIn R := by
  cases b <;> simp_all [Body.PointersIn, Kind.Pointing, Body.kind]

theorem Body.PointersIn.mono {R R' : NodeRef → Prop} (h : ∀ r, R r → R' r) {b : Body}
    (hb : b.PointersIn R) : b.PointersIn R' := by
  cases b <;> simp only [Body.PointersIn] at hb ⊢
  all_goals first | trivial | exact h _ hb | exact hb.mono h

/-- A node's pointers are unset or in `R`, and a ring member's successor is in `R`. -/
def Membership.PointersIn (R : NodeRef → Prop) (r : Membership) : Prop :=
  RefIn R r.successor ∧ RefIn R r.predecessor ∧ (r.inRing = true → R r.successor)

theorem Membership.PointersIn.mono {R R' : NodeRef → Prop} (h : ∀ r, R r → R' r)
    {m : Membership} (hm : m.PointersIn R) : m.PointersIn R' :=
  ⟨hm.1.mono h, hm.2.1.mono h, fun hi => h _ (hm.2.2 hi)⟩

/-- `R`, and the turn's own node once it is in the ring. -/
def Turn.Wide (R : NodeRef → Prop) (t : Turn) (r : NodeRef) : Prop :=
  R r ∨ (r = t.node.self ∧ t.node.ring.inRing = true)

/-- Every datagram of `out` that reads as a message has its references in `R`. -/
def SentIn (R : NodeRef → Prop) (out : Array (Address × Bytes)) : Prop :=
  ∀ x ∈ out, ∀ m, Message.decode x.2 = .ok m → m.body.PointersIn R

/-- The node of the turn is on the wire, and its pointers and what it sent so far point into
`R` and at itself once in the ring. -/
def Turn.PointersIn (R : NodeRef → Prop) (t : Turn) : Prop :=
  t.node.self.OnWire ∧ t.node.ring.PointersIn (t.Wide R) ∧ SentIn (t.Wide R) t.outgoing

namespace Turn

variable {R : NodeRef → Prop} {t : Turn}

theorem wide_of {t' : Turn} (hs : t'.node.self = t.node.self)
    (hi : t'.node.ring.inRing = t.node.ring.inRing) : t'.Wide R = t.Wide R := by
  funext r
  simp [Turn.Wide, hs, hi]

@[simp] theorem wide_noted (k : EventKind) (p : String) (b : Bytes) :
    (t.noted k p b).Wide R = t.Wide R := wide_of (by simp) (by simp)
@[simp] theorem wide_drawTx : t.drawTx.Wide R = t.Wide R := rfl
@[simp] theorem wide_mapSearch (f : SearchState → SearchState) : (t.mapSearch f).Wide R = t.Wide R :=
  rfl
@[simp] theorem wide_transmitted (d : Address) (m : Message) :
    (t.transmitted d m).Wide R = t.Wide R := wide_of (by simp) (by simp)
@[simp] theorem wide_sent (d : Address) (tx : UInt32) (b : Body) :
    (t.sent d tx b).Wide R = t.Wide R := by
  unfold sent; split <;> simp
@[simp] theorem wide_storesSent (d : Address) (ps : List (Bytes × DocSet)) :
    (t.storesSent d ps).Wide R = t.Wide R := wide_of (by simp) (by simp)
@[simp] theorem wide_handedOver (n : NodeRef) : (t.handedOver n).Wide R = t.Wide R :=
  wide_of (by simp) (by simp)
@[simp] theorem wide_handedAll (n : NodeRef) : (t.handedAll n).Wide R = t.Wide R :=
  wide_of (by simp) (by simp)
@[simp] theorem wide_successorSet (n : NodeRef) : (t.successorSet n).Wide R = t.Wide R :=
  wide_of (by simp) (by simp)
@[simp] theorem wide_predecessorSet (n : NodeRef) : (t.predecessorSet n).Wide R = t.Wide R :=
  wide_of (by simp) (by simp)

/-! ### One primitive at a time -/

namespace PointersIn

theorem noted (h : t.PointersIn R) (k : EventKind) (p : String) (b : Bytes) :
    (t.noted k p b).PointersIn R := by
  unfold Turn.noted
  split
  · exact h
  · exact h

theorem mapSearch (h : t.PointersIn R) (f : SearchState → SearchState) :
    (t.mapSearch f).PointersIn R := h

theorem mapMetrics (h : t.PointersIn R) (f : Metrics → Metrics) :
    (t.mapMetrics f).PointersIn R := h

theorem drawTx (h : t.PointersIn R) : t.drawTx.PointersIn R := h

theorem onWire (h : t.PointersIn R) (hR : ∀ r, R r → r.OnWire) {r : NodeRef}
    (hr : t.Wide R r) : r.OnWire := by
  rcases hr with hr | ⟨rfl, -⟩
  · exact hR r hr
  · exact h.1

theorem exact (h : t.PointersIn R) (hR : ∀ r, R r → r.OnWire) {r : NodeRef}
    (hr : RefIn (t.Wide R) r) : r.Exact :=
  hr.imp_right (h.onWire hR)

theorem of_ring {t' : Turn} (h : t.PointersIn R) (hs : t'.node.self = t.node.self)
    (hring : t'.node.ring.PointersIn (t'.Wide R)) (hout : t'.outgoing = t.outgoing)
    (hw : ∀ r, t.Wide R r → t'.Wide R r) : t'.PointersIn R :=
  ⟨hs ▸ h.1, hring, fun x hx m hd => (h.2.2 x (hout ▸ hx) m hd).mono hw⟩

theorem transmitted (h : t.PointersIn R) {d : Address} {m : Message}
    (hm : m.Carries (Body.PointersIn (t.Wide R))) : (t.transmitted d m).PointersIn R := by
  refine ⟨by simpa using h.1, by rw [wide_transmitted, transmitted_ring]; exact h.2.1, ?_⟩
  rw [wide_transmitted, transmitted_outgoing]
  intro x hx m' hd
  split at hx
  · next data he =>
    split at hx
    · rcases Array.mem_push.1 hx with hx | rfl
      · exact h.2.2 x hx m' hd
      · exact hm data m' he hd
    · exact h.2.2 x hx m' hd
  · exact h.2.2 x hx m' hd

theorem transmitted_free (h : t.PointersIn R) {d : Address} {m : Message}
    (hk : ¬ m.body.kind.Pointing) : (t.transmitted d m).PointersIn R :=
  h.transmitted (Message.Carries.of_kind fun _ hb => Body.pointersIn_of_not_pointing (hb ▸ hk))

theorem sent (h : t.PointersIn R) {d : Address} {tx : UInt32} {b : Body}
    (hm : (⟨tx, b⟩ : Message).Carries (Body.PointersIn (t.Wide R))) :
    (t.sent d tx b).PointersIn R := by
  unfold Turn.sent
  split
  · exact h.transmitted hm
  · exact h

theorem sent_free (h : t.PointersIn R) {d : Address} {tx : UInt32} {b : Body}
    (hk : ¬ b.kind.Pointing) : (t.sent d tx b).PointersIn R :=
  h.sent (Message.Carries.of_kind fun _ hb => Body.pointersIn_of_not_pointing (hb ▸ hk))

theorem sent_exact (h : t.PointersIn R) {d : Address} {tx : UInt32} {b : Body}
    (hb : b.Exact) (hp : b.PointersIn (t.Wide R)) : (t.sent d tx b).PointersIn R :=
  h.sent (Message.Carries.of_exact hb hp)

theorem storeSent (h : t.PointersIn R) (d : Address) (p : Bytes × DocSet) :
    (t.storeSent d p).PointersIn R :=
  h.drawTx.transmitted_free (by simp [Kind.Pointing, Body.kind])

theorem storesSent (h : t.PointersIn R) (d : Address) (ps : List (Bytes × DocSet)) :
    (t.storesSent d ps).PointersIn R := by
  induction ps generalizing t with
  | nil => exact h
  | cons p ps ih => exact ih (h.storeSent d p)

theorem handedOver (h : t.PointersIn R) (n : NodeRef) : (t.handedOver n).PointersIn R := by
  unfold Turn.handedOver
  split
  · exact h
  · dsimp only
    split
    · exact h.mapSearch _
    · exact (h.mapSearch _).storesSent _ _

theorem handedAll (h : t.PointersIn R) (n : NodeRef) : (t.handedAll n).PointersIn R := by
  unfold Turn.handedAll
  split
  · exact h
  · exact (h.mapSearch _).storesSent _ _

theorem pingFailed (h : t.PointersIn R) (p : PingRequest) : (t.pingFailed p).PointersIn R :=
  (h.mapMetrics _).noted _ _ _

theorem pingsFailed (h : t.PointersIn R) (ps : List (Pending PingRequest)) :
    (t.pingsFailed ps).PointersIn R := by
  induction ps generalizing t with
  | nil => exact h
  | cons p ps ih => exact ih (h.pingFailed p.value)

theorem successorSet (h : t.PointersIn R) {n : NodeRef} (hn : t.Wide R n) :
    (t.successorSet n).PointersIn R := by
  refine h.of_ring (by simp) ?_ (by simp) (by simp)
  rw [wide_successorSet, successorSet_ring]
  exact ⟨.inr hn, h.2.1.2.1, fun _ => hn⟩

theorem predecessorSet (h : t.PointersIn R) {n : NodeRef} (hn : RefIn (t.Wide R) n) :
    (t.predecessorSet n).PointersIn R := by
  unfold Turn.predecessorSet
  split
  · exact h
  · apply PointersIn.handedOver
    apply PointersIn.noted
    have hw : (t.mapRing fun r => { r with predecessor := n }).Wide R = t.Wide R :=
      wide_of rfl rfl
    refine h.of_ring rfl ?_ rfl (by rw [hw]; exact fun _ => id)
    rw [hw]
    exact ⟨h.2.1.1, hn, h.2.1.2.2⟩

theorem mapRing (h : t.PointersIn R) {f : Membership → Membership}
    (hs : (f t.node.ring).successor = t.node.ring.successor)
    (hp : (f t.node.ring).predecessor = t.node.ring.predecessor)
    (hi : (f t.node.ring).inRing = t.node.ring.inRing) : (t.mapRing f).PointersIn R := by
  have hw : (t.mapRing f).Wide R = t.Wide R := wide_of (by simp) (by simp [hi])
  refine h.of_ring rfl ?_ rfl (by rw [hw]; exact fun _ => id)
  rw [hw]
  simp only [mapRing_node, Membership.PointersIn, hs, hp, hi]
  exact h.2.1

theorem leaveRing (h : t.PointersIn R) (hself : R t.node.self) {f : Membership → Membership}
    (hs : (f t.node.ring).successor = NodeRef.unset)
    (hp : (f t.node.ring).predecessor = NodeRef.unset)
    (hi : (f t.node.ring).inRing = false) : (t.mapRing f).PointersIn R := by
  have hw : ∀ r, t.Wide R r → (t.mapRing f).Wide R r := by
    rintro r (hr | ⟨rfl, -⟩)
    · exact .inl hr
    · exact .inl hself
  refine h.of_ring rfl ?_ rfl hw
  simp only [mapRing_node, Membership.PointersIn, hs, hp, hi]
  exact ⟨.inl rfl, .inl rfl, nofun⟩

theorem enter (h : t.PointersIn R) (f : Membership → Membership)
    (hp : (f t.node.ring).predecessor = t.node.ring.predecessor)
    (hi : (f t.node.ring).inRing = true) {n : NodeRef} (hn : R n ∨ n = t.node.self) :
    ((t.mapRing f).successorSet n).PointersIn R := by
  have hw : ∀ r, t.Wide R r → ((t.mapRing f).successorSet n).Wide R r := by
    rintro r (hr | ⟨rfl, -⟩)
    · exact .inl hr
    · exact .inr ⟨by simp, by simp [hi]⟩
  have hn' : ((t.mapRing f).successorSet n).Wide R n := by
    rcases hn with hn | rfl
    · exact .inl hn
    · exact .inr ⟨by simp, by simp [hi]⟩
  refine h.of_ring (by simp) ?_ (by simp) hw
  refine ⟨.inr (by simpa using hn'), ?_, fun _ => by simpa using hn'⟩
  simpa [hp] using h.2.1.2.1.mono hw

end PointersIn

end Turn

/-! ### The ring handlers -/

section Handlers

variable {R : NodeRef → Prop} (hR : ∀ r, R r → r.OnWire)

open Turn.PointersIn

include hR in
theorem stabilizeRequest_pointersIn {tx : UInt32} {sender : NodeRef} (hs : RefIn R sender)
    (hx : sender.Exact) :
    ⦃fun t => ⌜t.PointersIn R⌝⦄ Ring.stabilizeRequest tx sender ⦃⇓ _ t => ⌜t.PointersIn R⌝⦄ := by
  intro t h
  mvcgen [Ring.stabilizeRequest]
  · -- the sender is adopted, and the answer names it
    have hs' : RefIn (t.Wide R) sender := hs.mono fun _ => .inl
    refine (h.predecessorSet hs').sent_exact ?_ ?_
    · simpa [Body.Exact] using hx
    · simp only [Turn.predecessorSet_ring, Turn.wide_predecessorSet]
      exact hs'
  · exact h.sent_exact (h.exact hR h.2.1.2.1) h.2.1.2.1

theorem stabilizeReply_pointersIn {p : NodeRef} (hp : RefIn R p) :
    ⦃fun t => ⌜t.PointersIn R⌝⦄ Ring.stabilizeReply p ⦃⇓ _ t => ⌜t.PointersIn R⌝⦄ := by
  intro t h
  mvcgen [Ring.stabilizeReply]
  rename_i hset _
  have hset : p.isUnset = false ∧ p ≠ t.node.self := by simpa using hset
  exact h.successorSet (.inl (hp.of_isUnset hset.1))

include hR in
theorem joinRequest_pointersIn {tx : UInt32} {landmark requester : NodeRef}
    (hx : landmark.Exact ∧ requester.Exact) :
    ⦃fun t => ⌜t.PointersIn R⌝⦄ Ring.joinRequest tx landmark requester
    ⦃⇓ _ t => ⌜t.PointersIn R⌝⦄ := by
  intro t h
  mvcgen [Ring.joinRequest]
  · -- the request is answered: the answer names this node's successor
    rename_i hin _
    have hs := h.2.1.2.2 (by simpa using hin)
    exact h.sent_exact ⟨hx.2, hx.1, h.exact hR (.inr hs)⟩ hs
  · exact h.sent_free (by simp [Kind.Pointing, Body.kind])

theorem joinReply_pointersIn {tx : UInt32} {requester landmark successor : NodeRef}
    (hs : R successor) (hx : requester.Exact ∧ landmark.Exact ∧ successor.Exact) :
    ⦃fun t => ⌜t.PointersIn R⌝⦄ Ring.joinReply tx requester landmark successor
    ⦃⇓ _ t => ⌜t.PointersIn R⌝⦄ := by
  intro t h
  mvcgen [Ring.joinReply, Ring.initFinger, Ring.requestFinger]
  · exact h.sent_exact hx (.inl hs)
  · -- the requester enters the ring behind `successor`
    exact (h.enter _ rfl rfl (.inl hs)).noted _ _ _
  · exact (((h.enter _ rfl rfl (.inl hs)).noted _ _ _).mapRing rfl rfl rfl).drawTx.sent_free
      (by simp [Kind.Pointing, Body.kind])
  · exact h.sent_exact hx (.inl hs)

theorem departure_pointersIn {sender conn : NodeRef} (hc : R conn) :
    ⦃fun t => ⌜t.PointersIn R⌝⦄ Ring.departure sender conn ⦃⇓ _ t => ⌜t.PointersIn R⌝⦄ := by
  intro t h
  mvcgen [Ring.departure]
  · exact ((h.predecessorSet (.inr (.inl hc))).successorSet (.inl hc)).noted _ _ _
  · exact (h.predecessorSet (.inr (.inl hc))).noted _ _ _
  · exact (h.successorSet (.inl hc)).noted _ _ _
  · exact h.noted _ _ _

theorem join_pointersIn {landmark : NodeRef} :
    ⦃fun t => ⌜t.PointersIn R⌝⦄ Ring.join landmark ⦃⇓ _ t => ⌜t.PointersIn R⌝⦄ := by
  intro t h
  mvcgen [Ring.join, Ring.bootstrap]
  · -- a ring of one: the node is its own successor and predecessor
    refine (((h.enter (fun r => { r with inRing := true, joining := false }) rfl rfl
      (.inr ?_)).predecessorSet (.inr (.inr ⟨?_, by simp⟩))).mapRing rfl rfl rfl).noted _ _ _ <;>
      simp
  · exact (h.mapRing rfl rfl rfl).drawTx.sent_free (by simp [Kind.Pointing, Body.kind])

/-- A node may leave without handing its successor an unset predecessor: when in the ring,
its predecessor is set unless it is its own successor. -/
def Node.LeavesClosed (n : Node) : Prop :=
  n.ring.inRing = true → n.ring.predecessor = NodeRef.unset → n.ring.successor = n.self

include hR in
theorem leave_pointersIn :
    ⦃fun t => ⌜t.PointersIn R ∧ R t.node.self ∧ t.node.LeavesClosed⌝⦄ Ring.leave
    ⦃⇓ _ t => ⌜t.PointersIn R⌝⦄ := by
  intro t ⟨h, hself, hclosed⟩
  mvcgen [Ring.leave]
  all_goals
    have hin : t.node.ring.inRing = true := by simpa using ‹¬(!t.node.ring.inRing) = true›
    have hw : ∀ r, t.Wide R r → R r := by
      rintro r (hr | ⟨rfl, -⟩)
      · exact hr
      · exact hself
    have hsucc : R t.node.ring.successor := hw _ (h.2.1.2.2 hin)
    have hpred : t.node.ring.successor ≠ t.node.self → R t.node.ring.predecessor := fun hne =>
      hw _ (h.2.1.2.1.resolve_left fun hp => hne (hclosed hin hp))
  · -- both neighbours are told
    rename_i hs _
    have hpred := hpred (by simpa using hs)
    refine ((((h.handedAll _).drawTx.sent_exact ?_ ?_).drawTx.sent_exact ?_ ?_).leaveRing
      ?_ rfl rfl rfl).noted _ _ _ <;> simp
    · exact ⟨.of_onWire h.1, .of_onWire (hR _ hpred)⟩
    · exact .inl hpred
    · exact ⟨.of_onWire h.1, .of_onWire (hR _ hsucc)⟩
    · exact .inl hsucc
    · exact hself
  · -- the predecessor is the node itself: only the successor is told
    rename_i hs _
    have hpred := hpred (by simpa using hs)
    refine (((h.handedAll _).drawTx.sent_exact ?_ ?_).leaveRing ?_ rfl rfl rfl).noted _ _ _ <;>
      simp
    · exact ⟨.of_onWire h.1, .of_onWire (hR _ hpred)⟩
    · exact .inl hpred
    · exact hself
  · exact ((h.handedAll _).leaveRing (by simpa using hself) rfl rfl rfl).noted _ _ _

theorem requestFinger_pointersIn {f : Finger} :
    ⦃fun t => ⌜t.PointersIn R⌝⦄ Ring.requestFinger f ⦃⇓ _ t => ⌜t.PointersIn R⌝⦄ := by
  intro t h
  mvcgen [Ring.requestFinger]
  exact h.drawTx.sent_free (by simp [Kind.Pointing, Body.kind])

theorem initFinger_pointersIn {i : Nat} :
    ⦃fun t => ⌜t.PointersIn R⌝⦄ Ring.initFinger i ⦃⇓ _ t => ⌜t.PointersIn R⌝⦄ := by
  intro t h
  mvcgen [Ring.initFinger, requestFinger_pointersIn]

theorem fixFinger_pointersIn {i : Nat} :
    ⦃fun t => ⌜t.PointersIn R⌝⦄ Ring.fixFinger i ⦃⇓ _ t => ⌜t.PointersIn R⌝⦄ := by
  intro t h
  mvcgen [Ring.fixFinger, requestFinger_pointersIn]

theorem stabilize_pointersIn :
    ⦃fun t => ⌜t.PointersIn R⌝⦄ Ring.stabilize ⦃⇓ _ t => ⌜t.PointersIn R⌝⦄ := by
  intro t h
  mvcgen [Ring.stabilize, fixFinger_pointersIn]
  rename_i hin
  have hin : t.node.ring.inRing = true := by simpa using hin
  refine (h.drawTx.sent_exact ?_ ?_).mapRing rfl rfl rfl
  · exact .of_onWire h.1
  · exact .inr (.inr ⟨rfl, hin⟩)

include hR in
theorem findSuccessor_pointersIn {tx : UInt32} {n : NodeRef} {start : RingId} {index : UInt32} :
    ⦃fun t => ⌜t.PointersIn R⌝⦄ Ring.findSuccessor tx n start index
    ⦃⇓ _ t => ⌜t.PointersIn R⌝⦄ := by
  intro t h
  mvcgen [Ring.findSuccessor]
  · -- the answer names this node's successor, a member
    rename_i hin _
    have hs := h.2.1.2.2 hin
    exact h.sent_exact (.of_onWire (h.onWire hR hs)) hs
  · exact h.sent_free (by simp [Kind.Pointing, Body.kind])

include hR in
theorem resolve_pointersIn {key : RingId} {tx : UInt32} :
    ⦃fun t => ⌜t.PointersIn R⌝⦄ Ring.resolve key tx ⦃⇓ _ t => ⌜t.PointersIn R⌝⦄ := by
  intro t h
  have hf := @findSuccessor_pointersIn R hR
  mvcgen [Ring.resolve, hf]

theorem lookupResolved_pointersIn {owner : NodeRef} {key : RingId} {tx : UInt32} :
    ⦃fun t => ⌜t.PointersIn R⌝⦄ Search.lookupResolved owner key tx ⦃⇓ _ t => ⌜t.PointersIn R⌝⦄ := by
  intro t h
  mvcgen [Search.lookupResolved]
  · exact ((h.mapSearch _).mapSearch _).storeSent _ _
  · exact (h.mapSearch _).transmitted_free (by simp [Kind.Pointing, Body.kind])
  · exact (h.mapSearch _).noted _ _ _

theorem foundSuccessor_pointersIn {tx : UInt32} {owner : NodeRef} {start : RingId}
    {index : UInt32} :
    ⦃fun t => ⌜t.PointersIn R⌝⦄ Ring.foundSuccessor tx owner start index
    ⦃⇓ _ t => ⌜t.PointersIn R⌝⦄ := by
  intro t h
  mvcgen [Ring.foundSuccessor, lookupResolved_pointersIn, initFinger_pointersIn,
    fixFinger_pointersIn]

theorem pingRequest_pointersIn {from_ : Address} {tx : UInt32} {message : Bytes} :
    ⦃fun t => ⌜t.PointersIn R⌝⦄ Ring.pingRequest from_ tx message ⦃⇓ _ t => ⌜t.PointersIn R⌝⦄ := by
  intro t h
  mvcgen [Ring.pingRequest]
  exact (h.noted _ _ _).sent_free (by simp [Kind.Pointing, Body.kind])

theorem pingAnswer_pointersIn {tx : UInt32} :
    ⦃fun t => ⌜t.PointersIn R⌝⦄ Ring.pingAnswer tx ⦃⇓ _ t => ⌜t.PointersIn R⌝⦄ := by
  intro t h
  mvcgen [Ring.pingAnswer, Ring.pingSucceeded]
  exact (((h.mapRing rfl rfl rfl).mapMetrics _).noted _ _ _)

theorem ringStatePing_pointersIn {tx : UInt32} {originator : NodeRef} :
    ⦃fun t => ⌜t.PointersIn R⌝⦄ Ring.ringStatePing tx originator ⦃⇓ _ t => ⌜t.PointersIn R⌝⦄ := by
  intro t h
  mvcgen [Ring.ringStatePing]
  exact h.sent_free (by simp [Kind.Pointing, Body.kind])

theorem keep_pointersIn {term : Bytes} {docs : List Bytes} :
    ⦃fun t => ⌜t.PointersIn R⌝⦄ Search.keep term docs ⦃⇓ _ t => ⌜t.PointersIn R⌝⦄ := by
  intro t h
  mvcgen [Search.keep]

include hR in
theorem lookupFor_pointersIn {errand : Errand} {term : Bytes} :
    ⦃fun t => ⌜t.PointersIn R⌝⦄ Search.lookupFor errand term ⦃⇓ _ t => ⌜t.PointersIn R⌝⦄ := by
  intro t h
  have hr := @resolve_pointersIn R hR
  mvcgen [Search.lookupFor, hr]

include hR in
theorem fetch_pointersIn {tx originator : UInt32} {key : Bytes} {remaining accumulated : List Bytes} :
    ⦃fun t => ⌜t.PointersIn R⌝⦄ Search.fetch tx originator key remaining accumulated
    ⦃⇓ _ t => ⌜t.PointersIn R⌝⦄ := by
  intro t h
  have hl := @lookupFor_pointersIn R hR
  mvcgen [Search.fetch, Search.reply, Search.forward, hl]
  all_goals exact h.transmitted_free (by simp [Kind.Pointing, Body.kind])

theorem fetchReply_pointersIn {tx : UInt32} {docs : List Bytes} :
    ⦃fun t => ⌜t.PointersIn R⌝⦄ Search.fetchReply tx docs ⦃⇓ _ t => ⌜t.PointersIn R⌝⦄ := by
  intro t h
  mvcgen [Search.fetchReply]
  exact ((h.mapSearch _).mapMetrics _).noted _ _ _

include hR in
theorem handle_pointersIn {from_ : Address} {m : Message} (hm : m.body.PointersIn R)
    (hx : m.body.RefsExact) :
    ⦃fun t => ⌜t.PointersIn R⌝⦄ Node.handle from_ m ⦃⇓ _ t => ⌜t.PointersIn R⌝⦄ := by
  rcases m with ⟨tx, b⟩
  cases b with
  | pingReq _ => exact pingRequest_pointersIn
  | pingRsp _ => exact pingAnswer_pointersIn
  | joinReq _ _ => exact joinRequest_pointersIn hR hx
  | joinRsp _ _ _ => exact joinReply_pointersIn hm hx
  | departureReq _ _ => exact departure_pointersIn hm
  | stabilizeRsp _ => exact stabilizeReply_pointersIn hm
  | stabilizeReq _ => exact stabilizeRequest_pointersIn hR hm hx
  | ringStatePing _ => exact ringStatePing_pointersIn
  | findSuccessorReq _ _ _ => exact findSuccessor_pointersIn hR
  | findSuccessorRsp _ _ _ => exact foundSuccessor_pointersIn
  | storeReq _ _ => exact keep_pointersIn
  | fetchReq _ _ _ _ => exact fetch_pointersIn hR
  | fetchRsp _ => exact fetchReply_pointersIn

include hR in
theorem receive_pointersIn {from_ : Address} {data : Bytes}
    (hd : ∀ m, Message.decode data = .ok m → m.body.PointersIn R) :
    ⦃fun t => ⌜t.PointersIn R⌝⦄ Node.receive from_ data ⦃⇓ _ t => ⌜t.PointersIn R⌝⦄ := by
  intro t h
  unfold Node.receive
  split
  · mvcgen
  · next m hdec =>
    have hh := @handle_pointersIn R hR from_ m (hd m hdec) (Message.decode_refsExact hdec)
    mvcgen [hh]

/-! ### Operator requests -/

theorem tick_pointersIn :
    ⦃fun t => ⌜t.PointersIn R⌝⦄ Node.tick ⦃⇓ _ t => ⌜t.PointersIn R⌝⦄ := by
  mvcgen [Node.tick, stabilize_pointersIn]

theorem sendPing_pointersIn {dest : NodeRef} {message : Bytes} :
    ⦃fun t => ⌜t.PointersIn R⌝⦄ Ring.sendPing dest message ⦃⇓ _ t => ⌜t.PointersIn R⌝⦄ := by
  intro t h
  mvcgen [Ring.sendPing]
  · exact h.drawTx.pingFailed _
  · exact (h.drawTx.mapRing rfl rfl rfl).sent_free (by simp [Kind.Pointing, Body.kind])

theorem auditPings_pointersIn :
    ⦃fun t => ⌜t.PointersIn R⌝⦄ Ring.auditPings ⦃⇓ _ t => ⌜t.PointersIn R⌝⦄ := by
  intro t h
  mvcgen [Ring.auditPings]
  exact (h.mapRing rfl rfl rfl).pingsFailed _

theorem ringState_pointersIn :
    ⦃fun t => ⌜t.PointersIn R⌝⦄ Ring.ringState ⦃⇓ _ t => ⌜t.PointersIn R⌝⦄ := by
  intro t h
  mvcgen [Ring.ringState]
  exact h.drawTx.sent_free (by simp [Kind.Pointing, Body.kind])

include hR in
theorem lookup_pointersIn {term : Bytes} :
    ⦃fun t => ⌜t.PointersIn R⌝⦄ Search.lookup term ⦃⇓ _ t => ⌜t.PointersIn R⌝⦄ := by
  have hr := @resolve_pointersIn R hR
  mvcgen [Search.lookup, hr]

include hR in
theorem publish_pointersIn {ix : Index} :
    ⦃fun t => ⌜t.PointersIn R⌝⦄ Search.publish ix ⦃⇓ _ t => ⌜t.PointersIn R⌝⦄ := by
  have hl := @lookupFor_pointersIn R hR
  mvcgen [Search.publish, hl] invariants
  · ⇓ _ t => ⌜t.PointersIn R⌝

theorem query_pointersIn {via : NodeRef} {terms : List Bytes} :
    ⦃fun t => ⌜t.PointersIn R⌝⦄ Search.query via terms ⦃⇓ _ t => ⌜t.PointersIn R⌝⦄ := by
  intro t h
  mvcgen [Search.query]
  exact (h.drawTx.mapSearch _).transmitted_free (by simp [Kind.Pointing, Body.kind])

include hR in
theorem act_pointersIn {op : Op} :
    ⦃fun t => ⌜t.PointersIn R ∧ (op = .leave → R t.node.self ∧ t.node.LeavesClosed)⌝⦄ op.act
    ⦃⇓ _ t => ⌜t.PointersIn R⌝⦄ := by
  intro t ⟨h, hleave⟩
  cases op with
  | join _ => mvcgen [Op.act, join_pointersIn]
  | leave =>
    have hl := @leave_pointersIn R hR
    mvcgen [Op.act, hl]
    exact ⟨h, hleave⟩
  | stabilize => mvcgen [Op.act, tick_pointersIn]
  | ping _ _ => mvcgen [Op.act, sendPing_pointersIn]
  | auditPings => mvcgen [Op.act, auditPings_pointersIn]
  | ringState => mvcgen [Op.act, ringState_pointersIn]
  | resolve _ _ =>
    have hr := @resolve_pointersIn R hR
    mvcgen [Op.act, hr]
  | lookup _ =>
    have hl := @lookup_pointersIn R hR
    mvcgen [Op.act, hl]
  | publish _ =>
    have hp := @publish_pointersIn R hR
    mvcgen [Op.act, hp]
  | search _ _ => mvcgen [Op.act, query_pointersIn]

end Handlers

end ChordSearch
