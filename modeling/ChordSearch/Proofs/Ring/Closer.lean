import ChordSearch.Proofs.Ring.Pointers

/-! # Stabilization moves neighbours closer

A stabilize request (the notify half) may replace the predecessor and a stabilize answer may
replace the successor; neither touches the other neighbour. Measured by clockwise distance,
each replacement moves the neighbour nearer:

* `NodeRef.gapAfter me x`: how far `x` lies clockwise past `me`, with `me` itself counting as
  the whole ring, `2 ^ 160`; `NodeRef.gapBefore me x` is the same counter-clockwise.
* `NodeRef.gapAfter_lt_of_inside`: a successor taken from an answer lies strictly between the
  node and its old successor, so it is strictly nearer.
* `NodeRef.gapBefore_lt_of_adopts`: a predecessor adopted from a request is strictly nearer
  than the old one, unless the old one was unset.

Both have one exception, where the arc tests and the identity test part ways: an old
neighbour that sits at the node's own position without being the node
(`NodeRef.Shadows`, a reference with the node's address and another number). The arcs read
such a neighbour as the whole ring, as if the node were alone, and give it up for any other
node, although by distance it was the nearest of all.

* `Ring.stabilizeRequest_ring`, `Ring.stabilizeReply_ring`: what the two handlers do to the
  ring state.
* `Node.stabilize_moves_closer`: in any state, a stabilize request or answer leaves both
  neighbours in place, moves the successor strictly nearer or moves the predecessor strictly
  nearer, unless the old neighbour was unset or shadowed the node; and an answer changes the
  successor only to the node it names, when that node is set, is not the node itself and
  lies strictly between the node and its successor.
-/

namespace ChordSearch

open NodeM

namespace NodeRef

/-- How far `x` lies clockwise past `me`; `me` itself counts as the whole ring. -/
def gapAfter (me x : NodeRef) : Nat := if x = me then ringSize else RingId.dist me.id x.id

/-- How far `x` lies counter-clockwise before `me`; `me` itself counts as the whole ring. -/
def gapBefore (me x : NodeRef) : Nat := if x = me then ringSize else RingId.dist x.id me.id

/-- `x` sits at `me`'s position without being `me`, as another number at `me`'s address
does. -/
def Shadows (me x : NodeRef) : Prop := x ≠ me ∧ x.id = me.id

theorem gapAfter_of_ne {me x : NodeRef} (h : x ≠ me) : me.gapAfter x = RingId.dist me.id x.id :=
  if_neg h

theorem gapBefore_of_ne {me x : NodeRef} (h : x ≠ me) : me.gapBefore x = RingId.dist x.id me.id :=
  if_neg h

theorem gapAfter_lt_of_inside {me s p : NodeRef} (hp : p ≠ me)
    (hin : Arc.inside me.id p.id s.id = true) (hs : ¬ me.Shadows s) :
    me.gapAfter p < me.gapAfter s := by
  rw [Arc.inside_iff] at hin
  rw [gapAfter_of_ne hp]
  by_cases hsm : s = me
  · rw [gapAfter, if_pos hsm]
    exact RingId.dist_lt _ _
  · rw [gapAfter_of_ne hsm]
    have hid : me.id ≠ s.id := fun h => hs ⟨hsm, h.symm⟩
    exact hin.2.resolve_left hid

theorem gapBefore_lt_of_adopts {me pred s : NodeRef} (h : Ring.adopts me pred s = true) :
    me.gapBefore s < me.gapBefore pred ∨ pred.isUnset = true ∨ me.Shadows pred := by
  unfold Ring.adopts at h
  split_ifs at h with hs hp hself
  · exact .inr (.inl hp)
  · -- the node was its own predecessor: any other node is nearer than the whole ring
    obtain ⟨hpm, hsm⟩ : pred = me ∧ s ≠ me := by simpa [same_iff] using hself
    left
    rw [gapBefore_of_ne hsm, gapBefore, if_pos hpm]
    exact RingId.dist_lt _ _
  · by_cases hpm : pred = me
    · -- then `s` is the node too, and no position lies strictly inside `(me, me)` but `me`
      subst hpm
      have hsm : s = pred := by simpa using hself
      subst hsm
      simp [Arc.inside_iff] at h
    by_cases hpid : pred.id = me.id
    · exact .inr (.inr ⟨hpm, hpid⟩)
    left
    rw [Arc.inside_iff] at h
    have hlt : RingId.dist pred.id s.id < RingId.dist pred.id me.id := h.2.resolve_left hpid
    have hsm : s ≠ me := by
      rintro rfl
      exact lt_irrefl _ hlt
    have hsum := RingId.dist_add_of_le hlt.le
    rw [gapBefore_of_ne hsm, gapBefore_of_ne hpm]
    omega

end NodeRef

/-- How one stabilize message may move the neighbours of `me`, from ring state `r` to `r'`:
not at all, the successor strictly nearer, or the predecessor strictly nearer; an old
predecessor that was unset, or an old neighbour that shadowed `me`, may be replaced by any
node. -/
def Membership.MovesCloser (me : NodeRef) (r r' : Membership) : Prop :=
  (r'.successor = r.successor ∧ r'.predecessor = r.predecessor) ∨
  (r'.predecessor = r.predecessor ∧
    (me.gapAfter r'.successor < me.gapAfter r.successor ∨ me.Shadows r.successor)) ∨
  (r'.successor = r.successor ∧
    (me.gapBefore r'.predecessor < me.gapBefore r.predecessor ∨ r.predecessor.isUnset = true ∨
      me.Shadows r.predecessor))

theorem stabilizeReply_run (p : NodeRef) (t : Turn) :
    (Ring.stabilizeReply p).run t =
      ((), if t.node.ring.inRing && !(p.isUnset || p.same t.node.self) &&
          Arc.inside t.node.self.id p.id t.node.ring.successor.id then t.successorSet p else t) := by
  unfold Ring.stabilizeReply
  simp only [ring, StateT.run_bind, StateT.run_get, StateT.run_pure, pure_bind]
  cases hin : t.node.ring.inRing
  · rfl
  simp only [Bool.not_true, Bool.false_eq_true, ↓reduceIte, self, StateT.run_bind, StateT.run_get,
    StateT.run_pure, pure_bind, Bool.true_and]
  cases hp : (p.isUnset || p.same t.node.self)
  · cases Arc.inside t.node.self.id p.id t.node.ring.successor.id
    · rfl
    · exact setSuccessor_run p t
  · rfl

theorem stabilizeRequest_run (tx : UInt32) (s : NodeRef) (t : Turn) :
    (Ring.stabilizeRequest tx s).run t =
      ((), if t.node.ring.inRing then
        let t' := if Ring.adopts t.node.self t.node.ring.predecessor s then t.predecessorSet s else t
        t'.sent s.addr tx (.stabilizeRsp t'.node.ring.predecessor) else t) := by
  unfold Ring.stabilizeRequest
  simp only [ring, StateT.run_bind, StateT.run_get, StateT.run_pure, pure_bind]
  cases t.node.ring.inRing
  · rfl
  simp only [Bool.not_true, Bool.false_eq_true, ↓reduceIte, self, StateT.run_bind, StateT.run_get,
    StateT.run_pure, pure_bind]
  cases Ring.adopts t.node.self t.node.ring.predecessor s
  · simp only [Bool.false_eq_true, ↓reduceIte, StateT.run_bind, StateT.run_get, StateT.run_pure,
      pure_bind, send_run]
  · simp only [↓reduceIte, StateT.run_bind, StateT.run_get, StateT.run_pure, pure_bind, send_run,
      setPredecessor_run]
    rfl

/-- An answer naming `p` changes the successor to `p` when the node is a member, `p` is set
and not the node itself, and `p` lies strictly between the node and its successor; nothing
else of the ring state changes. -/
theorem Ring.stabilizeReply_ring (p : NodeRef) (t : Turn) :
    ((Ring.stabilizeReply p).run t).2.node.ring =
      if t.node.ring.inRing = true ∧ p.isUnset = false ∧ p ≠ t.node.self ∧
          Arc.inside t.node.self.id p.id t.node.ring.successor.id = true
      then { t.node.ring with successor := p } else t.node.ring := by
  rw [stabilizeReply_run]
  by_cases hsame : p = t.node.self
  · subst hsame
    simp
  · split <;> simp_all

theorem Ring.stabilizeRequest_ring (tx : UInt32) (s : NodeRef) (t : Turn) :
    ((Ring.stabilizeRequest tx s).run t).2.node.ring =
      if t.node.ring.inRing = true ∧ Ring.adopts t.node.self t.node.ring.predecessor s = true
      then { t.node.ring with predecessor := s } else t.node.ring := by
  rw [stabilizeRequest_run]
  by_cases hin : t.node.ring.inRing = true <;>
    by_cases ha : Ring.adopts t.node.self t.node.ring.predecessor s = true <;>
    simp [hin, ha]

theorem stabilizeReply_movesCloser (p : NodeRef) (t : Turn) :
    t.node.ring.MovesCloser t.node.self ((Ring.stabilizeReply p).run t).2.node.ring := by
  rw [Ring.stabilizeReply_ring]
  split
  · next h =>
    obtain ⟨-, -, hp, hin⟩ := h
    right; left
    refine ⟨rfl, ?_⟩
    by_cases hs : t.node.self.Shadows t.node.ring.successor
    · exact .inr hs
    · exact .inl (NodeRef.gapAfter_lt_of_inside hp hin hs)
  · exact .inl ⟨rfl, rfl⟩

theorem stabilizeRequest_movesCloser (tx : UInt32) (s : NodeRef) (t : Turn) :
    t.node.ring.MovesCloser t.node.self ((Ring.stabilizeRequest tx s).run t).2.node.ring := by
  rw [Ring.stabilizeRequest_ring]
  split
  · next h => exact .inr (.inr ⟨rfl, NodeRef.gapBefore_lt_of_adopts h.2⟩)
  · exact .inl ⟨rfl, rfl⟩

/-- Stabilization only moves pointers closer. In any state, a stabilize request or answer
with any content leaves both neighbours in place, moves the successor strictly nearer
clockwise, or moves the predecessor strictly nearer counter-clockwise (the node itself
counting as the whole ring); an old predecessor that was unset, and an old neighbour that
shadows the node, are the exceptions. An answer naming `p` changes the successor only to `p`,
and only when `p` is set, is not the node and lies strictly between the node and its
successor: stale answers and answers naming the node or no node change nothing. -/
theorem Node.stabilize_moves_closer (t : Turn) (from_ : Address) (tx : UInt32) (s p : NodeRef) :
    t.node.ring.MovesCloser t.node.self ((handle from_ ⟨tx, .stabilizeReq s⟩).run t).2.node.ring ∧
    t.node.ring.MovesCloser t.node.self ((handle from_ ⟨tx, .stabilizeRsp p⟩).run t).2.node.ring ∧
    (((handle from_ ⟨tx, .stabilizeRsp p⟩).run t).2.node.ring.successor = t.node.ring.successor ∨
      (((handle from_ ⟨tx, .stabilizeRsp p⟩).run t).2.node.ring.successor = p ∧
        p.isUnset = false ∧ p ≠ t.node.self ∧
        Arc.inside t.node.self.id p.id t.node.ring.successor.id = true)) := by
  refine ⟨stabilizeRequest_movesCloser tx s t, stabilizeReply_movesCloser p t, ?_⟩
  have hreply : handle from_ ⟨tx, .stabilizeRsp p⟩ = Ring.stabilizeReply p := rfl
  rw [hreply, Ring.stabilizeReply_ring]
  split
  · next h => exact .inr ⟨rfl, h.2.1, h.2.2⟩
  · exact .inl rfl

end ChordSearch
