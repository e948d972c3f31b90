import ChordSearch.Proofs.Cluster.Run

/-! # The shape of a finger table

A node's finger table has at most one entry for each bit of the ring, it is empty while the
node is outside the ring, and entry `j` is numbered `j` and starts at the node's position
plus `2 ^ j` (`Membership.Shaped`).

A table is replaced whole in three places only: a ring of one fills it with every entry
(`Ring.bootstrap`), and an accepted join answer and a leave empty it. It grows in one place,
`Ring.initFinger`, which appends entry `i - 1` only when the table holds exactly the `i - 1`
entries before it. Everything else writes owners, which the shape does not mention: an
answer for a finger first checks that its index names an entry with the answer's start, and
copying owners forward touches existing entries only.

So every handler keeps the shape, whatever the message says, forged, stale, duplicated or
out of range (`handle_shaped`), and so does every operator request (`act_shaped`). A node
keeps it through any sequence of requests and messages, from the moment it is set up
(`Node.Run.shaped`).
-/

namespace ChordSearch

open NodeM Std.Do

set_option mvcgen.warning false

/-- Where a finger sits in its table: its number and the position it starts at. -/
def Finger.place (f : Finger) : Nat × RingId := (f.index, f.start)

/-- The finger table as the node at `me` builds it: at most one entry per bit of the ring,
none while the node is outside the ring, and entry `j` numbered `j`, starting at
`me + 2 ^ j`. -/
structure Membership.Shaped (me : RingId) (r : Membership) : Prop where
  size_le : r.fingers.size ≤ idBits
  empty : r.inRing = false → r.fingers.size = 0
  entry : ∀ j (hj : j < r.fingers.size),
    r.fingers[j].index = j ∧ r.fingers[j].start = me.addPow2 j

namespace Membership.Shaped

variable {me : RingId} {r r' : Membership}

theorem of_places (h : r.Shaped me) (hp : r'.fingers.map Finger.place = r.fingers.map Finger.place)
    (hin : r'.inRing = r.inRing) : r'.Shaped me := by
  have hsize : r'.fingers.size = r.fingers.size := by
    simpa using congrArg Array.size hp
  refine ⟨hsize ▸ h.size_le, fun hout => hsize ▸ h.empty (hin ▸ hout), fun j hj => ?_⟩
  have hj' : j < r.fingers.size := hsize ▸ hj
  have hat : (r'.fingers[j]).place = (r.fingers[j]).place := by
    have := congrArg (·[j]?) hp
    simpa [hj, hj'] using this
  simp only [Finger.place, Prod.mk.injEq] at hat
  rw [hat.1, hat.2]
  exact h.entry j hj'

theorem of_fingers (h : r.Shaped me) (hf : r'.fingers = r.fingers) (hin : r'.inRing = r.inRing) :
    r'.Shaped me :=
  h.of_places (by rw [hf]) hin

theorem of_complete (hin : r.inRing = true) {o : Nat → NodeRef}
    (hf : r.fingers = ((List.range idBits).map fun i => (⟨i, me.addPow2 i, o i⟩ : Finger)).toArray) :
    r.Shaped me where
  size_le := by simp [hf]
  empty hout := by simp [hin] at hout
  entry j hj := by simp [hf]

theorem of_empty (hf : r.fingers = #[]) : r.Shaped me where
  size_le := by simp [hf, idBits]
  empty _ := by simp [hf]
  entry j hj := by simp [hf] at hj

theorem push (h : r.Shaped me) (hin : r.inRing = true) (hlt : r.fingers.size < idBits)
    {f : Finger} (hi : f.index = r.fingers.size) (hs : f.start = me.addPow2 r.fingers.size) :
    ({ r with fingers := r.fingers.push f } : Membership).Shaped me where
  size_le := by
    rw [Array.size_push]
    exact hlt
  empty hout := by simp [hin] at hout
  entry j hj := by
    simp only [Array.size_push] at hj
    simp only [Array.getElem_push]
    split
    · next hj' => exact h.entry j hj'
    · next hj' =>
      have : j = r.fingers.size := by omega
      subst this
      exact ⟨hi, hs⟩

end Membership.Shaped

theorem Finger.places_modify (fs : Array Finger) (i : Nat) (o : NodeRef) :
    (fs.modify i fun c => { c with owner := o }).map Finger.place = fs.map Finger.place := by
  apply Array.ext
  · simp
  · intro j h₁ h₂
    simp only [Array.getElem_map, Array.getElem_modify]
    split <;> rfl

theorem Finger.places_carryOwners (fs : Array Finger) (js : List Nat) :
    (Ring.carryOwners fs js).1.map Finger.place = fs.map Finger.place := by
  induction js generalizing fs with
  | nil => rfl
  | cons j js ih =>
    unfold Ring.carryOwners
    split
    · split
      · rfl
      · rw [ih, Finger.places_modify]
    · rfl

/-- The node's finger table has the shape for the node's own position. -/
def Node.Shaped (n : Node) : Prop := n.ring.Shaped n.self.id

theorem Node.Shaped.of_fingers {n n' : Node} (h : n.Shaped) (hs : n'.self = n.self)
    (hf : n'.ring.fingers = n.ring.fingers) (hin : n'.ring.inRing = n.ring.inRing) : n'.Shaped := by
  unfold Node.Shaped
  rw [hs]
  exact Membership.Shaped.of_fingers h hf hin

theorem Node.Shaped.of_empty {n : Node} (hf : n.ring.fingers = #[]) : n.Shaped :=
  Membership.Shaped.of_empty hf

theorem Node.Shaped.mapRing {t : Turn} (h : t.node.Shaped) {f : Membership → Membership}
    (hp : (f t.node.ring).fingers.map Finger.place = t.node.ring.fingers.map Finger.place)
    (hin : (f t.node.ring).inRing = t.node.ring.inRing) : (t.mapRing f).node.Shaped :=
  Membership.Shaped.of_places h hp hin

section Handlers

theorem requestFinger_shaped {f : Finger} :
    ⦃fun t => ⌜t.node.Shaped⌝⦄ Ring.requestFinger f ⦃⇓ _ t => ⌜t.node.Shaped⌝⦄ := by
  intro t h
  mvcgen [Ring.requestFinger]
  exact h.of_fingers (by simp) (by simp) (by simp)

theorem initFinger_shaped {i : Nat} :
    ⦃fun t => ⌜t.node.Shaped ∧ t.node.ring.inRing = true⌝⦄ Ring.initFinger i
    ⦃⇓ _ t => ⌜t.node.Shaped⌝⦄ := by
  intro t ⟨h, hin⟩
  mvcgen [Ring.initFinger, requestFinger_shaped]
  next hc _ =>
  have hsize : t.node.ring.fingers.size = i - 1 ∧ 1 ≤ i ∧ i ≤ idBits := by
    simp at hc
    omega
  refine Membership.Shaped.push h hin (by omega) (by rw [hsize.1]) ?_
  show t.node.self.id.addPow2 ((i : Int) - 1) = t.node.self.id.addPow2 (t.node.ring.fingers.size : Int)
  rw [hsize.1, Nat.cast_sub hsize.2.1, Nat.cast_one]

theorem fixFinger_shaped {i : Nat} :
    ⦃fun t => ⌜t.node.Shaped⌝⦄ Ring.fixFinger i ⦃⇓ _ t => ⌜t.node.Shaped⌝⦄ := by
  intro t h
  mvcgen [Ring.fixFinger, requestFinger_shaped]
  all_goals first
    | exact h
    | exact h.mapRing (Finger.places_carryOwners _ _) rfl

theorem stabilize_shaped :
    ⦃fun t => ⌜t.node.Shaped⌝⦄ Ring.stabilize ⦃⇓ _ t => ⌜t.node.Shaped⌝⦄ := by
  intro t h
  mvcgen [Ring.stabilize, fixFinger_shaped]
  have hs : (t.drawTx.sent t.node.ring.successor.addr (t.node.lastTx + 1)
      (.stabilizeReq t.drawTx.node.self)).node.Shaped :=
    h.of_fingers (by simp) (by simp) (by simp)
  exact hs.mapRing (Finger.places_modify _ _ _) rfl

theorem findSuccessor_shaped {tx : UInt32} {r : NodeRef} {key : RingId} {idx : UInt32} :
    ⦃fun t => ⌜t.node.Shaped⌝⦄ Ring.findSuccessor tx r key idx ⦃⇓ _ t => ⌜t.node.Shaped⌝⦄ := by
  intro t h
  mvcgen [Ring.findSuccessor]
  all_goals exact h.of_fingers (by simp) (by simp) (by simp)

theorem resolve_shaped {key : RingId} {tx : UInt32} :
    ⦃fun t => ⌜t.node.Shaped⌝⦄ Ring.resolve key tx ⦃⇓ _ t => ⌜t.node.Shaped⌝⦄ := by
  mvcgen [Ring.resolve, findSuccessor_shaped]

theorem lookupFor_shaped {errand : Errand} {term : Bytes} :
    ⦃fun t => ⌜t.node.Shaped⌝⦄ Search.lookupFor errand term ⦃⇓ _ t => ⌜t.node.Shaped⌝⦄ := by
  intro t h
  mvcgen [Search.lookupFor, resolve_shaped]

theorem lookupResolved_shaped {owner : NodeRef} {key : RingId} {tx : UInt32} :
    ⦃fun t => ⌜t.node.Shaped⌝⦄ Search.lookupResolved owner key tx ⦃⇓ _ t => ⌜t.node.Shaped⌝⦄ := by
  intro t h
  mvcgen [Search.lookupResolved]
  all_goals exact h.of_fingers (by simp) (by simp) (by simp)

theorem foundSuccessor_shaped {tx : UInt32} {owner : NodeRef} {start : RingId} {index : UInt32} :
    ⦃fun t => ⌜t.node.Shaped⌝⦄ Ring.foundSuccessor tx owner start index
    ⦃⇓ _ t => ⌜t.node.Shaped⌝⦄ := by
  intro t h
  have hfill : ∀ i, t.node.ring.inRing = true →
      (t.mapRing fun r => { r with fingers := r.fingers.modify i fun c => { c with owner := owner } }
        ).node.Shaped ∧
      (t.mapRing fun r => { r with fingers := r.fingers.modify i fun c => { c with owner := owner } }
        ).node.ring.inRing = true :=
    fun i hin => ⟨h.mapRing (Finger.places_modify _ _ _) rfl, hin⟩
  mvcgen [Ring.foundSuccessor, lookupResolved_shaped, initFinger_shaped, fixFinger_shaped]
  all_goals first
    | exact h
    | exact hfill _ (by simpa using ‹¬(!t.node.ring.inRing) = true›)
    | exact (hfill _ (by simpa using ‹¬(!t.node.ring.inRing) = true›)).1

theorem bootstrap_shaped :
    ⦃fun t => ⌜t.node.Shaped⌝⦄ Ring.bootstrap ⦃⇓ _ t => ⌜t.node.Shaped⌝⦄ := by
  intro t h
  mvcgen [Ring.bootstrap]
  unfold Node.Shaped
  apply Membership.Shaped.of_complete (by simp) (o := fun _ => t.node.self)
  simp +zetaDelta

theorem join_shaped {landmark : NodeRef} :
    ⦃fun t => ⌜t.node.Shaped⌝⦄ Ring.join landmark ⦃⇓ _ t => ⌜t.node.Shaped⌝⦄ := by
  intro t h
  mvcgen [Ring.join, bootstrap_shaped]
  exact h.of_fingers (by simp) (by simp) (by simp)

theorem joinRequest_shaped {tx : UInt32} {landmark requester : NodeRef} :
    ⦃fun t => ⌜t.node.Shaped⌝⦄ Ring.joinRequest tx landmark requester ⦃⇓ _ t => ⌜t.node.Shaped⌝⦄ := by
  intro t h
  mvcgen [Ring.joinRequest]
  all_goals exact h.of_fingers (by simp) (by simp) (by simp)

theorem joinReply_shaped {tx : UInt32} {requester landmark successor : NodeRef} :
    ⦃fun t => ⌜t.node.Shaped⌝⦄ Ring.joinReply tx requester landmark successor
    ⦃⇓ _ t => ⌜t.node.Shaped⌝⦄ := by
  intro t h
  mvcgen [Ring.joinReply, initFinger_shaped]
  · exact h.of_fingers (by simp) (by simp) (by simp)
  · -- the requester enters the ring with an empty table
    exact ⟨Node.Shaped.of_empty (by simp), by simp⟩
  · exact h.of_fingers (by simp) (by simp) (by simp)

theorem leave_shaped :
    ⦃fun t => ⌜t.node.Shaped⌝⦄ Ring.leave ⦃⇓ _ t => ⌜t.node.Shaped⌝⦄ := by
  intro t h
  mvcgen [Ring.leave]
  all_goals exact Node.Shaped.of_empty (by simp)

theorem departure_shaped {sender conn : NodeRef} :
    ⦃fun t => ⌜t.node.Shaped⌝⦄ Ring.departure sender conn ⦃⇓ _ t => ⌜t.node.Shaped⌝⦄ := by
  intro t h
  mvcgen [Ring.departure]
  all_goals exact h.of_fingers (by simp) (by simp) (by simp)

theorem stabilizeRequest_shaped {tx : UInt32} {sender : NodeRef} :
    ⦃fun t => ⌜t.node.Shaped⌝⦄ Ring.stabilizeRequest tx sender ⦃⇓ _ t => ⌜t.node.Shaped⌝⦄ := by
  intro t h
  mvcgen [Ring.stabilizeRequest]
  all_goals exact h.of_fingers (by simp) (by simp) (by simp)

theorem stabilizeReply_shaped {p : NodeRef} :
    ⦃fun t => ⌜t.node.Shaped⌝⦄ Ring.stabilizeReply p ⦃⇓ _ t => ⌜t.node.Shaped⌝⦄ := by
  intro t h
  mvcgen [Ring.stabilizeReply]
  all_goals exact h.of_fingers (by simp) (by simp) (by simp)

theorem pingRequest_shaped {from_ : Address} {tx : UInt32} {message : Bytes} :
    ⦃fun t => ⌜t.node.Shaped⌝⦄ Ring.pingRequest from_ tx message ⦃⇓ _ t => ⌜t.node.Shaped⌝⦄ := by
  intro t h
  mvcgen [Ring.pingRequest]
  all_goals exact h.of_fingers (by simp) (by simp) (by simp)

theorem pingAnswer_shaped {tx : UInt32} :
    ⦃fun t => ⌜t.node.Shaped⌝⦄ Ring.pingAnswer tx ⦃⇓ _ t => ⌜t.node.Shaped⌝⦄ := by
  intro t h
  mvcgen [Ring.pingAnswer, Ring.pingSucceeded]
  all_goals exact h.of_fingers (by simp) (by simp) (by simp)

theorem ringStatePing_shaped {tx : UInt32} {originator : NodeRef} :
    ⦃fun t => ⌜t.node.Shaped⌝⦄ Ring.ringStatePing tx originator ⦃⇓ _ t => ⌜t.node.Shaped⌝⦄ := by
  intro t h
  mvcgen [Ring.ringStatePing]
  all_goals exact h.of_fingers (by simp) (by simp) (by simp)

theorem fetch_shaped {tx originator : UInt32} {key : Bytes} {remaining accumulated : List Bytes} :
    ⦃fun t => ⌜t.node.Shaped⌝⦄ Search.fetch tx originator key remaining accumulated
    ⦃⇓ _ t => ⌜t.node.Shaped⌝⦄ := by
  intro t h
  mvcgen [Search.fetch, Search.reply, Search.forward, lookupFor_shaped]
  all_goals exact h.of_fingers (by simp) (by simp) (by simp)

theorem fetchReply_shaped {tx : UInt32} {docs : List Bytes} :
    ⦃fun t => ⌜t.node.Shaped⌝⦄ Search.fetchReply tx docs ⦃⇓ _ t => ⌜t.node.Shaped⌝⦄ := by
  intro t h
  mvcgen [Search.fetchReply]
  all_goals exact h.of_fingers (by simp) (by simp) (by simp)

theorem keep_shaped {term : Bytes} {docs : List Bytes} :
    ⦃fun t => ⌜t.node.Shaped⌝⦄ Search.keep term docs ⦃⇓ _ t => ⌜t.node.Shaped⌝⦄ := by
  mvcgen [Search.keep]

theorem handle_shaped {from_ : Address} {m : Message} :
    ⦃fun t => ⌜t.node.Shaped⌝⦄ Node.handle from_ m ⦃⇓ _ t => ⌜t.node.Shaped⌝⦄ := by
  intro t h
  rcases m with ⟨tx, b⟩
  cases b with
  | pingReq _ => exact pingRequest_shaped t h
  | pingRsp _ => exact pingAnswer_shaped t h
  | joinReq _ _ => exact joinRequest_shaped t h
  | joinRsp _ _ _ => exact joinReply_shaped t h
  | departureReq _ _ => exact departure_shaped t h
  | stabilizeRsp _ => exact stabilizeReply_shaped t h
  | stabilizeReq _ => exact stabilizeRequest_shaped t h
  | ringStatePing _ => exact ringStatePing_shaped t h
  | findSuccessorReq _ _ _ => exact findSuccessor_shaped t h
  | findSuccessorRsp _ _ _ => exact foundSuccessor_shaped t h
  | storeReq _ _ => exact keep_shaped t h
  | fetchReq _ _ _ _ => exact fetch_shaped t h
  | fetchRsp _ => exact fetchReply_shaped t h

theorem receive_shaped {from_ : Address} {data : Bytes} :
    ⦃fun t => ⌜t.node.Shaped⌝⦄ Node.receive from_ data ⦃⇓ _ t => ⌜t.node.Shaped⌝⦄ := by
  intro t h
  mvcgen [Node.receive, handle_shaped]

end Handlers

section Requests

theorem sendPing_shaped {dest : NodeRef} {message : Bytes} :
    ⦃fun t => ⌜t.node.Shaped⌝⦄ Ring.sendPing dest message ⦃⇓ _ t => ⌜t.node.Shaped⌝⦄ := by
  intro t h
  mvcgen [Ring.sendPing]
  all_goals exact h.of_fingers (by simp) (by simp) (by simp)

theorem auditPings_shaped :
    ⦃fun t => ⌜t.node.Shaped⌝⦄ Ring.auditPings ⦃⇓ _ t => ⌜t.node.Shaped⌝⦄ := by
  intro t h
  mvcgen [Ring.auditPings]
  all_goals exact h.of_fingers (by simp) (by simp) (by simp)

theorem ringState_shaped :
    ⦃fun t => ⌜t.node.Shaped⌝⦄ Ring.ringState ⦃⇓ _ t => ⌜t.node.Shaped⌝⦄ := by
  intro t h
  mvcgen [Ring.ringState]
  all_goals exact h.of_fingers (by simp) (by simp) (by simp)

theorem lookup_shaped {term : Bytes} :
    ⦃fun t => ⌜t.node.Shaped⌝⦄ Search.lookup term ⦃⇓ _ t => ⌜t.node.Shaped⌝⦄ := by
  intro t h
  mvcgen [Search.lookup, resolve_shaped]

theorem query_shaped {via : NodeRef} {terms : List Bytes} :
    ⦃fun t => ⌜t.node.Shaped⌝⦄ Search.query via terms ⦃⇓ _ t => ⌜t.node.Shaped⌝⦄ := by
  intro t h
  mvcgen [Search.query]
  all_goals exact h.of_fingers (by simp) (by simp) (by simp)

theorem publish_shaped {ix : Index} :
    ⦃fun t => ⌜t.node.Shaped⌝⦄ Search.publish ix ⦃⇓ _ t => ⌜t.node.Shaped⌝⦄ := by
  intro t h
  mvcgen [Search.publish, lookupFor_shaped] invariants
  · ⇓ _ t => ⌜t.node.Shaped⌝

theorem act_shaped {op : Op} : ⦃fun t => ⌜t.node.Shaped⌝⦄ op.act ⦃⇓ _ t => ⌜t.node.Shaped⌝⦄ := by
  cases op with
  | join _ => mvcgen [Op.act, join_shaped]
  | leave => mvcgen [Op.act, leave_shaped]
  | stabilize => mvcgen [Op.act, Node.tick, stabilize_shaped]
  | ping _ _ => mvcgen [Op.act, sendPing_shaped]
  | auditPings => mvcgen [Op.act, auditPings_shaped]
  | ringState => mvcgen [Op.act, ringState_shaped]
  | resolve _ _ => mvcgen [Op.act, resolve_shaped]
  | lookup _ => mvcgen [Op.act, lookup_shaped]
  | publish _ => mvcgen [Op.act, publish_shaped]
  | search _ _ => mvcgen [Op.act, query_shaped]

end Requests

/-! ### Runs of a node -/

namespace Node

/-- One thing that happens to a node on its own: an operator request, or any message handed to
it from any address, forged, stale or duplicated ones included, each at any time and with
its endpoint open or closed. -/
inductive Step : Node → Node → Prop
  | act {n : Node} (op : Op) (now : Int) (linkOpen : Bool) :
      Step n (op.act.run { node := n, now, linkOpen }).2.node
  | handle {n : Node} (from_ : Address) (m : Message) (now : Int) (linkOpen : Bool) :
      Step n ((Node.handle from_ m).run { node := n, now, linkOpen }).2.node

/-- The states a node reaches through a sequence of steps. -/
def Run : Node → Node → Prop := Relation.ReflTransGen Step

theorem create_ring {cfg : Config} {seed : UInt32} {ev : Bool} {n : Node}
    (h : Node.create cfg seed ev = .ok n) : n.ring = {} := by
  unfold Node.create at h
  split at h
  · cases h
  · split at h
    · cases h
    · cases h
      rfl

theorem Step.shaped {n n' : Node} (hs : Step n n') (h : n.Shaped) : n'.Shaped := by
  cases hs with
  | act op now linkOpen => exact NodeM.run_of_triple act_shaped h
  | handle from_ m now linkOpen => exact NodeM.run_of_triple handle_shaped h

/-- A node set up from a configuration keeps its finger table in shape through any sequence
of operator requests and messages: at most one entry per bit of the ring, no entry while it
is outside the ring, and entry `j` numbered `j` and starting at `self + 2 ^ j`. -/
theorem Run.fingers_shaped {cfg : Config} {seed : UInt32} {ev : Bool} {n₀ n : Node}
    (hc : Node.create cfg seed ev = .ok n₀) (hrun : Run n₀ n) :
    n.ring.fingers.size ≤ idBits ∧ (n.ring.inRing = false → n.ring.fingers.size = 0) ∧
    ∀ j (hj : j < n.ring.fingers.size),
      n.ring.fingers[j].index = j ∧ n.ring.fingers[j].start = n.self.id.addPow2 j := by
  have h₀ : n₀.Shaped := Shaped.of_empty (by rw [create_ring hc])
  have h : n.Shaped := by
    induction hrun with
    | refl => exact h₀
    | tail _ hs ih => exact hs.shaped ih
  exact ⟨h.size_le, h.empty, h.entry⟩

/-- The node the default configuration sets up, after it has started a ring of its own. -/
theorem Run.fingers_shaped_bootstrapped :
    ∃ n₀, Node.create {} 0 true = .ok n₀ ∧
      let n := ((Op.join n₀.self).act.run { node := n₀, now := 0, linkOpen := true }).2.node
      Run n₀ n ∧ n.ring.fingers.size ≤ idBits ∧ (n.ring.inRing = false → n.ring.fingers.size = 0) ∧
        ∀ j (hj : j < n.ring.fingers.size),
          n.ring.fingers[j].index = j ∧ n.ring.fingers[j].start = n.self.id.addPow2 j := by
  cases hc : Node.create {} 0 true with
  | error e =>
    -- the default configuration is valid
    have hok : (Node.create {} 0 true).toOption.isSome = true := by decide +kernel
    rw [hc] at hok
    cases hok
  | ok n₀ =>
    have hrun : Run n₀ _ := .single (.act (.join n₀.self) 0 true)
    exact ⟨n₀, rfl, hrun, fingers_shaped hc hrun⟩

end Node

end ChordSearch
