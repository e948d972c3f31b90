import ChordSearch.Proofs.Cluster.Run

/-! # Runs of a node

A node runs one turn per stimulus: an operator request or a message from an address, at a
clock time, through an endpoint that is open or closed. Any sequence of stimuli is a run,
forged, stale and duplicated messages included; `Node.after`, `Node.reported` and
`Node.moves` give the node at its end, the events it reported in order, and how far its
transaction counter moved, turn by turn.

No turn changes the node's configuration or whether it reports events
(`Node.after_configured`), and a node set up from a configuration starts with no request in
flight (`Node.create_search`).
-/

namespace ChordSearch

open NodeM Std.Do

set_option mvcgen.warning false

namespace Node

/-- What a node is handed in one turn: an operator request, or a message from an address,
forged, stale and duplicated ones included. -/
inductive Input where
  | act (op : Op)
  | handle (from_ : Address) (m : Message)

/-- The computation a node runs on an input. -/
def Input.run : Input → NodeM Unit
  | .act op => op.act
  | .handle from_ m => Node.handle from_ m

/-- One turn's occasion: the input, the clock and whether the endpoint is open. -/
structure Stimulus where
  input : Input
  now : Int
  linkOpen : Bool

/-- The turn a node takes on a stimulus. -/
def answer (n : Node) (s : Stimulus) : Turn :=
  (s.input.run.run { node := n, now := s.now, linkOpen := s.linkOpen }).2

/-- The node after a sequence of stimuli. -/
def after : Node → List Stimulus → Node
  | n, [] => n
  | n, s :: ss => (n.answer s).node.after ss

/-- The events a node reports over a sequence of stimuli, in order. -/
def reported : Node → List Stimulus → List Event
  | _, [] => []
  | n, s :: ss => (n.answer s).events.toList ++ (n.answer s).node.reported ss

/-- How far a sequence of stimuli moves the node's transaction counter, turn by turn. This
is the number of ids drawn when no turn draws `2 ^ 32` or more. -/
def moves : Node → List Stimulus → Nat
  | _, [] => 0
  | n, s :: ss => ((n.answer s).node.lastTx - n.lastTx).toNat + (n.answer s).node.moves ss

theorem after_append (n : Node) (ss₁ ss₂ : List Stimulus) :
    n.after (ss₁ ++ ss₂) = (n.after ss₁).after ss₂ := by
  induction ss₁ generalizing n with
  | nil => rfl
  | cons s ss ih => exact ih _

theorem reported_append (n : Node) (ss₁ ss₂ : List Stimulus) :
    n.reported (ss₁ ++ ss₂) = n.reported ss₁ ++ (n.after ss₁).reported ss₂ := by
  induction ss₁ generalizing n with
  | nil => rfl
  | cons s ss ih => simp [reported, after, ih]

theorem moves_append (n : Node) (ss₁ ss₂ : List Stimulus) :
    n.moves (ss₁ ++ ss₂) = n.moves ss₁ + (n.after ss₁).moves ss₂ := by
  induction ss₁ generalizing n with
  | nil => simp [moves, after]
  | cons s ss ih =>
    simp only [List.cons_append, moves, after, ih]
    omega

end Node

/-! ### What no turn changes -/

namespace Turn

variable (t : Turn) (n : NodeRef) (dest : Address) (tx : UInt32) (b : Body)

@[simp] theorem sent_fixed :
    (t.sent dest tx b).node.config = t.node.config ∧
      (t.sent dest tx b).node.reportsEvents = t.node.reportsEvents := by
  unfold sent
  split <;> simp

@[simp] theorem storesSent_fixed (ps : List (Bytes × DocSet)) :
    (t.storesSent dest ps).node.config = t.node.config ∧
      (t.storesSent dest ps).node.reportsEvents = t.node.reportsEvents := by
  obtain ⟨tx, ms, h⟩ := storesSent_node dest ps t
  rw [h]
  exact ⟨rfl, rfl⟩

@[simp] theorem storeSent_fixed (p : Bytes × DocSet) :
    (t.storeSent dest p).node.config = t.node.config ∧
      (t.storeSent dest p).node.reportsEvents = t.node.reportsEvents := by
  simp [storeSent]

@[simp] theorem handedOver_fixed :
    (t.handedOver n).node.config = t.node.config ∧
      (t.handedOver n).node.reportsEvents = t.node.reportsEvents := by
  unfold handedOver
  split
  · exact ⟨rfl, rfl⟩
  · dsimp only
    split <;> simp

@[simp] theorem handedAll_fixed :
    (t.handedAll n).node.config = t.node.config ∧
      (t.handedAll n).node.reportsEvents = t.node.reportsEvents := by
  unfold handedAll
  split <;> simp

@[simp] theorem successorSet_fixed :
    (t.successorSet n).node.config = t.node.config ∧
      (t.successorSet n).node.reportsEvents = t.node.reportsEvents := by
  simp [successorSet_node]

@[simp] theorem predecessorSet_fixed :
    (t.predecessorSet n).node.config = t.node.config ∧
      (t.predecessorSet n).node.reportsEvents = t.node.reportsEvents := by
  unfold predecessorSet
  split <;> simp

@[simp] theorem pingsFailed_fixed (ps : List (Pending PingRequest)) :
    (t.pingsFailed ps).node.config = t.node.config ∧
      (t.pingsFailed ps).node.reportsEvents = t.node.reportsEvents := by
  obtain ⟨ms, h⟩ := pingsFailed_node ps t
  rw [h]
  exact ⟨rfl, rfl⟩

@[simp] theorem pingFailed_fixed (p : PingRequest) :
    (t.pingFailed p).node.config = t.node.config ∧
      (t.pingFailed p).node.reportsEvents = t.node.reportsEvents := by
  simp [pingFailed]

end Turn

/-- The turn's node has configuration `cfg` and reports events as `ev` says. -/
def Turn.Configured (cfg : Config) (ev : Bool) (t : Turn) : Prop :=
  t.node.config = cfg ∧ t.node.reportsEvents = ev

section Configured

variable {cfg : Config} {ev : Bool}

theorem lookupFor_configured {errand : Errand} {term : Bytes} :
    ⦃fun t => ⌜t.Configured cfg ev⌝⦄ Search.lookupFor errand term
    ⦃⇓ _ t => ⌜t.Configured cfg ev⌝⦄ := by
  mvcgen [Search.lookupFor, Ring.resolve, Ring.findSuccessor]
  all_goals simp_all [Turn.Configured]

theorem handle_configured {from_ : Address} {m : Message} :
    ⦃fun t => ⌜t.Configured cfg ev⌝⦄ Node.handle from_ m ⦃⇓ _ t => ⌜t.Configured cfg ev⌝⦄ := by
  mvcgen [Node.handle, Ring.pingRequest, Ring.pingAnswer, Ring.pingSucceeded,
    Ring.joinRequest, Ring.joinReply, Ring.initFinger, Ring.requestFinger, Ring.departure,
    Ring.stabilizeReply, Ring.stabilizeRequest, Ring.ringStatePing, Ring.findSuccessor,
    Ring.foundSuccessor, Search.lookupResolved, Ring.fixFinger, Search.keep, Search.fetch,
    Search.reply, Search.forward, lookupFor_configured, Search.fetchReply]
  all_goals simp_all [Turn.Configured]

theorem act_configured (op : Op) :
    ⦃fun t => ⌜t.Configured cfg ev⌝⦄ op.act ⦃⇓ _ t => ⌜t.Configured cfg ev⌝⦄ := by
  cases op with
  | publish _ =>
    mvcgen [Op.act, Search.publish, lookupFor_configured] invariants
    · ⇓ _ t => ⌜t.Configured cfg ev⌝
  | _ =>
    mvcgen [Op.act, Ring.join, Ring.bootstrap, Node.tick, Ring.stabilize, Ring.fixFinger,
      Ring.requestFinger, Ring.sendPing, Ring.auditPings, Ring.ringState, Ring.resolve,
      Ring.findSuccessor, Search.lookup, Search.query, Ring.leave]
    all_goals simp_all [Turn.Configured]

end Configured


/-! ### Over a run -/

namespace Node

theorem create_search {cfg : Config} {seed : UInt32} {ev : Bool} {n : Node}
    (h : Node.create cfg seed ev = .ok n) :
    n.search = {} ∧ n.config = cfg ∧ n.reportsEvents = ev := by
  unfold Node.create at h
  split at h
  · cases h
  · split at h
    · cases h
    · cases h
      exact ⟨rfl, rfl, rfl⟩

theorem answer_configured (n : Node) (s : Stimulus) :
    (n.answer s).node.config = n.config ∧ (n.answer s).node.reportsEvents = n.reportsEvents := by
  obtain ⟨input, now, linkOpen⟩ := s
  cases input with
  | act op =>
    exact NodeM.run_of_triple (@act_configured n.config n.reportsEvents op)
      (t := { node := n, now, linkOpen }) ⟨rfl, rfl⟩
  | handle from_ m =>
    exact NodeM.run_of_triple (@handle_configured n.config n.reportsEvents from_ m)
      (t := { node := n, now, linkOpen }) ⟨rfl, rfl⟩

theorem after_configured (n : Node) (ss : List Stimulus) :
    (n.after ss).config = n.config ∧ (n.after ss).reportsEvents = n.reportsEvents := by
  induction ss generalizing n with
  | nil => exact ⟨rfl, rfl⟩
  | cons s ss ih =>
    rw [after, (ih _).1, (ih _).2]
    exact answer_configured n s

end Node

end ChordSearch
