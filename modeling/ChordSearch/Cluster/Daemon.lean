import ChordSearch.Cluster.Basic

/-! # A node under its event loop

A daemon is one node running its event loop on a network of its own. Requests reach the
node through the loop, one at a time; after each request the network is flushed, so
datagrams the node sends to itself are handled before the next request. The clock does not
move, so no timer fires.

Stopping the loop lets the node leave the ring if it is a member; after that the node no
longer receives, and requests other than reading its metrics are refused with `node
stopped`. A request made with an already canceled context is refused before it runs.
-/

namespace ChordSearch

/-- Why a request to the event loop is refused. -/
inductive LoopError where
  | stopped
  | canceled
  | running
  deriving DecidableEq

/-- The text of a loop error. -/
def LoopError.message : LoopError → String
  | .stopped => "node stopped"
  | .canceled => "context canceled: context canceled"
  | .running => "node already running"

/-- The causes of a loop error. -/
def LoopError.causes : LoopError → List Cause
  | .stopped => [.stopped]
  | .canceled => [.canceled]
  | .running => []

/-- A node running its event loop. -/
structure Daemon where
  cluster : Cluster
  num : UInt32
  stopped : Bool := false

namespace Daemon

/-- Start the event loop of node `num` configured by `cfg`, reporting its events. -/
def start (table : List (Bytes × Bytes)) (cfg : Config) (seed : UInt32) :
    Except SetupError Daemon := do
  let c ← (Cluster.empty table).attach cfg seed true
  return ⟨c, cfg.node, false⟩

/-- The node. -/
def node? (d : Daemon) : Option Node := d.cluster.member? d.num

/-- Forget what earlier requests sent and reported. -/
def beginStep (d : Daemon) : Daemon := { d with cluster := d.cluster.beginStep }

/-- Deliver what is queued. -/
def settle (d : Daemon) : Daemon := { d with cluster := d.cluster.flush.1 }

/-- Starting the loop again is refused. -/
def runAgain (_ : Daemon) : LoopError := .running

/-- Run an operator line through the loop; `canceled` says the request's context is
already canceled. -/
def execute (d : Daemon) (canceled : Bool) (line : Bytes) :
    Except LoopError Node.Outcome × Daemon :=
  if canceled then (.error .canceled, d)
  else if d.stopped then (.error .stopped, d)
  else
    match d.cluster.turnOf d.num (Node.execute d.cluster.files line) with
    | (some o, c) => (.ok o, { d with cluster := c })
    | (none, c) => (.error .stopped, { d with cluster := c })

/-- Read the node through the loop. -/
def query {α : Type} (d : Daemon) (f : Node → α) : Except LoopError α :=
  if d.stopped then .error .stopped
  else
    match d.node? with
    | some n => .ok (f n)
    | none => .error .stopped

/-- Stop the loop: the node leaves the ring if it is a member and stops receiving. -/
def stop (d : Daemon) : Daemon :=
  if d.stopped then d
  else
    let c := (d.cluster.turnOf d.num do
      if (← NodeM.ring).inRing then
        let _ ← Ring.leave
        pure ()).2
    { d with cluster := c.detach d.num, stopped := true }

end Daemon

end ChordSearch
