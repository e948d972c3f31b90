import ChordSearch.Config
import ChordSearch.Net.Directory
import ChordSearch.Node.Metrics
import ChordSearch.Wire.Codec
import ChordSearch.Pending.Tracker
import ChordSearch.Ring.NodeRef
import ChordSearch.Index.Listing
import ChordSearch.Index.TermMap

/-! # Nodes and their turns

A node is its identity and configuration, the directory of the other nodes, its ring and
search state, the last transaction id it drew, and its metrics. Everything a node does
happens in a *turn*: handling one datagram, one operator command or one timer tick. A turn
sees the clock and whether the node's network endpoint is open, changes the node, and
leaves behind the datagrams it sent and the events it reported, in order.

Sending is metered: a message that does not encode is dropped unseen; one sent through a
closed endpoint counts as a send error; otherwise it is queued and counted by type.
-/

/-! ## Search state

The search layer of a node holds three things: the local index of terms not yet handed to
their owners, the store of postings this node owns, and the requests in flight. A lookup in
flight waits for the owner of a term's key and then either hands the term's postings over,
carries a search on to the owner, or reports the owner.
-/

namespace ChordSearch

/-- What to do once the owner of a term's key is known. -/
inductive Errand where
  /-- Hand the term's local postings to the owner. -/
  | store
  /-- Carry a search on: send the owner a fetch for the term, on behalf of `originator`,
  with the terms still to visit and the documents matched so far. -/
  | fetch (originator : UInt32) (remaining accumulated : List Bytes) (searchId : UInt32)
  /-- Report the owner. -/
  | check
  deriving DecidableEq

/-- A lookup in flight: its errand, the term and the term's key. -/
structure PendingLookup where
  errand : Errand
  term : Bytes
  key : RingId
  deriving DecidableEq

/-- A search in flight: its normalized terms and the node it entered through. -/
structure PendingSearch where
  terms : List Bytes
  via : NodeRef
  deriving DecidableEq

/-- A node's search layer. -/
structure SearchState where
  index : Index := Index.empty
  store : Store := Store.empty
  lookups : Tracker PendingLookup := Tracker.empty
  searches : Tracker PendingSearch := Tracker.empty

instance : Inhabited SearchState := ⟨{}⟩

end ChordSearch

/-! ## Events

A node reports what happens to it as events: ring changes (a new successor or predecessor,
joining, leaving, a neighbour's departure) and the outcome of operator requests (pings
received, answered or failed, search results, lookup results). Each event names the node,
its kind, a peer (empty when there is none), a message, and the time in milliseconds.
-/

namespace ChordSearch

/-- The kinds of event a node reports. -/
inductive EventKind where
  | nodeJoin | nodeLeave | successorChange | predecessorChange | neighbourDeparture
  | searchResult | lookupResult | pingReceived | pingSuccess | pingFailure
  deriving DecidableEq, Repr

/-- The name of an event kind. -/
def EventKind.name : EventKind → String
  | .nodeJoin => "node_join" | .nodeLeave => "node_leave"
  | .successorChange => "successor_change" | .predecessorChange => "predecessor_change"
  | .neighbourDeparture => "neighbour_departure" | .searchResult => "search_result"
  | .lookupResult => "lookup_result" | .pingReceived => "ping_received"
  | .pingSuccess => "ping_success" | .pingFailure => "ping_failure"

/-- One reported event. -/
structure Event where
  node : UInt32
  nodeId : RingId
  kind : EventKind
  peer : String
  message : Bytes
  time : Int
  deriving DecidableEq

end ChordSearch

/-! ## Ring membership state

What a node knows of its place in the ring: its neighbours, whether it is a member or on its
way in, its finger table, and the pings it has sent and not yet seen answered.
-/

/-! ## Finger tables

Entry `i` of a node's finger table starts at `self + 2^i` and names the first node known to
follow that start. A complete table has one entry per bit of the ring; a table under
construction grows one entry at a time.

`Finger.runs` summarises a table as maximal runs of consecutive entries with the same owner.
-/

namespace ChordSearch

/-- One finger: its index, the position it starts at, and the node that owns that position
as far as this node knows. -/
structure Finger where
  index : Nat
  start : RingId
  owner : NodeRef
  deriving DecidableEq

namespace Finger

/-- Extend runs (last run first) by one owner at an index. -/
def addToRuns (acc : List (Nat × Nat × NodeRef)) (f : Finger) : List (Nat × Nat × NodeRef) :=
  match acc with
  | (first, _, o) :: rest => if o.same f.owner then (first, f.index, o) :: rest
    else (f.index, f.index, f.owner) :: acc
  | [] => [(f.index, f.index, f.owner)]

/-- Maximal runs of consecutive fingers with the same owner, as first index, last index and
owner. -/
def runs (fs : List Finger) : List (Nat × Nat × NodeRef) := (fs.foldl addToRuns []).reverse

end Finger

end ChordSearch

namespace ChordSearch

/-- A ping awaiting its answer. -/
structure PingRequest where
  tx : UInt32
  dest : NodeRef
  message : Bytes
  sentAt : Int
  deriving DecidableEq

/-- A node's view of the ring. -/
structure Membership where
  successor : NodeRef := NodeRef.unset
  predecessor : NodeRef := NodeRef.unset
  inRing : Bool := false
  joining : Bool := false
  fingers : Array Finger := #[]
  pings : Tracker PingRequest := Tracker.empty
  traceStabilize : Bool := false

instance : Inhabited Membership := ⟨{}⟩

end ChordSearch

namespace ChordSearch

/-- A node of the ring. -/
structure Node where
  self : NodeRef
  config : Config
  directory : Directory
  ring : Membership := {}
  search : SearchState := {}
  lastTx : UInt32
  metrics : Metrics := {}
  reportsEvents : Bool

/-- Why a node cannot be set up. -/
inductive SetupError where
  | config (e : ConfigError)
  | table (e : DirectoryError)
  deriving DecidableEq

/-- The text of a setup error. -/
def SetupError.message : SetupError → String
  | .config e => e.loadMessage
  | .table e => "invalid node table: " ++ e.message

/-- Why a ring or search operation refuses to run. -/
inductive NodeError where
  | notInRing
  | alreadyInRing
  | unsetLandmark
  | unsetEntry
  | emptyLookup
  | fileMissing (path : Bytes)
  | listing (path : Bytes) (e : ListingError)
  deriving DecidableEq

/-- The text of a node error. -/
def NodeError.message : NodeError → String
  | .notInRing => "node is not in the ring"
  | .alreadyInRing => "node is already in the ring"
  | .unsetLandmark => "landmark cannot be unset"
  | .unsetEntry => "search entry node cannot be unset"
  | .emptyLookup => "lookup term cannot be empty"
  | .fileMissing p => "failed to open index file: open " ++ Bytes.show p ++
      ": no such file or directory"
  | .listing p e => Bytes.show p ++ ": " ++ e.message

/-- The causes of a node error. -/
def NodeError.causes : NodeError → List Cause
  | .notInRing => [.notInRing]
  | .alreadyInRing => [.alreadyInRing]
  | .fileMissing _ => [.fileMissing]
  | .listing _ e => e.causes
  | _ => []

namespace Node

/-- A node set up from a configuration: the configuration must be valid and the node table
must read as a directory. Transaction ids are drawn after `seed`. -/
def create (cfg : Config) (seed : UInt32) (reportsEvents : Bool) : Except SetupError Node :=
  match cfg.validate with
  | .error e => .error (.config e)
  | .ok () =>
    match Directory.ofTable cfg.nodes with
    | .error e => .error (.table e)
    | .ok dir =>
      let host := match Address.parse cfg.host with
        | .ok a => a
        | .error _ => .unset
      .ok { self := NodeRef.make cfg.node host, config := cfg, directory := dir, lastTx := seed,
            reportsEvents }

end Node

/-- One turn of a node: the node, the clock in nanoseconds, whether its endpoint is open,
and what the turn has sent and reported so far. -/
structure Turn where
  node : Node
  now : Int
  linkOpen : Bool
  outgoing : Array (Address × Bytes) := #[]
  events : Array Event := #[]

/-- Computations inside a node's turn. -/
abbrev NodeM := StateM Turn

namespace NodeM

/-- The node as it stands. -/
def node : NodeM Node := do return (← get).node

/-- The node's own reference. -/
def self : NodeM NodeRef := do return (← get).node.self

/-- The ring state as it stands. -/
def ring : NodeM Membership := do return (← get).node.ring

/-- The search state as it stands. -/
def search : NodeM SearchState := do return (← get).node.search

/-- The clock, in nanoseconds. -/
def now : NodeM Int := do return (← get).now

/-- Change the node. -/
def modifyNode (f : Node → Node) : NodeM Unit :=
  modify fun t => { t with node := f t.node }

/-- Change the ring state. -/
def modifyRing (f : Membership → Membership) : NodeM Unit :=
  modifyNode fun n => { n with ring := f n.ring }

/-- Change the search state. -/
def modifySearch (f : SearchState → SearchState) : NodeM Unit :=
  modifyNode fun n => { n with search := f n.search }

/-- Change the metrics. -/
def modifyMetrics (f : Metrics → Metrics) : NodeM Unit :=
  modifyNode fun n => { n with metrics := f n.metrics }

/-- Draw the next transaction id; ids wrap around after `2^32 - 1`. -/
def nextTx : NodeM UInt32 := do
  let tx := (← node).lastTx + 1
  modifyNode fun n => { n with lastTx := tx }
  return tx

/-- Send a message through the metered endpoint. -/
def transmit (dest : Address) (m : Message) : NodeM Unit := do
  match m.encode with
  | .error _ => pure ()
  | .ok data =>
    if (← get).linkOpen then
      modify fun t => { t with outgoing := t.outgoing.push (dest, data) }
      modifyMetrics fun ms => { ms with sent := ms.sent.bump m.body.kind.name }
    else
      modifyMetrics fun ms => { ms with sendErrors := ms.sendErrors + 1 }

/-- Send a ring message; a message to no address is dropped. -/
def send (dest : Address) (tx : UInt32) (body : Body) : NodeM Unit :=
  if dest.isSet then transmit dest ⟨tx, body⟩ else pure ()

/-- Report an event, when the node has somewhere to report it. -/
def report (kind : EventKind) (peer : String) (message : Bytes) : NodeM Unit := do
  let t ← get
  if t.node.reportsEvents then
    let e : Event := ⟨t.node.self.num, t.node.self.id, kind, peer, message, t.now / 1000000⟩
    set { t with events := t.events.push e }

end NodeM

end ChordSearch
