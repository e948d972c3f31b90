import ChordSearch.Node.Command

/-! # Clusters

A cluster is a set of nodes on one in-memory network, with one clock and one directory of
files. Each node has an endpoint at its address. A datagram sent is appended to a single
queue; delivering pops the queue's head and hands it to the node at its destination, whose
turn may append more. A datagram is lost when a partition cuts its source or destination
(it then counts as dropped), when no endpoint is at its destination, or when that endpoint
is closed. A node whose endpoint is closed can still act, but its sends fail.

A flush delivers until the queue is empty, at most `flushLimit` datagrams; what is left
after that is discarded and the flush reports itself busy. Every datagram taken off the
queue, delivered or not, is recorded for the current step, as is every event reported.
-/

/-! ## First-in first-out queues

A queue is a front list, read from its head, and a back list holding later items newest
first. `toList` is the queue in order; `push` adds at its end and `pop?` takes its head.
-/

namespace ChordSearch

/-- A first-in first-out queue. -/
structure Fifo (α : Type) where
  front : List α := []
  back : List α := []

namespace Fifo

variable {α : Type}

/-- The empty queue. -/
def empty : Fifo α := {}

/-- The items in queue order. -/
def toList (q : Fifo α) : List α := q.front ++ q.back.reverse

/-- Add an item at the end. -/
def push (q : Fifo α) (a : α) : Fifo α := { q with back := a :: q.back }

/-- The first item and the queue after it. -/
def pop? (q : Fifo α) : Option (α × Fifo α) :=
  match q.front with
  | a :: f => some (a, { q with front := f })
  | [] =>
    match q.back.reverse with
    | a :: f => some (a, ⟨f, []⟩)
    | [] => none

/-- The number of items. -/
def size (q : Fifo α) : Nat := q.front.length + q.back.length

@[simp] theorem toList_push (q : Fifo α) (a : α) : (q.push a).toList = q.toList ++ [a] := by
  simp [push, toList]

theorem toList_pop? (q : Fifo α) :
    (q.pop?.map fun (a, r) => a :: r.toList) = (match q.toList with
      | [] => none
      | l => some l) := by
  rcases q with ⟨f, b⟩
  cases f with
  | cons a f => simp [pop?, toList]
  | nil =>
    simp only [pop?, toList, List.nil_append]
    cases h : b.reverse with
    | nil => simp
    | cons a f => simp

end Fifo

end ChordSearch

namespace ChordSearch

/-- A datagram on the network. -/
structure Datagram where
  src : Address
  dst : Address
  data : Bytes
  deriving DecidableEq

/-- A datagram taken off the queue, and whether it was dropped rather than delivered. -/
structure Delivery where
  datagram : Datagram
  dropped : Bool
  deriving DecidableEq

/-- A network endpoint: its address and whether it is closed. -/
structure Endpoint where
  addr : Address
  closed : Bool := false
  deriving DecidableEq

/-- Nodes on one network, with a clock in nanoseconds and named files. -/
structure Cluster where
  table : List (Bytes × Bytes) := []
  members : Array Node := #[]
  endpoints : List Endpoint := []
  queue : Fifo Datagram := {}
  cut : List Address := []
  clock : Int := 1704067200000 * 1000000
  files : List (Bytes × Bytes) := []
  seen : Array Delivery := #[]
  events : Array Event := #[]

namespace Cluster

/-- The most datagrams one flush delivers. -/
def flushLimit : Nat := 5000

/-- The cluster with no nodes for a node table. -/
def empty (table : List (Bytes × Bytes)) : Cluster := { table }

/-- Forget what earlier steps took off the queue and reported. -/
def beginStep (c : Cluster) : Cluster := { c with seen := #[], events := #[] }

/-- The position of the node numbered `num` among the members (the latest attached). -/
def memberIndex (c : Cluster) (num : UInt32) : Option Nat :=
  ((List.range c.members.size).filter fun i =>
    match c.members[i]? with
    | some n => n.self.num == num
    | none => false).getLast?

/-- The node numbered `num`. -/
def member? (c : Cluster) (num : UInt32) : Option Node :=
  (c.memberIndex num).bind fun i => c.members[i]?

/-- Whether the endpoint at an address is open. -/
def linkOpen (c : Cluster) (a : Address) : Bool :=
  match c.endpoints.find? (·.addr = a) with
  | some e => !e.closed
  | none => false

/-- The member that datagrams to an address reach: the latest attached at that address,
when the endpoint there is open. -/
def handlerOf (c : Cluster) (a : Address) : Option Nat :=
  if c.linkOpen a then
    ((List.range c.members.size).filter fun i =>
      match c.members[i]? with
      | some n => decide (n.self.addr = a)
      | none => false).getLast?
  else none

/-- Give member `i` a turn: run `act` on it and queue what it sends. -/
def turn {α : Type} (c : Cluster) (i : Nat) (act : NodeM α) : Option α × Cluster :=
  match c.members[i]? with
  | none => (none, c)
  | some n =>
    let (a, t) := act.run { node := n, now := c.clock, linkOpen := c.linkOpen n.self.addr }
    let q := t.outgoing.foldl (fun q (dst, d) => q.push ⟨n.self.addr, dst, d⟩) c.queue
    (some a, { c with members := c.members.modify i fun _ => t.node, queue := q,
                      events := c.events ++ t.events })

/-- Give the node numbered `num` a turn. -/
def turnOf {α : Type} (c : Cluster) (num : UInt32) (act : NodeM α) : Option α × Cluster :=
  match c.memberIndex num with
  | some i => c.turn i act
  | none => (none, c)

/-- Deliver one datagram taken off the queue. -/
def deliverOne (c : Cluster) (d : Datagram) : Cluster :=
  let cutOff := c.cut.contains d.src || c.cut.contains d.dst
  let c := { c with seen := c.seen.push ⟨d, cutOff⟩ }
  if cutOff then c
  else
    match c.handlerOf d.dst with
    | some i => (c.turn i (Node.receive d.src d.data)).2
    | none => c

/-- Deliver at most `k` datagrams; the flag says whether datagrams are left after `k`
deliveries. -/
def deliverUpTo : Nat → Cluster → Cluster × Bool
  | 0, c => (c, c.queue.size != 0)
  | k + 1, c =>
    match c.queue.pop? with
    | none => (c, false)
    | some (d, q) => deliverUpTo k (deliverOne { c with queue := q } d)

/-- Discard the whole queue, counting every datagram as dropped. The result is how many. -/
def discard (c : Cluster) : Cluster × Nat :=
  let ds := c.queue.toList
  ({ c with queue := {}, seen := c.seen ++ (ds.map fun d => ⟨d, true⟩).toArray }, ds.length)

/-- Deliver until the queue is empty, at most `flushLimit` datagrams; the flag says the
limit was reached with datagrams left, which are discarded. -/
def flush (c : Cluster) : Cluster × Bool :=
  let (c, busy) := deliverUpTo flushLimit c
  if busy then ((discard c).1, true) else (c, false)

/-- One stabilize round: every member in attach order ticks, each tick followed by a flush.
The flag says some flush was busy. -/
def stabilizeRound (c : Cluster) : Cluster × Bool :=
  (List.range c.members.size).foldl (fun (c, busy) i =>
    let (c, b) := (c.turn i Node.tick).2.flush
    (c, busy || b)) (c, false)

/-- `rounds` stabilize rounds. -/
def stabilizeAll (c : Cluster) (rounds : Nat) : Cluster × Bool :=
  (List.range rounds).foldl (fun (c, busy) _ =>
    let (c, b) := c.stabilizeRound
    (c, busy || b)) (c, false)

/-- Move the clock on by `ms` milliseconds. -/
def advance (c : Cluster) (ms : Int) : Cluster := { c with clock := c.clock + ms * 1000000 }

/-- The address the node table gives a node number. -/
def addressOf (c : Cluster) (num : UInt32) : Option Address :=
  match Directory.ofTable c.table with
  | .ok d => (d.resolve num).toOption
  | .error _ => none

/-- Cut the nodes numbered `nums` off the network. -/
def partition (c : Cluster) (nums : List UInt32) : Cluster :=
  { c with cut := c.cut ++ nums.filterMap c.addressOf }

/-- Undo every cut. -/
def heal (c : Cluster) : Cluster := { c with cut := [] }

/-- Close the endpoint of the node numbered `num`. -/
def detach (c : Cluster) (num : UInt32) : Cluster :=
  match c.member? num with
  | none => c
  | some n =>
    { c with endpoints := c.endpoints.map fun e =>
        if e.addr = n.self.addr then { e with closed := true } else e }

/-- Add a node set up from `cfg`, with an endpoint at its address (an endpoint already
there is kept as it is). -/
def attach (c : Cluster) (cfg : Config) (seed : UInt32) (reportsEvents : Bool) :
    Except SetupError Cluster := do
  let n ← Node.create cfg seed reportsEvents
  let eps := if c.endpoints.any (·.addr = n.self.addr) then c.endpoints
    else c.endpoints ++ [⟨n.self.addr, false⟩]
  return { c with members := c.members.push n, endpoints := eps }

/-- The configuration of node `num` in a cluster over `table`: the defaults, bound to the
node's own address in the table. -/
def configFor (table : List (Bytes × Bytes)) (num : UInt32) : Config :=
  let cfg : Config := { node := num, nodes := table }
  { cfg with host := (cfg.lookup (Config.keyOf num)).getD [] }

/-- The default first transaction id of node `num` comes after `num · 2^20`. -/
def defaultSeed (num : UInt32) : UInt32 := num <<< 20

/-- Store a file under a name, replacing any file of that name. -/
def writeFile (c : Cluster) (name text : Bytes) : Cluster :=
  { c with files := c.files.filter (·.1 != name) ++ [(name, text)] }

/-- Run an operator line at the node numbered `num`. -/
def exec (c : Cluster) (num : UInt32) (line : Bytes) : Option Node.Outcome × Cluster :=
  c.turnOf num (Node.exec c.files line)

end Cluster

end ChordSearch
