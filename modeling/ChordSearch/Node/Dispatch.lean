import ChordSearch.Ring.Join
import ChordSearch.Ring.Ping
import ChordSearch.Ring.Fingers

/-! # Handling a datagram

A datagram that does not decode is only counted. A decoded one is counted by type and
handed to the ring layer or, for stores, fetches and fetch answers, to the search layer.
-/

/-! ## Stabilization

On each tick a member asks its successor for the successor's predecessor and repairs its
finger table. A node asked adopts the asker as predecessor when it has none, when it is
alone, or when the asker lies strictly between its predecessor and itself; it then answers
with its predecessor. The asker takes that predecessor as its new successor when it lies
strictly between the asker and its successor.
-/

namespace ChordSearch.Ring

open NodeM

/-- One stabilize tick. -/
def stabilize : NodeM Unit := do
  let r ← ring
  if !r.inRing then return
  let tx ← nextTx
  send r.successor.addr tx (.stabilizeReq (← self))
  modifyRing fun r => { r with fingers := r.fingers.modify 0 fun f => { f with owner := r.successor } }
  fixFinger 2

/-- Whether a node with predecessor `pred` adopts `sender` as its predecessor. -/
def adopts (me pred sender : NodeRef) : Bool :=
  if sender.isUnset then false
  else if pred.isUnset then true
  else if pred.same me && !sender.same me then true
  else Arc.inside pred.id sender.id me.id

/-- A stabilize request from `sender`. -/
def stabilizeRequest (tx : UInt32) (sender : NodeRef) : NodeM Unit := do
  let r ← ring
  if !r.inRing then return
  if adopts (← self) r.predecessor sender then setPredecessor sender
  send sender.addr tx (.stabilizeRsp (← ring).predecessor)

/-- The successor's answer naming its predecessor `p`. -/
def stabilizeReply (p : NodeRef) : NodeM Unit := do
  let r ← ring
  if !r.inRing then return
  let me ← self
  if p.isUnset || p.same me then return
  if Arc.inside me.id p.id r.successor.id then setSuccessor p

end ChordSearch.Ring

namespace ChordSearch.Node

open NodeM

/-- Hand a decoded message from `from_` to the ring layer or, for stores, fetches and fetch
answers, to the search layer. -/
def handle (from_ : Address) (msg : Message) : NodeM Unit :=
  let tx := msg.tx
  match msg.body with
  | .pingReq t => Ring.pingRequest from_ tx t
  | .pingRsp _ => Ring.pingAnswer tx
  | .joinReq l r => Ring.joinRequest tx l r
  | .joinRsp r l s => Ring.joinReply tx r l s
  | .departureReq s c => Ring.departure s c
  | .stabilizeRsp p => Ring.stabilizeReply p
  | .stabilizeReq s => Ring.stabilizeRequest tx s
  | .ringStatePing o => Ring.ringStatePing tx o
  | .findSuccessorReq n s i => Ring.findSuccessor tx n s i
  | .findSuccessorRsp n s i => Ring.foundSuccessor tx n s i
  | .storeReq t d => Search.keep t d
  | .fetchReq o k r a => Search.fetch tx o k r a
  | .fetchRsp d => Search.fetchReply tx d

/-- Handle a datagram from `from_`. -/
def receive (from_ : Address) (data : Bytes) : NodeM Unit := do
  match Message.decode data with
  | .error _ => modifyMetrics fun m => { m with decodeErrors := m.decodeErrors + 1 }
  | .ok msg =>
    modifyMetrics fun m => { m with received := m.received.bump msg.body.kind.name }
    handle from_ msg

/-- The stabilize tick: stabilize, then refresh the gauges. -/
def tick : NodeM Unit := do
  Ring.stabilize
  let n ← node
  modifyMetrics fun m =>
    { m with inRing := if n.ring.inRing then 1 else 0, storedTerms := n.search.store.size,
             fingerEntries := n.ring.fingers.size }

end ChordSearch.Node
