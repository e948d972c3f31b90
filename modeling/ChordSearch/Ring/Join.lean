import ChordSearch.Ring.Fingers

/-! # Joining and leaving

A node joins through a landmark. Naming itself, it creates a ring of one: it is its own
successor and predecessor and every finger points at it. Otherwise its request travels
along successors to the node whose successor owns the joiner's position; that node sends
the answer, naming the joiner's successor, to its successor, and the answer travels on to
the landmark, which relays it to the joiner. The joiner then builds its finger table.

A leaving node hands its stored terms to its successor and tells both neighbours to close
the gap.
-/

namespace ChordSearch.Ring

open NodeM

/-- Create a ring of one. -/
def bootstrap : NodeM Unit := do
  modifyRing fun r => { r with inRing := true, joining := false }
  let me ← self
  setSuccessor me
  setPredecessor me
  let fs := (List.range idBits).map fun i => (⟨i, me.id.addPow2 i, me⟩ : Finger)
  modifyRing fun r => { r with fingers := fs.toArray }
  report .nodeJoin "" (Bytes.ofString "created new ring")

/-- Join the ring through `landmark`. -/
def join (landmark : NodeRef) : NodeM (Except NodeError Unit) := do
  if (← ring).inRing then return .error .alreadyInRing
  if landmark.isUnset then return .error .unsetLandmark
  if landmark.same (← self) then
    bootstrap
    return .ok ()
  modifyRing fun r => { r with joining := true }
  let tx ← nextTx
  send landmark.addr tx (.joinReq landmark (← self))
  return .ok ()

/-- A join request: answer it when the requester falls between this node and its
successor, pass it on otherwise. -/
def joinRequest (tx : UInt32) (landmark requester : NodeRef) : NodeM Unit := do
  let r ← ring
  if !r.inRing then return
  if Arc.owns (← self).id requester.id r.successor.id then
    send r.successor.addr tx (.joinRsp requester landmark r.successor)
  else
    send r.successor.addr tx (.joinReq landmark requester)

/-- A join answer: the landmark relays it to the requester, the requester enters the ring,
and any other member passes it on. -/
def joinReply (tx : UInt32) (requester landmark successor : NodeRef) : NodeM Unit := do
  let me ← self
  if me.same landmark then
    send requester.addr tx (.joinRsp requester landmark successor)
  else if me.same requester then
    if (← ring).inRing then return
    modifyRing fun r => { r with inRing := true, joining := false, fingers := #[] }
    setSuccessor successor
    report .nodeJoin successor.toText (Bytes.ofString "joined ring")
    initFinger 1
  else
    let r ← ring
    if !r.inRing then return
    send r.successor.addr tx (.joinRsp requester landmark successor)

/-- Leave the ring. -/
def leave : NodeM (Except NodeError Unit) := do
  let r ← ring
  if !r.inRing then return .error .notInRing
  Search.leaving r.successor
  let me ← self
  if !r.successor.same me then
    let tx ← nextTx
    send r.successor.addr tx (.departureReq me r.predecessor)
    if !r.predecessor.isUnset && !r.predecessor.same me then
      let tx' ← nextTx
      send r.predecessor.addr tx' (.departureReq me r.successor)
  modifyRing fun r =>
    { r with
      inRing := false, joining := false, successor := NodeRef.unset,
      predecessor := NodeRef.unset, fingers := #[], pings := r.pings.clear }
  report .nodeLeave "" (Bytes.ofString "left ring")
  return .ok ()

/-- A neighbour's notice that it left, naming the node on its other side. -/
def departure (sender conn : NodeRef) : NodeM Unit := do
  if !(← ring).inRing then return
  if (← ring).predecessor.same sender then setPredecessor conn
  if (← ring).successor.same sender then setSuccessor conn
  report .neighbourDeparture sender.toText (Bytes.ofString "neighbour left")

end ChordSearch.Ring
