import ChordSearch.Ring.Fingers

/-! # Pings and the ring-state walk

A ping is answered by echoing its text. The sender remembers each ping until its answer
arrives or an audit finds it older than the ping timeout; success and failure are counted
and reported. A ring-state walk passes a message around the ring until it comes back to the
node that started it.
-/

namespace ChordSearch.Ring

open NodeM

/-- Count and report a ping that failed. -/
def pingFailed (p : PingRequest) : NodeM Unit := do
  modifyMetrics fun m => { m with pings := m.pings.bump "failure" }
  report .pingFailure p.dest.toText (Bytes.ofString ("ping " ++ toString p.tx.toNat ++ " to " ++
    p.dest.toText ++ " failed"))

/-- Count and report a ping that was answered. -/
def pingSucceeded (p : PingRequest) : NodeM Unit := do
  modifyMetrics fun m => { m with pings := m.pings.bump "success" }
  report .pingSuccess p.dest.toText (Bytes.ofString ("ping " ++ toString p.tx.toNat ++ " to " ++
    p.dest.toText ++ " answered: ") ++ p.message)

/-- Ping `dest`; a ping to an unset node fails at once. The result is its transaction id. -/
def sendPing (dest : NodeRef) (message : Bytes) : NodeM UInt32 := do
  let tx ← nextTx
  let req : PingRequest := ⟨tx, dest, message, ← now⟩
  if dest.isUnset then
    pingFailed req
  else
    let at_ ← now
    modifyRing fun r => { r with pings := r.pings.add at_ tx req }
    send dest.addr tx (.pingReq message)
  return tx

/-- Fail every ping older than the ping timeout, oldest first. The result is how many. -/
def auditPings : NodeM Nat := do
  let n ← node
  let (gone, kept) := n.ring.pings.expire (← now) n.config.pingTimeout
  modifyRing fun r => { r with pings := kept }
  gone.forM fun e => pingFailed e.value
  return gone.length

/-- How the sender of a datagram is named: by its number when the directory knows the
address. -/
def peerName (d : Directory) (from_ : Address) : String :=
  match d.reverseLookup from_ with
  | .ok num => "Node" ++ toString num.toNat ++ "(" ++ from_.toText ++ ")"
  | .error _ => from_.toText

/-- A ping from `from_`: report it and echo its text. -/
def pingRequest (from_ : Address) (tx : UInt32) (message : Bytes) : NodeM Unit := do
  let peer := peerName (← node).directory from_
  report .pingReceived peer (Bytes.ofString ("ping from " ++ peer ++ ": ") ++ message)
  send from_ tx (.pingRsp message)

/-- The answer to ping `tx`; answers to no ping in flight are dropped. -/
def pingAnswer (tx : UInt32) : NodeM Unit := do
  let (found, rest) := (← ring).pings.take tx
  match found with
  | none => pure ()
  | some e =>
    modifyRing fun r => { r with pings := rest }
    pingSucceeded e.value

/-- Start a ring-state walk; a node alone in its ring sends nothing. -/
def ringState : NodeM (Except NodeError Unit) := do
  let r ← ring
  if !r.inRing then return .error .notInRing
  let me ← self
  if r.successor.same me then return .ok ()
  let tx ← nextTx
  send r.successor.addr tx (.ringStatePing me)
  return .ok ()

/-- Pass a ring-state walk on, unless it started here. -/
def ringStatePing (tx : UInt32) (originator : NodeRef) : NodeM Unit := do
  if originator.same (← self) then return
  let r ← ring
  if !r.inRing then return
  send r.successor.addr tx (.ringStatePing originator)

end ChordSearch.Ring
