import ChordSearch.Search.Service

/-! # Building and repairing the finger table

A node that joins builds its finger table one entry at a time: entry `i` is added with an
unknown owner and a request for the owner of its start goes round the ring; the answer
fills it in and adds entry `i + 1`. Once the table is complete, each answer and each
stabilize tick repairs it from an entry onwards: an entry takes its predecessor entry's
owner while that owner is known to lie beyond the entry's start, and the first entry for
which that is not known is asked for again.
-/

/-! ## Changing neighbours

A node's successor and predecessor change only through `setSuccessor` and
`setPredecessor`. Setting a neighbour to the node already there does nothing; otherwise the
change is reported, and a new predecessor is handed the stored terms it now owns.
-/

namespace ChordSearch.Ring

open NodeM

/-- Make `n` the successor. -/
def setSuccessor (n : NodeRef) : NodeM Unit := do
  let old := (← ring).successor
  if old.same n then return
  modifyRing fun r => { r with successor := n }
  report .successorChange n.toText
    (Bytes.ofString ("successor " ++ old.toText ++ " -> " ++ n.toText))

/-- Make `n` the predecessor and hand it the stored terms it owns. -/
def setPredecessor (n : NodeRef) : NodeM Unit := do
  let old := (← ring).predecessor
  if old.same n then return
  modifyRing fun r => { r with predecessor := n }
  report .predecessorChange n.toText
    (Bytes.ofString ("predecessor " ++ old.toText ++ " -> " ++ n.toText))
  Search.predecessorChanged n

end ChordSearch.Ring

namespace ChordSearch.Ring

open NodeM

/-- Ask the successor for the owner of a finger's start. -/
def requestFinger (f : Finger) : NodeM Unit := do
  let tx ← nextTx
  let me ← self
  send (← ring).successor.addr tx (.findSuccessorReq me f.start (UInt32.ofNat f.index))

/-- Add entry `i - 1` (fingers count from zero) when the table holds exactly the entries
before it, and ask for its owner. -/
def initFinger (i : Nat) : NodeM Unit := do
  if i < 1 || i > idBits || (← ring).fingers.size != i - 1 then return
  let f : Finger := ⟨i - 1, (← self).id.addPow2 (i - 1), NodeRef.unset⟩
  modifyRing fun r => { r with fingers := r.fingers.push f }
  requestFinger f

/-- Copy owners forward through the entries at `js`, stopping at the first entry whose owner
must be asked for; that entry is returned. -/
def carryOwners (fs : Array Finger) : List Nat → Array Finger × Option Finger
  | [] => (fs, none)
  | j :: js =>
    match fs[j - 1]?, fs[j]? with
    | some prev, some curr =>
      if prev.owner.id = prev.start || Arc.covers prev.start prev.owner.id curr.start then
        (fs, some curr)
      else carryOwners (fs.modify j fun c => { c with owner := prev.owner }) js
    | _, _ => (fs, none)

/-- Repair a complete table from entry `i - 1` onwards (from entry 1 at the earliest). -/
def fixFinger (i : Nat) : NodeM Unit := do
  let fs := (← ring).fingers
  if fs.size != idBits then return
  let first := max i 2 - 1
  let (fs', ask) := carryOwners fs (List.range' first (idBits - first))
  modifyRing fun r => { r with fingers := fs' }
  match ask with
  | some f => requestFinger f
  | none => pure ()

/-- An answer naming the owner of `start`: a lookup's answer goes to the search layer;
a finger's answer fills in its entry, then the table grows or is repaired from the next
entry. Answers that match no entry are dropped. -/
def foundSuccessor (tx : UInt32) (owner : NodeRef) (start : RingId) (index : UInt32) :
    NodeM Unit := do
  if index == lookupIndex then
    Search.lookupResolved owner start tx
    return
  let r ← ring
  if !r.inRing then return
  let idx := index.toNat
  match r.fingers[idx]? with
  | none => pure ()
  | some f =>
    if f.start != start then return
    modifyRing fun r => { r with fingers := r.fingers.modify idx fun c => { c with owner := owner } }
    if r.fingers.size < idBits then initFinger (idx + 2) else fixFinger (idx + 2)

end ChordSearch.Ring
