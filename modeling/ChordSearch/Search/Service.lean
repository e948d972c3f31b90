import ChordSearch.Text.Quoted
import ChordSearch.Node.Basic
import ChordSearch.Ring.Arc

/-! # The search service

Terms are published by handing each term's postings to the node that owns the term's key.
A search for several terms walks the owners of its terms one after another: each owner
intersects the documents matched so far with its postings for one term and passes the
result on, until no term or no document is left; the last owner answers the node that
asked. When a node learns of a new predecessor it hands over the terms it no longer owns;
when it leaves the ring it hands all of them to its successor.

Each step that needs an owner starts a lookup and records an errand under the lookup's
transaction id; `lookupResolved` carries the errand out once the owner is known.
-/

/-! ## Routing a key to its owner

A request for the owner of a key travels along successors until it reaches the node whose
successor owns the key, which answers the requester directly. Finger requests and lookups
travel the same way; a lookup carries the reserved index `lookupIndex`.
-/

namespace ChordSearch.Ring

open NodeM

/-- Handle a request for the owner of `start` on behalf of `node`: answer it when the key
lies between this node and its successor, pass it on to the successor otherwise. Nodes
outside the ring ignore it. -/
def findSuccessor (tx : UInt32) (node : NodeRef) (start : RingId) (index : UInt32) :
    NodeM Unit := do
  let r ← ring
  if r.inRing then
    let me ← self
    if Arc.owns me.id start r.successor.id then
      send node.addr tx (.findSuccessorRsp r.successor start index)
    else
      send r.successor.addr tx (.findSuccessorReq node start index)

/-- Start a lookup of the owner of `key` under transaction `tx`. -/
def resolve (key : RingId) (tx : UInt32) : NodeM (Except NodeError Unit) := do
  if !(← ring).inRing then return .error .notInRing
  findSuccessor tx (← self) key lookupIndex
  return .ok ()

end ChordSearch.Ring

namespace ChordSearch.Search

open NodeM

/-- Hand a term's postings to `dest` under a fresh transaction id. -/
def sendStore (dest : Address) (term : Bytes) (docs : DocSet) : NodeM Unit := do
  let tx ← nextTx
  transmit dest ⟨tx, .storeReq term docs.toList⟩

/-- Hand every term of a map to `dest`, in ascending term order. -/
def sendAll (dest : Address) (m : TermMap) : NodeM Unit :=
  m.entries.forM fun (t, d) => sendStore dest t d

/-- Start a lookup of the owner of `term`'s key, to carry out `errand` once it is known. -/
def lookupFor (errand : Errand) (term : Bytes) : NodeM (Except NodeError Unit) := do
  if !(← ring).inRing then return .error .notInRing
  let tx ← nextTx
  let key := RingId.hash term
  let at_ ← now
  modifySearch fun s => { s with lookups := s.lookups.add at_ tx ⟨errand, term, key⟩ }
  match ← Ring.resolve key tx with
  | .error e =>
    modifySearch fun s => { s with lookups := (s.lookups.take tx).2 }
    return .error e
  | .ok () => return .ok ()

/-- Merge an index into the local one and start handing every local term to its owner. The
result is the number of terms started. -/
def publish (ix : Index) : NodeM (Except NodeError Nat) := do
  modifySearch fun s => { s with index := s.index.merge ix }
  if !(← ring).inRing then return .error .notInRing
  let terms := (← search).index.terms
  let mut started := 0
  for t in terms do
    match ← lookupFor .store t with
    | .error e => return .error e
    | .ok () => started := started + 1
  return .ok started

/-- Publish the listing stored under `path` among `files`. -/
def publishFile (files : List (Bytes × Bytes)) (path : Bytes) : NodeM (Except NodeError Nat) :=
  match files.find? (·.1 == path) with
  | none => return .error (.fileMissing path)
  | some (_, text) =>
    match Index.parse text with
    | .error e => return .error (.listing path e)
    | .ok ix => publish ix

/-- Send a search for the normalized, non-empty `terms` through `via`. The result is the
search's transaction id. -/
def query (via : NodeRef) (terms : List Bytes) : NodeM (Except NodeError UInt32) := do
  if via.isUnset then return .error .unsetEntry
  let query := (DocSet.ofList ((terms.map normalize).filter (!·.isEmpty))).toList
  let tx ← nextTx
  let at_ ← now
  modifySearch fun s => { s with searches := s.searches.add at_ tx ⟨query, via⟩ }
  transmit via.addr ⟨tx, .fetchReq (← self).num [] query []⟩
  return .ok tx

/-- Start looking up the owner of a term. The result is the lookup's transaction id. -/
def lookup (term : Bytes) : NodeM (Except NodeError UInt32) := do
  let t := normalize term
  if t.isEmpty then return .error .emptyLookup
  if !(← ring).inRing then return .error .notInRing
  let tx ← nextTx
  let key := RingId.hash t
  let at_ ← now
  modifySearch fun s => { s with lookups := s.lookups.add at_ tx ⟨.check, t, key⟩ }
  let _ ← Ring.resolve key tx
  return .ok tx

/-- Keep postings handed to this node. -/
def keep (term : Bytes) (docs : List Bytes) : NodeM Unit :=
  modifySearch fun s => { s with store := s.store.add term docs }

/-- Answer the node numbered `originator` with the documents of search `tx`; a number the
directory does not know ends the search unanswered. -/
def reply (originator tx : UInt32) (docs : List Bytes) : NodeM Unit := do
  match (← node).directory.resolve originator with
  | .error _ => pure ()
  | .ok addr => transmit addr ⟨tx, .fetchRsp docs⟩

/-- The smallest of a list of terms and the other distinct terms, ascending. -/
def popTerm (terms : List Bytes) : Bytes × List Bytes :=
  match (DocSet.ofList terms).toList with
  | t :: rest => (t, rest)
  | [] => ([], [])

/-- Carry search `searchId` on to the owner of `term`. -/
def forward (searchId originator : UInt32) (term : Bytes) (remaining accumulated : List Bytes) :
    NodeM Unit := do
  let _ ← lookupFor (.fetch originator remaining accumulated searchId) term
  pure ()

/-- One step of a search at an owner: with an empty key the walk starts at the first term;
otherwise the postings of `key` are intersected with the documents matched so far (all of
them when none were carried yet), and the walk ends when nothing matches or no term is
left. -/
def fetch (tx originator : UInt32) (key : Bytes) (remaining accumulated : List Bytes) :
    NodeM Unit := do
  if key.isEmpty then
    if remaining.isEmpty then reply originator tx []
    else
      let (next, rest) := popTerm remaining
      forward tx originator next rest []
  else
    let found := (← search).store.postings key
    let result := if accumulated.isEmpty then found else found.inter (DocSet.ofList accumulated)
    if result.isEmpty || remaining.isEmpty then reply originator tx result.toList
    else
      let (next, rest) := popTerm remaining
      forward tx originator next rest result.toList

/-- Words joined by spaces inside brackets. -/
def bracketed (ws : List Bytes) : Bytes :=
  [91] ++ (Bytes.ofString " ").intercalate ws ++ [93]

/-- The answer to search `tx` arrived: count it and report its documents. An answer to no
search in flight is dropped. -/
def fetchReply (tx : UInt32) (docs : List Bytes) : NodeM Unit := do
  let (found, rest) := (← search).searches.take tx
  match found with
  | none => pure ()
  | some e =>
    modifySearch fun s => { s with searches := rest }
    modifyMetrics fun m =>
      { m with searches := m.searches.bump (if docs.isEmpty then "empty" else "match"),
               timedSearches := m.timedSearches + 1 }
    report .searchResult "" (Bytes.ofString ("search " ++ toString tx.toNat ++ " ") ++
      bracketed e.value.terms ++ Bytes.ofString ": " ++ bracketed docs)

/-- The owner of `key` is known for lookup `tx`: carry out the lookup's errand. -/
def lookupResolved (owner : NodeRef) (key : RingId) (tx : UInt32) : NodeM Unit := do
  let (found, rest) := (← search).lookups.take tx
  match found with
  | none => pure ()
  | some e =>
    modifySearch fun s => { s with lookups := rest }
    let term := e.value.term
    match e.value.errand with
    | .store =>
      match (← search).index.map.find? term with
      | none => pure ()
      | some docs =>
        modifySearch fun s => { s with index := ⟨s.index.map.erase term⟩ }
        sendStore owner.addr term docs
    | .fetch originator remaining accumulated searchId =>
      transmit owner.addr ⟨searchId, .fetchReq originator term remaining accumulated⟩
    | .check =>
      report .lookupResult owner.toText (Bytes.ofString ("lookup " ++ toString tx.toNat ++ " " ++
        Quoted.quote term ++ " (" ++ key.short 8 ++ ") is owned by " ++ owner.toText))

/-- A new predecessor owns part of what this node stored: hand that part over. -/
def predecessorChanged (updated : NodeRef) : NodeM Unit := do
  if updated.isUnset then return
  let (kept, moved) := (← search).store.extractNotOwned updated.id (← self).id
  modifySearch fun s => { s with store := kept }
  if moved.isEmpty then return
  sendAll updated.addr moved

/-- This node is leaving: hand everything stored to the successor, unless the successor is
unset or this node itself. -/
def leaving (successor : NodeRef) : NodeM Unit := do
  if successor.isUnset || successor.same (← self) then return
  let (kept, all) := (← search).store.takeAll
  modifySearch fun s => { s with store := kept }
  sendAll successor.addr all

end ChordSearch.Search
