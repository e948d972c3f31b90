import ChordSearch.Index.DocSet
import ChordSearch.Ring.Arc

/-! # Postings by term

A term map sends terms to document sets. It is kept as a list of entries with ascending,
distinct terms, so listing terms or entries is reading the list in order. Adding documents
to a term creates the term if needed, even with no documents; nothing removes a term but
an explicit `erase` or `partition`.
-/

namespace ChordSearch

/-- Documents per term, terms ascending and distinct. -/
structure TermMap where
  entries : List (Bytes × DocSet)
  deriving DecidableEq, Inhabited

namespace TermMap

/-- The map without terms. -/
def empty : TermMap := ⟨[]⟩

/-- Union `docs` into the postings of `term` in an ascending entry list. -/
def addTo (term : Bytes) (docs : DocSet) : List (Bytes × DocSet) → List (Bytes × DocSet)
  | [] => [(term, docs)]
  | (t, d) :: rest =>
    if Bytes.lexLt term t then (term, docs) :: (t, d) :: rest
    else if term = t then (t, d.union docs) :: rest
    else (t, d) :: addTo term docs rest

/-- Union documents into a term's postings, creating the term. -/
def add (m : TermMap) (term : Bytes) (docs : DocSet) : TermMap := ⟨addTo term docs m.entries⟩

/-- The postings of a term, if it is present. -/
def find? (m : TermMap) (term : Bytes) : Option DocSet :=
  (m.entries.find? (·.1 == term)).map (·.2)

/-- The postings of a term, empty when it is absent. -/
def postings (m : TermMap) (term : Bytes) : DocSet := (m.find? term).getD DocSet.empty

/-- Whether a term is present. -/
def contains (m : TermMap) (term : Bytes) : Bool := (m.find? term).isSome

/-- The terms, ascending. -/
def terms (m : TermMap) : List Bytes := m.entries.map (·.1)

/-- The number of terms. -/
def size (m : TermMap) : Nat := m.entries.length

/-- Whether there are no terms. -/
def isEmpty (m : TermMap) : Bool := m.entries.isEmpty

/-- Remove a term. -/
def erase (m : TermMap) (term : Bytes) : TermMap := ⟨m.entries.filter (·.1 != term)⟩

/-- Split into the entries whose term passes `keep` and those that do not. -/
def partition (m : TermMap) (keep : Bytes → Bool) : TermMap × TermMap :=
  let (kept, moved) := m.entries.partition (keep ·.1)
  (⟨kept⟩, ⟨moved⟩)

/-- Union every entry of `other` into `m`. -/
def merge (m other : TermMap) : TermMap :=
  other.entries.foldl (fun acc (t, d) => acc.add t d) m

end TermMap

end ChordSearch

/-! ## The document store

The store holds the postings a node owns. Terms are kept verbatim, already normalized by
whoever published them, and a term may be stored with no documents. Ownership is checked on
the term's ring position, the digest of its bytes.

When a node learns a new predecessor `p`, it keeps exactly the terms whose position lies in
`(p, self]` and hands the others on (`extractNotOwned`); when it leaves, it hands on
everything (`takeAll`).
-/

namespace ChordSearch

/-- The postings a node owns, by verbatim term. -/
structure Store where
  map : TermMap
  deriving DecidableEq, Inhabited

namespace Store

/-- The empty store. -/
def empty : Store := ⟨TermMap.empty⟩

/-- Union documents into a term's postings, creating the term even with no documents. -/
def add (s : Store) (term : Bytes) (docs : List Bytes) : Store :=
  ⟨s.map.add term (DocSet.ofList docs)⟩

/-- The documents stored under a term, empty when the term is absent. -/
def postings (s : Store) (term : Bytes) : DocSet := s.map.postings term

/-- The stored terms, ascending. -/
def terms (s : Store) : List Bytes := s.map.terms

/-- The number of stored terms. -/
def size (s : Store) : Nat := s.map.size

/-- Remove the terms a node at `self` with predecessor `pred` does not own; the removed
entries come back in ascending term order. -/
def extractNotOwned (s : Store) (pred self : RingId) : Store × TermMap :=
  let (kept, moved) := s.map.partition fun t => Arc.owns pred (RingId.hash t) self
  (⟨kept⟩, moved)

/-- Empty the store, giving back what it held. -/
def takeAll (s : Store) : Store × TermMap := (empty, s.map)

end Store

end ChordSearch
