import ChordSearch.Index.TermMap
import ChordSearch.Text.Fields
import ChordSearch.Bytes
import ChordSearch.Text.Quoted
import ChordSearch.Cause

/-! # Index listings

A listing names documents and their terms, one document per line: the document first,
then its terms, separated by blanks. Lines that are blank after trimming, and lines that
start with `#` after trimming, are skipped. A line with a document and no term is an error
naming its line number, counted over every line read, from one.

Terms are stored in normal form: trimmed and lower-cased (`normalize`). A term whose normal
form is empty is skipped. An index never holds a term without documents.
-/

namespace ChordSearch

/-- The form terms are hashed and stored under: trimmed, then lower-cased. -/
def normalize (term : Bytes) : Bytes := Text.lower (Text.trim term)

/-- Why a listing cannot be read. -/
inductive ListingError where
  | noTerms (line : Nat) (doc : Bytes)
  | lineTooLong
  deriving DecidableEq

/-- The text of a listing error. -/
def ListingError.message : ListingError → String
  | .noTerms n d => "malformed index: line " ++ toString n ++ ": document " ++ Quoted.quote d ++
      " has no terms"
  | .lineTooLong => "failed to read index: bufio.Scanner: token too long"

/-- The causes of a listing error. -/
def ListingError.causes : ListingError → List Cause
  | .noTerms .. => [.malformedIndex]
  | .lineTooLong => [.lineTooLong]

/-- An inverted index: documents per normalized term. -/
structure Index where
  map : TermMap
  deriving DecidableEq, Inhabited

namespace Index

/-- The index without terms. -/
def empty : Index := ⟨TermMap.empty⟩

/-- Record that `doc` contains each of `terms`, normalized; empty normal forms are skipped. -/
def add (ix : Index) (doc : Bytes) (terms : List Bytes) : Index :=
  terms.foldl (fun acc t =>
    let t := normalize t
    if t.isEmpty then acc else ⟨acc.map.add t (DocSet.empty.insert doc)⟩) ix

/-- Union another index into this one. -/
def merge (ix other : Index) : Index := ⟨ix.map.merge other.map⟩

/-- The terms, ascending. -/
def terms (ix : Index) : List Bytes := ix.map.terms

/-- Read one line of a listing into the index. -/
def addLine (ix : Index) (number : Nat) (line : Bytes) : Except ListingError Index :=
  let text := Text.trim line
  if text.isEmpty ∨ text.head? = some 35 then .ok ix
  else match Text.fields text with
    | doc :: t :: ts => .ok (ix.add doc (t :: ts))
    | doc :: [] => .error (.noTerms number doc)
    | [] => .ok ix

/-- Read numbered lines into the index, stopping at the first error. -/
def addLines : Index → Nat → List Bytes → Except ListingError Index
  | ix, _, [] => .ok ix
  | ix, n, l :: ls => do addLines (← ix.addLine n l) (n + 1) ls

/-- Read a listing. -/
def parse (text : Bytes) : Except ListingError Index := do
  let (lines, stopped) := Lines.split text
  let ix ← addLines empty 1 lines
  if stopped then .error .lineTooLong else .ok ix

end Index

end ChordSearch
