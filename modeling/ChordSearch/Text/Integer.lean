import ChordSearch.Text.Quoted

/-! # Whole numbers in text

Flags and settings write whole numbers in the notation that picks its base from a prefix:
`0x` for hex, `0o` for octal, `0b` for binary, a bare leading `0` for octal, and decimal
otherwise; digits may be upper or lower case, and underscores may stand between digits (a
prefix counting as a digit). A signed number may start with `+` or `-`.

Reading stops at the first character that is no digit of the base (a syntax error), or as
soon as the value leaves the range of the width asked for (a range error), whichever comes
first; underscores out of place are a syntax error found after the digits.
-/

namespace ChordSearch.Integer

/-- Why a whole number does not read. -/
inductive ReadError where
  | invalid
  | range
  deriving DecidableEq, Repr

/-- The text of a reading error, naming the reader and the input. -/
def ReadError.message (reader input : String) : ReadError → String
  | .invalid => "strconv." ++ reader ++ ": parsing " ++ Quoted.quoteString input ++ ": invalid syntax"
  | .range => "strconv." ++ reader ++ ": parsing " ++ Quoted.quoteString input ++ ": value out of range"

/-- The value of a digit in any base up to 36. -/
def digit? (c : Char) : Option Nat :=
  if c.isDigit then some (c.toNat - 48)
  else if 'a' ≤ c.toLower ∧ c.toLower ≤ 'z' then some (c.toLower.toNat - 87)
  else none

/-- Whether underscores stand only between digits, a base prefix counting as a digit. -/
def underscoresOk (cs : List Char) : Bool :=
  let cs := match cs with | '+' :: r => r | '-' :: r => r | r => r
  let (start, hex, cs) := match cs with
    | '0' :: p :: r =>
      if p.toLower = 'b' ∨ p.toLower = 'o' ∨ p.toLower = 'x' then ('0', p.toLower == 'x', r)
      else ('^', false, cs)
    | _ => ('^', false, cs)
  let last := cs.foldl (fun (saw : Option Char) c =>
    match saw with
    | none => none
    | some s =>
      if c.isDigit || (hex && 'a' ≤ c.toLower && c.toLower ≤ 'f') then some '0'
      else if c = '_' then (if s = '0' then some '_' else none)
      else if s = '_' then none
      else some '!') (some start)
  match last with
  | some s => s ≠ '_'
  | none => false

/-- The base a text's prefix picks and the digits after the prefix. -/
def basePrefix : List Char → Nat × List Char
  | '0' :: p :: d :: r =>
    if p.toLower = 'b' then (2, d :: r) else if p.toLower = 'o' then (8, d :: r)
    else if p.toLower = 'x' then (16, d :: r) else (8, p :: d :: r)
  | '0' :: r => (8, r)
  | r => (10, r)

/-- Fold digits into a value below `2 ^ bits`, stopping at the first bad digit or the first
overflow. -/
def accumulate (base bits : Nat) : Nat → List Char → Except ReadError Nat
  | n, [] => .ok n
  | n, c :: r =>
    if c = '_' then accumulate base bits n r
    else match digit? c with
      | some d =>
        if d ≥ base then .error .invalid
        else if n * base + d ≥ 2 ^ bits then .error .range
        else accumulate base bits (n * base + d) r
      | none => .error .invalid

/-- Read an unsigned whole number below `2 ^ bits`. -/
def readNat (s : String) (bits : Nat) : Except ReadError Nat := do
  let cs := s.toList
  if cs.isEmpty then throw .invalid
  let (base, ds) := basePrefix cs
  let n ← accumulate base bits 0 ds
  if cs.contains '_' && !underscoresOk cs then throw .invalid
  return n

/-- Read a signed whole number of `bits` bits. -/
def readInt (s : String) (bits : Nat) : Except ReadError Int := do
  let cs := s.toList
  if cs.isEmpty then throw .invalid
  let (neg, body) := match cs with
    | '+' :: r => (false, r)
    | '-' :: r => (true, r)
    | r => (false, r)
  let un ← match readNat (String.ofList body) 64 with
    | .ok n => pure n
    | .error .range => pure (Nat.pow 2 64 - 1)
    | .error .invalid => throw .invalid
  let cutoff := Nat.pow 2 (bits - 1)
  if !neg ∧ un ≥ cutoff then throw .range
  if neg ∧ un > cutoff then throw .range
  return if neg then -(un : Int) else un

end ChordSearch.Integer
