import ChordSearch.Text.Utf8

/-! # Log levels

A log level is a rank from -128 to 127. The named ranks are trace (-1), debug (0), info (1),
warn (2), error (3), fatal (4), panic (5), no level (6, written as the empty name) and
disabled (7). A logger writes an entry when the entry's rank is at least the logger's.

A level is read from its name in any letter case, or else from a decimal number, which must
lie within the ranks.
-/

namespace ChordSearch

/-- A log level. -/
structure LogLevel where
  rank : Int
  deriving DecidableEq, Repr

namespace LogLevel

def trace : LogLevel := ⟨-1⟩
def debug : LogLevel := ⟨0⟩
def info : LogLevel := ⟨1⟩
def warn : LogLevel := ⟨2⟩
def error : LogLevel := ⟨3⟩
def fatal : LogLevel := ⟨4⟩
def panicky : LogLevel := ⟨5⟩
def none : LogLevel := ⟨6⟩
def disabled : LogLevel := ⟨7⟩

/-- The named levels with their names. -/
def named : List (String × LogLevel) :=
  [("trace", trace), ("debug", debug), ("info", info), ("warn", warn), ("error", error),
    ("fatal", fatal), ("panic", panicky), ("disabled", disabled), ("", none)]

/-- The name of a level; an unnamed rank is written as its number. -/
def name (l : LogLevel) : String :=
  match named.find? (·.2 == l) with
  | some (n, _) => n
  | Option.none => toString l.rank

/-- Why a level cannot be read. -/
inductive ParseError where
  | unknown (text : Bytes)
  | outOfBounds (n : Int)
  deriving DecidableEq

/-- The text of a level error. -/
def ParseError.message : ParseError → String
  | .unknown t => "Unknown Level String: '" ++ String.ofList (Utf8.chars t) ++
      "', defaulting to NoLevel"
  | .outOfBounds n => "Out-Of-Bounds Level: '" ++ toString n ++ "', defaulting to NoLevel"

/-- ASCII letters folded to lower case. -/
def fold (b : Bytes) : Bytes := b.map fun c => if 65 ≤ c && c ≤ 90 then c + 32 else c

/-- A signed decimal number that fits in 64 bits. -/
def readInt (b : Bytes) : Option Int :=
  let (neg, ds) := match b with
    | 45 :: r => (true, r)
    | 43 :: r => (false, r)
    | r => (false, r)
  if ds.isEmpty || !ds.all (fun c => 48 ≤ c && c ≤ 57) then Option.none
  else
    let n : Int := (ds.foldl (fun acc c => acc * 10 + (c.toNat - 48)) 0 : Nat)
    let v := if neg then -n else n
    if v < -(Int.pow 2 63) || v ≥ Int.pow 2 63 then Option.none else some v

/-- Read a level. -/
def parse (b : Bytes) : Except ParseError LogLevel :=
  match named.find? fun (n, _) => fold b == Bytes.ofString n with
  | some (_, l) => .ok l
  | Option.none =>
    match readInt b with
    | Option.none => .error (.unknown b)
    | some i => if i > 127 || i < -128 then .error (.outOfBounds i) else .ok ⟨i⟩

end LogLevel

end ChordSearch
