import ChordSearch.Bytes

/-! # Durations

A duration is a signed count of nanoseconds. Its text uses the largest units that fit:

* zero is `0s`;
* below one second, a single unit: nanoseconds `ns`, microseconds `µs`, or milliseconds
  `ms`, with a decimal fraction when needed (`1.5ms`);
* from one second on, hours, minutes and seconds, the seconds with a fraction when needed;
  a larger unit that is present forces the smaller ones to be written, even when zero
  (`1h0m0s`, `2m3.5s`);
* a fraction has no trailing zeros, and no point when it is zero;
* a negative duration is its magnitude's text after `-`.

Reading accepts a sign and then one or more numbers, each with an optional fraction and a
unit (`ns`, `us`, `µs`, `μs`, `ms`, `s`, `m`, `h`); `0` alone is zero.
-/

namespace ChordSearch.Duration

/-- Nanoseconds in a unit. -/
def nanosPer (unit : String) : Option Nat :=
  match unit with
  | "ns" => some 1
  | "us" | "µs" | "μs" => some 1000
  | "ms" => some 1000000
  | "s" => some 1000000000
  | "m" => some 60000000000
  | "h" => some 3600000000000
  | _ => none

/-- The digits of `v / 10 ^ prec` and the fraction after them, without trailing zeros. -/
def withFraction (v prec : Nat) : String :=
  let whole := v / Nat.pow 10 prec
  let frac := v % Nat.pow 10 prec
  if frac = 0 then toString whole
  else
    let digits := (toString (frac + Nat.pow 10 prec)).toList.drop 1
    let trimmed := String.ofList (digits.reverse.dropWhile (· = '0')).reverse
    toString whole ++ "." ++ trimmed

/-- The text of a magnitude in nanoseconds. -/
def magnitudeText (u : Nat) : String :=
  if u = 0 then "0s"
  else if u < 1000 then toString u ++ "ns"
  else if u < 1000000 then withFraction u 3 ++ "µs"
  else if u < 1000000000 then withFraction u 6 ++ "ms"
  else
    let secs := withFraction (u % 60000000000) 9 ++ "s"
    let mins := u / 60000000000
    if mins = 0 then secs
    else if mins < 60 then toString mins ++ "m" ++ secs
    else toString (mins / 60) ++ "h" ++ toString (mins % 60) ++ "m" ++ secs

/-- The text of a duration. -/
def text (d : Int) : String :=
  if d < 0 then "-" ++ magnitudeText d.natAbs else magnitudeText d.toNat

example : text 0 = "0s" ∧ text (-1000000) = "-1ms" ∧ text (-1500000000) = "-1.5s" ∧
    text (-3600000000000) = "-1h0m0s" := by decide +kernel

/-- Why duration text does not read. -/
inductive ReadError where
  /-- The text is not a duration. -/
  | invalid (text : String)
  /-- A number has no unit after it. -/
  | missingUnit (text : String)
  /-- A unit is none of the known ones. -/
  | unknownUnit (unit text : String)
  deriving DecidableEq, Repr

/-- Text in double quotes: a quote or backslash gets a backslash, and a byte outside
printable ASCII is written `\x` and two hex digits. -/
def quote (s : String) : String :=
  let hex (n : Nat) : Char := if n < 10 then Char.ofNat (48 + n) else Char.ofNat (87 + n)
  "\"" ++ String.join ((Bytes.ofString s).map fun b =>
    if b < 32 ∨ b ≥ 128 then String.ofList ['\\', 'x', hex (b.toNat / 16), hex (b.toNat % 16)]
    else if b = 34 ∨ b = 92 then String.ofList ['\\', Char.ofNat b.toNat]
    else String.singleton (Char.ofNat b.toNat)) ++ "\""

/-- The text of a reading error. -/
def ReadError.message : ReadError → String
  | .invalid t => "time: invalid duration " ++ quote t
  | .missingUnit t => "time: missing unit in duration " ++ quote t
  | .unknownUnit u t => "time: unknown unit " ++ quote u ++ " in duration " ++ quote t

/-- The largest magnitude a duration's terms may reach: `2^63` nanoseconds. -/
def limit : Nat := Nat.pow 2 63

/-- The value of decimal digits. -/
def digitsValue (ds : List Char) : Nat := ds.foldl (fun n d => n * 10 + (d.toNat - 48)) 0

/-- The digits of a fraction that count: digits are taken while their value stays within
the limit, the rest ignored. Their value and the power of ten they are scaled by. -/
def fractionValue (ds : List Char) : Nat × Nat :=
  let (x, scale, _) := ds.foldl (fun (x, scale, full) d =>
    if full then (x, scale, true)
    else if x > (limit - 1) / 10 then (x, scale, true)
    else
      let y := x * 10 + (d.toNat - 48)
      if y > limit then (x, scale, true) else (y, scale * 10, false)) (0, 1, false)
  (x, scale)

/-- Read one term, a number with an optional fraction and a unit, from `cs` of the text
`orig`: its nanoseconds and the rest. -/
def readTerm (orig : String) (cs : List Char) : Except ReadError (Nat × List Char) := do
  match cs with
  | c :: _ => if !(c = '.' || c.isDigit) then throw (.invalid orig)
  | [] => throw (.invalid orig)
  let whole := cs.takeWhile Char.isDigit
  let cs := cs.drop whole.length
  let w := digitsValue whole
  if w > limit then throw (.invalid orig)
  let (frac, cs) := match cs with
    | '.' :: r => (r.takeWhile Char.isDigit, r.dropWhile Char.isDigit)
    | _ => ([], cs)
  if whole.isEmpty ∧ frac.isEmpty then throw (.invalid orig)
  let unit := cs.takeWhile fun c => !c.isDigit && c != '.'
  let rest := cs.drop unit.length
  if unit.isEmpty then throw (.missingUnit orig)
  let some per := nanosPer (String.ofList unit) | throw (.unknownUnit (String.ofList unit) orig)
  if w > limit / per then throw (.invalid orig)
  let (f, scale) := fractionValue frac
  let v := w * per + f * per / scale
  if v > limit then throw (.invalid orig)
  return (v, rest)

/-- Read terms until the text ends, adding them to `acc`. -/
def readTerms (orig : String) (acc : Nat) : Nat → List Char → Except ReadError Nat
  | 0, _ => .error (.invalid orig)
  | _, [] => .ok acc
  | fuel + 1, cs => do
    let (v, rest) ← readTerm orig cs
    if acc + v > limit then throw (.invalid orig)
    readTerms orig (acc + v) fuel rest

/-- Read duration text: a sign, then one or more terms; `0` alone is zero. -/
def read (s : String) : Except ReadError Int := do
  let cs := s.toList
  let (neg, cs) := match cs with
    | '-' :: r => (true, r)
    | '+' :: r => (false, r)
    | _ => (false, cs)
  if cs = ['0'] then return 0
  if cs.isEmpty then throw (.invalid s)
  let d ← readTerms s 0 (cs.length + 1) cs
  if neg then return -(d : Int)
  if d > limit - 1 then throw (.invalid s)
  return d

/-- Read duration text, if it is well formed. -/
def parse? (s : String) : Option Int := (read s).toOption

/-- A setting read as a duration: text with a unit is read as above, a bare number is
nanoseconds, and anything unreadable is zero. -/
def ofSetting (s : String) : Int :=
  let hasUnit := s.toList.any fun c => "nsuµmh".toList.contains c
  ((parse? (if hasUnit then s else s ++ "ns")).getD 0)

end ChordSearch.Duration
