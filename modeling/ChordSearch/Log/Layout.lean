/-! # Time layouts

A time layout spells a time by example: the reference time Mon Jan 2 15:04:05 2006 in a
zone seven hours west of UTC. Each part of the reference written in the layout stands for
that part of the time shown: `2006` the year, `Jan` or `January` the month, `01` or `1`
its number, `02`, `2` or `_2` the day, `Mon` or `Monday` the weekday, `15` the hour on a
24-hour clock, `03` or `3` on a 12-hour clock with `PM` or `pm`, `04` or `4` the minute,
`05` or `5` the second, `.000` or `.999` fractions of a second (zeros kept or trimmed),
`MST` the zone name and `-0700`, `-07:00`, `Z07:00` and their kin the offset. Everything
else is copied. A month or weekday abbreviation followed by a lower-case letter is copied
as text.

`Layout.render` spells a time given in UTC.
-/

namespace ChordSearch

/-- A time of day on a date, in UTC. -/
structure Instant where
  year : Nat
  month : Nat
  day : Nat
  weekday : Nat
  yearDay : Nat
  hour : Nat
  minute : Nat
  second : Nat
  nanos : Nat
  deriving DecidableEq

namespace Layout

/-- Month names, January first. -/
def months : List String :=
  ["January", "February", "March", "April", "May", "June", "July", "August", "September",
    "October", "November", "December"]

/-- Weekday names, Sunday first. -/
def weekdays : List String :=
  ["Sunday", "Monday", "Tuesday", "Wednesday", "Thursday", "Friday", "Saturday"]

/-- A number with at least `w` digits, zeros in front. -/
def pad (w n : Nat) : String :=
  let s := toString n
  String.ofList (List.replicate (w - s.length) '0') ++ s

/-- A number with at least `w` characters, spaces in front. -/
def padSpace (w n : Nat) : String :=
  let s := toString n
  String.ofList (List.replicate (w - s.length) ' ') ++ s

/-- Whether characters start with a lower-case letter. -/
def startsLower : List Char → Bool
  | c :: _ => 'a' ≤ c && c ≤ 'z'
  | [] => false

/-- The hour on a 12-hour clock. -/
def hour12 (h : Nat) : Nat := if h % 12 = 0 then 12 else h % 12

/-- Fractional seconds with `n` digits after the separator `sep`; with `trim`, trailing
zeros go, and the separator too when nothing is left. -/
def fraction (sep : Char) (n : Nat) (trim : Bool) (nanos : Nat) : String :=
  let digits := (pad 9 nanos).toList.take n
  let digits := if trim then (digits.reverse.dropWhile (· = '0')).reverse else digits
  if trim && digits.isEmpty then "" else String.ofList (sep :: digits)

/-- The run of `c` at the head of the characters, and the rest. -/
def run (c : Char) (cs : List Char) : Nat × List Char :=
  (cs.takeWhile (· = c)).length |> fun n => (n, cs.drop n)

/-- Spell the head of a layout: the text it stands for and what follows, or `none` when the
head is copied as it is. -/
def token (t : Instant) : List Char → Option (String × List Char)
  | 'J' :: 'a' :: 'n' :: 'u' :: 'a' :: 'r' :: 'y' :: r => some (months.getD (t.month - 1) "", r)
  | 'J' :: 'a' :: 'n' :: r =>
    if startsLower r then none else some (((months.getD (t.month - 1) "").take 3).toString, r)
  | 'M' :: 'o' :: 'n' :: 'd' :: 'a' :: 'y' :: r => some (weekdays.getD t.weekday "", r)
  | 'M' :: 'o' :: 'n' :: r =>
    if startsLower r then none else some (((weekdays.getD t.weekday "").take 3).toString, r)
  | 'M' :: 'S' :: 'T' :: r => some ("UTC", r)
  | '0' :: '1' :: r => some (pad 2 t.month, r)
  | '0' :: '2' :: r => some (pad 2 t.day, r)
  | '0' :: '3' :: r => some (pad 2 (hour12 t.hour), r)
  | '0' :: '4' :: r => some (pad 2 t.minute, r)
  | '0' :: '5' :: r => some (pad 2 t.second, r)
  | '0' :: '6' :: r => some (pad 2 (t.year % 100), r)
  | '0' :: '0' :: '2' :: r => some (pad 3 t.yearDay, r)
  | '1' :: '5' :: r => some (pad 2 t.hour, r)
  | '1' :: r => some (toString t.month, r)
  | '2' :: '0' :: '0' :: '6' :: r => some (pad 4 t.year, r)
  | '2' :: r => some (toString t.day, r)
  | '_' :: '2' :: '0' :: '0' :: '6' :: r => some ("_" ++ pad 4 t.year, r)
  | '_' :: '2' :: r => some (padSpace 2 t.day, r)
  | '_' :: '_' :: '2' :: r => some (padSpace 3 t.yearDay, r)
  | '3' :: r => some (toString (hour12 t.hour), r)
  | '4' :: r => some (toString t.minute, r)
  | '5' :: r => some (toString t.second, r)
  | 'P' :: 'M' :: r => some (if t.hour ≥ 12 then "PM" else "AM", r)
  | 'p' :: 'm' :: r => some (if t.hour ≥ 12 then "pm" else "am", r)
  | '-' :: '0' :: '7' :: '0' :: '0' :: '0' :: '0' :: r => some ("+000000", r)
  | '-' :: '0' :: '7' :: ':' :: '0' :: '0' :: ':' :: '0' :: '0' :: r => some ("+00:00:00", r)
  | '-' :: '0' :: '7' :: '0' :: '0' :: r => some ("+0000", r)
  | '-' :: '0' :: '7' :: ':' :: '0' :: '0' :: r => some ("+00:00", r)
  | '-' :: '0' :: '7' :: r => some ("+00", r)
  | 'Z' :: '0' :: '7' :: '0' :: '0' :: '0' :: '0' :: r => some ("Z", r)
  | 'Z' :: '0' :: '7' :: ':' :: '0' :: '0' :: ':' :: '0' :: '0' :: r => some ("Z", r)
  | 'Z' :: '0' :: '7' :: '0' :: '0' :: r => some ("Z", r)
  | 'Z' :: '0' :: '7' :: ':' :: '0' :: '0' :: r => some ("Z", r)
  | 'Z' :: '0' :: '7' :: r => some ("Z", r)
  | sep :: d :: r =>
    if (sep = '.' || sep = ',') && (d = '0' || d = '9') then
      let (n, rest) := run d (d :: r)
      match rest with
      | c :: _ => if '0' ≤ c && c ≤ '9' then none else some (fraction sep n (d = '9') t.nanos, rest)
      | [] => some (fraction sep n (d = '9') t.nanos, rest)
    else none
  | _ => none

/-- Spell a layout, at most `fuel` characters of it. -/
def renderFuel (t : Instant) : Nat → List Char → String
  | 0, _ => ""
  | _, [] => ""
  | k + 1, c :: cs =>
    match token t (c :: cs) with
    | some (s, rest) => s ++ renderFuel t k rest
    | none => c.toString ++ renderFuel t k cs

/-- Spell a time by a layout. -/
def render (layout : String) (t : Instant) : String :=
  renderFuel t layout.length layout.toList

end Layout

end ChordSearch
