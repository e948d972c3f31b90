import ChordSearch.Text.Quoted

/-! # Network addresses

Nodes are reached at IPv4 addresses, but address text is read by the general rules, so that
an IPv6 address is recognised and refused with a reason.

Reading looks at the first `.`, `:` or `%` in the text: a dot means IPv4, a colon IPv6, a
percent sign a zone with no address before it, and none of them is no address at all.

* IPv4 is four decimal fields of at most 255, without leading zeros.
* IPv6 is up to eight groups of at most four hex digits separated by colons, one `::` for a
  run of zero groups, optionally ending in an embedded IPv4 address in place of the last two
  groups, and optionally a non-empty zone after `%`.

Every refusal names the text and a reason, and for some reasons the rest of the text where
reading stopped. Writing IPv6 uses lowercase hex without leading zeros and replaces the
longest run of two or more zero groups (the first of equal runs) by `::`; an IPv4 address
embedded after `::ffff:` is written in dotted form.
-/

namespace ChordSearch

/-- An IP address, or unset (the address of an unset node reference). -/
inductive Address where
  | unset
  | v4 (octets : List UInt8)
  | v6 (octets : List UInt8) (zone : Bytes)
  deriving DecidableEq, Inhabited

namespace Address

/-- Why address text does not read as an address. -/
inductive Reason where
  | unableToParse
  | missingIPv6
  | leadingZero
  | fieldOver255
  | emptyField
  | tooLong
  | tooShort
  | unexpectedChar
  | emptyZone
  | groupTooLong
  | emptyGroup
  | embeddedNotLast
  | embeddedNoRoom
  | wantColon
  | colonAtEnd
  | repeatedEllipsis
  | trailingGarbage
  | tooFewGroups
  | emptyEllipsis
  deriving DecidableEq, Repr

/-- The words of a reason. -/
def Reason.text : Reason → String
  | .unableToParse => "unable to parse IP"
  | .missingIPv6 => "missing IPv6 address"
  | .leadingZero => "IPv4 field has octet with leading zero"
  | .fieldOver255 => "IPv4 field has value >255"
  | .emptyField => "IPv4 field must have at least one digit"
  | .tooLong => "IPv4 address too long"
  | .tooShort => "IPv4 address too short"
  | .unexpectedChar => "unexpected character"
  | .emptyZone => "zone must be a non-empty string"
  | .groupTooLong => "each colon-separated field must have at most 4 hex digits"
  | .emptyGroup => "each colon-separated field must have at least one digit"
  | .embeddedNotLast => "embedded IPv4 address must replace the final 2 fields of the address"
  | .embeddedNoRoom => "too many hex fields to fit an embedded IPv4 at the end of the address"
  | .wantColon => "unexpected character, want colon"
  | .colonAtEnd => "colon must be followed by more characters"
  | .repeatedEllipsis => "multiple :: in address"
  | .trailingGarbage => "trailing garbage after address"
  | .tooFewGroups => "address string too short"
  | .emptyEllipsis => "the :: must expand to at least one field of zeros"

/-- A refusal: the whole text, the reason, and the rest of the text where reading stopped
(empty when the reason does not point into the text). -/
structure ParseError where
  input : Bytes
  reason : Reason
  rest : Bytes := []
  deriving DecidableEq

/-- The text of a refusal. -/
def ParseError.message (e : ParseError) : String :=
  let base := "ParseAddr(" ++ Quoted.quote e.input ++ "): " ++ e.reason.text
  if e.rest.isEmpty then base else base ++ " (at " ++ Quoted.quote e.rest ++ ")"

/-- Whether a byte is an ASCII digit. -/
def isDigit (c : UInt8) : Bool := 48 ≤ c && c ≤ 57

/-- Read the dotted fields of an IPv4 address; `input` is the whole text, for refusals.
The state is the finished fields, the current value, its digit count and the previous byte. -/
def readV4 (input : Bytes) : Bytes → List UInt8 → Nat → Nat → Option UInt8 →
    Except ParseError (List UInt8)
  | [], fields, val, _, _ =>
    if fields.length < 3 then .error ⟨input, .tooShort, []⟩
    else .ok (fields ++ [UInt8.ofNat val])
  | c :: r, fields, val, digits, prev =>
    if isDigit c then
      if digits = 1 ∧ val = 0 then .error ⟨input, .leadingZero, []⟩
      else
        let v := val * 10 + (c.toNat - 48)
        if v > 255 then .error ⟨input, .fieldOver255, []⟩
        else readV4 input r fields v (digits + 1) (some c)
    else if c = 46 then
      if prev.isNone ∨ r.isEmpty ∨ prev = some 46 then .error ⟨input, .emptyField, c :: r⟩
      else if fields.length = 3 then .error ⟨input, .tooLong, []⟩
      else readV4 input r (fields ++ [UInt8.ofNat val]) 0 0 (some c)
    else .error ⟨input, .unexpectedChar, c :: r⟩

/-- Read up to four hex digits; the value, how many were read, and the rest. Five digits
are refused. -/
def readGroup (input whole : Bytes) : Bytes → Nat → Nat → Except ParseError (Nat × Nat × Bytes)
  | [], acc, n => .ok (acc, n, [])
  | c :: r, acc, n =>
    match Bytes.hexValue? c with
    | some v =>
      if n ≥ 4 then .error ⟨input, .groupTooLong, whole⟩
      else readGroup input whole r (acc * 16 + v) (n + 1)
    | none => .ok (acc, n, c :: r)

/-- The two bytes of a group. -/
def groupBytes (v : Nat) : List UInt8 := [UInt8.ofNat (v / 256), UInt8.ofNat (v % 256)]

/-- Read the groups of an IPv6 address after an optional leading `::`. The state is the
bytes read so far and where the `::` stands, if anywhere; the answer adds the unread rest. -/
def readV6 (input : Bytes) : Nat → Bytes → List UInt8 → Option Nat →
    Except ParseError (List UInt8 × Option Nat × Bytes)
  | 0, s, ip, ell => .ok (ip, ell, s)
  | fuel + 1, s, ip, ell =>
    if ip.length ≥ 16 then .ok (ip, ell, s) else
    match readGroup input s s 0 0 with
    | .error e => .error e
    | .ok (acc, off, rest) =>
      if off = 0 then .error ⟨input, .emptyGroup, s⟩
      else if rest.head? = some 46 then
        if ell.isNone ∧ ip.length ≠ 12 then .error ⟨input, .embeddedNotLast, s⟩
        else if ip.length + 4 > 16 then .error ⟨input, .embeddedNoRoom, s⟩
        else match readV4 input s [] 0 0 none with
          | .error e => .error e
          | .ok quad => .ok (ip ++ quad, ell, [])
      else
        let ip := ip ++ groupBytes acc
        match rest with
        | [] => .ok (ip, ell, [])
        | c :: r =>
          if c ≠ 58 then .error ⟨input, .wantColon, rest⟩
          else if r.isEmpty then .error ⟨input, .colonAtEnd, rest⟩
          else if r.head? = some 58 then
            if ell.isSome then .error ⟨input, .repeatedEllipsis, r⟩
            else if r.length = 1 then .ok (ip, some ip.length, [])
            else readV6 input fuel (r.drop 1) ip (some ip.length)
          else readV6 input fuel r ip ell

/-- Put the zeros of `::` at byte `at` so that the address has sixteen bytes. -/
def expand (ip : List UInt8) (at_ : Nat) : List UInt8 :=
  ip.take at_ ++ List.replicate (16 - ip.length) 0 ++ ip.drop at_

/-- Read an IPv6 address with an optional zone. -/
def parseV6 (input : Bytes) : Except ParseError Address :=
  let (s, zone, hasZone) := match input.idxOf? 37 with
    | some i => (input.take i, input.drop (i + 1), true)
    | none => (input, [], false)
  if hasZone ∧ zone.isEmpty then .error ⟨input, .emptyZone, []⟩
  else
    let (s, ell) := match s with
      | 58 :: 58 :: r => (r, some 0)
      | _ => (s, none)
    if s.isEmpty ∧ ell.isSome then .ok (.v6 (List.replicate 16 0) zone)
    else match readV6 input 9 s [] ell with
      | .error e => .error e
      | .ok (ip, ell, rest) =>
        if !rest.isEmpty then .error ⟨input, .trailingGarbage, rest⟩
        else if ip.length < 16 then
          match ell with
          | none => .error ⟨input, .tooFewGroups, []⟩
          | some at_ => .ok (.v6 (expand ip at_) zone)
        else if ell.isSome then .error ⟨input, .emptyEllipsis, []⟩
        else .ok (.v6 ip zone)

/-- Read address text: IPv4 or IPv6, chosen by the first `.`, `:` or `%`. -/
def parse (s : Bytes) : Except ParseError Address :=
  match s.find? (fun c => c = 46 ∨ c = 58 ∨ c = 37) with
  | some 46 => (readV4 s s [] 0 0 none).map .v4
  | some 58 => parseV6 s
  | some _ => .error ⟨s, .missingIPv6, []⟩
  | none => .error ⟨s, .unableToParse, []⟩

/-- Read address text given as a string. -/
def parseString (s : String) : Except ParseError Address := parse (Bytes.ofString s)

/-- Whether this is an IPv4 address (an IPv4 address embedded in IPv6 is not). -/
def isV4 : Address → Bool
  | .v4 _ => true
  | _ => false

/-- Whether there is an address at all. -/
def isSet : Address → Bool
  | .unset => false
  | _ => true

/-- Lowercase hex without leading zeros. -/
def hexGroup (v : Nat) : String := String.ofList (Nat.toDigits 16 v)

/-- Dotted decimal text of four octets. -/
def dotted (os : List UInt8) : String := ".".intercalate (os.map fun o => toString o.toNat)

/-- The eight sixteen-bit groups of sixteen bytes. -/
def groups (os : List UInt8) : List Nat :=
  (List.range 8).map fun i => (os.getD (2 * i) 0).toNat * 256 + (os.getD (2 * i + 1) 0).toNat

/-- The longest run of at least two zero groups, first of equal runs: its start and end. -/
def zeroRun (gs : List Nat) : Option (Nat × Nat) :=
  (List.range 8).foldl (fun best i =>
    let len := ((gs.drop i).takeWhile (· = 0)).length
    let bestLen := match best with | some (a, b) => b - a | none => 0
    if len ≥ 2 ∧ len > bestLen then some (i, i + len) else best) none

/-- IPv6 text of eight groups, the longest zero run written `::`. -/
def v6Text (gs : List Nat) : String :=
  match zeroRun gs with
  | none => ":".intercalate (gs.map hexGroup)
  | some (a, b) =>
    ":".intercalate ((gs.take a).map hexGroup) ++ "::" ++
      ":".intercalate ((gs.drop b).map hexGroup)

/-- The text of an address without its zone. -/
def bodyText : Address → String
  | .unset => "invalid IP"
  | .v4 os => dotted os
  | .v6 os _ =>
    if os.take 12 = List.replicate 10 0 ++ [255, 255] then "::ffff:" ++ dotted (os.drop 12)
    else v6Text (groups os)

/-- The zone of an IPv6 address; empty for others. -/
def zone : Address → Bytes
  | .v6 _ z => z
  | _ => []

/-- The canonical text of an address, as bytes: the zone follows a `%`. -/
def toBytes (a : Address) : Bytes :=
  Bytes.ofString a.bodyText ++ (if a.zone.isEmpty then [] else 37 :: a.zone)

/-- The canonical text of an address, a zone that is no UTF-8 read with replacements. -/
def toText (a : Address) : String := String.ofList (Utf8.chars a.toBytes)

end Address

end ChordSearch
