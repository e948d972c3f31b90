import ChordSearch.Json.Value
import ChordSearch.Log.Level
import ChordSearch.Log.Layout
import ChordSearch.Text.Quoted

/-! # Log entries and how they are written

An entry has a level, fields (the logger's, then its own, in order), the caller's location
when the logger records it, and a message. As a structured record its members are the
level, the fields, the time, the caller and the message (left out when empty), in that
order; a later member with the same key wins.

Written for a console, an entry is one line: the time spelled by a layout, a three-letter
level, the caller, the message, then the other members sorted by key with `error` first,
each as `key=value`. A text value is quoted when it holds a blank, a quote, a backslash, a
control character or anything beyond ASCII; other values are written as compact JSON.
Colours mark the parts unless they are turned off.
-/

namespace ChordSearch

/-- One log entry. -/
structure Entry where
  level : LogLevel
  fields : List (Bytes × Value)
  caller : Option Bytes
  message : Bytes

namespace Entry

/-- The members of the entry as a record, with `time` spelled as given. -/
def members (e : Entry) (time : Bytes) : List (Bytes × Value) :=
  [(Bytes.ofString "level", .str (Bytes.ofString e.level.name))] ++ e.fields ++
    [(Bytes.ofString "time", .str time)] ++
    (match e.caller with
      | some c => [(Bytes.ofString "caller", .str c)]
      | none => []) ++
    (if e.message.isEmpty then [] else [(Bytes.ofString "message", .str e.message)])

end Entry

namespace Console

/-- Colour codes. -/
def red : Nat := 31
def green : Nat := 32
def yellow : Nat := 33
def blue : Nat := 34
def cyan : Nat := 36
def darkGray : Nat := 90
def bold : Nat := 1

/-- Text in a colour, unless colours are off or the colour is none (0). -/
def colorize (noColor : Bool) (c : Nat) (s : String) : String :=
  if noColor || c = 0 then s else "\x1b[" ++ toString c ++ "m" ++ s ++ "\x1b[0m"

/-- The three-letter code and colour of a named level. -/
def levelCode (l : LogLevel) : Option (String × Nat) :=
  if l = LogLevel.trace then some ("TRC", blue)
  else if l = LogLevel.debug then some ("DBG", 0)
  else if l = LogLevel.info then some ("INF", green)
  else if l = LogLevel.warn then some ("WRN", yellow)
  else if l = LogLevel.error then some ("ERR", red)
  else if l = LogLevel.fatal then some ("FTL", red)
  else if l = LogLevel.panicky then some ("PNC", red)
  else none

/-- Whether a text value must be quoted. -/
def needsQuote (s : Bytes) : Bool :=
  s.any fun c => c < 0x20 || c > 0x7e || c = 32 || c = 92 || c = 34

/-- Bytes as text, stray bytes becoming the replacement character. -/
def clean (b : Bytes) : Bytes := Utf8.ofChars (Utf8.chars b)

/-- How a field value is written. -/
def valueText : Value → String
  | .str s =>
    let s := clean s
    if needsQuote s then Quoted.quote s else String.ofList (Utf8.chars s)
  | .num t => t
  | v => v.text

/-- The keys that are parts of the line rather than fields. -/
def partKeys : List Bytes := ["level", "time", "message", "caller"].map Bytes.ofString

/-- Field keys in writing order: sorted, `error` first. -/
def fieldOrder (keys : List Bytes) : List Bytes :=
  let sorted := keys.mergeSort fun a b => !Value.keyLt b a
  let err := Bytes.ofString "error"
  if sorted.contains err then err :: sorted.filter (· != err) else sorted

/-- Join non-empty parts with single spaces. -/
def joinParts (ps : List String) : String := " ".intercalate (ps.filter (!·.isEmpty))

/-- The console line of an entry, the time spelled by `layout` at `t`. -/
def line (noColor : Bool) (layout : String) (t : Instant) (timeText : Bytes) (e : Entry) :
    String :=
  let evt := Value.canonical (e.members timeText)
  let getB := fun (k : Bytes) => (evt.find? (·.1 == k)).map (·.2)
  let get := fun (k : String) => getB (Bytes.ofString k)
  let timePart := match get "time" with
    | some (.str s) => if s == timeText then Layout.render layout t else String.ofList (Utf8.chars s)
    | _ => "<nil>"
  let levelPart := match get "level" with
    | some (.str s) =>
      match (LogLevel.parse s).toOption.bind levelCode with
      | some (code, c) => colorize noColor c code
      | none => (String.ofList (Utf8.chars s)).toUpper.take 3 |>.toString
    | _ => colorize noColor bold "???"
  let callerPart := match get "caller" with
    | some (.str c) =>
      if c.isEmpty then "" else colorize noColor bold (String.ofList (Utf8.chars c)) ++ colorize noColor cyan " >"
    | _ => ""
  let loud := e.level.rank ≥ 1 && e.level.rank ≤ 5
  let messagePart := match get "message" with
    | some (.str m) =>
      if m.isEmpty then ""
      else if loud then colorize noColor bold (String.ofList (Utf8.chars m))
      else String.ofList (Utf8.chars m)
    | _ => ""
  let keys := fieldOrder ((evt.map (·.1)).filter (!partKeys.contains ·))
  let fieldTexts := keys.map fun k =>
    let v := (getB k).getD .null
    let name := String.ofList (Utf8.chars k) ++ "="
    if k == Bytes.ofString "error" then
      colorize noColor cyan name ++ colorize noColor red (colorize noColor bold (valueText v))
    else colorize noColor cyan name ++ valueText v
  let head := joinParts [colorize noColor darkGray timePart, levelPart, callerPart, messagePart]
  let fields := " ".intercalate fieldTexts
  if fields.isEmpty then head else if head.isEmpty then fields else head ++ " " ++ fields

end Console

end ChordSearch
