import ChordSearch.Text.Utf8

/-! # Structured values

Log fields carry structured values: null, booleans, numbers, strings, arrays and objects.
A number keeps the text it was written with. An object may name a key twice; the later
member then wins.

`Value.text` writes a value as compact JSON the way a decoder that reads objects into maps
writes it back: members of an object come sorted by key, each key once, and strings escape
quotes, backslashes, control characters, `<`, `>`, `&`, the line and paragraph separators and
stray bytes (as the replacement character).
-/

namespace ChordSearch

/-- A structured value. -/
inductive Value where
  | null
  | bool (b : Bool)
  | num (text : String)
  | str (s : Bytes)
  | arr (items : List Value)
  | obj (members : List (Bytes × Value))
  deriving Inhabited

namespace Value

/-- Four lowercase hex digits of a code below `0x10000`. -/
def hex4 (n : Nat) : String :=
  String.ofList ((List.range 4).reverse.map fun i => Bytes.hexDigit (n / Nat.pow 16 i % 16))

/-- The escaped form of one character inside a JSON string. -/
def escapeChar (c : Char) : String :=
  if c = '"' then "\\\""
  else if c = '\\' then "\\\\"
  else if c = '\n' then "\\n"
  else if c = '\r' then "\\r"
  else if c = '\t' then "\\t"
  else if c = '\x08' then "\\b"
  else if c = '\x0c' then "\\f"
  else if c.toNat < 0x20 || c = '<' || c = '>' || c = '&' || c.toNat = 0x2028 ||
      c.toNat = 0x2029 then "\\u" ++ hex4 c.toNat
  else c.toString

/-- Bytes as a JSON string, stray bytes becoming the replacement character. -/
def quote (b : Bytes) : String :=
  "\"" ++ String.join ((Utf8.chars b).map escapeChar) ++ "\""

/-- Whether bytes sort before others, byte by byte. -/
def keyLt : Bytes → Bytes → Bool
  | [], [] => false
  | [], _ :: _ => true
  | _ :: _, [] => false
  | a :: as, b :: bs => a < b || (a == b && keyLt as bs)

/-- The members of an object, each key once with its last value, sorted by key. -/
def canonical {α : Type} (ms : List (Bytes × α)) : List (Bytes × α) :=
  let lastOnly := ms.zipIdx.filter fun ((k, _), i) =>
    !((ms.drop (i + 1)).any fun (k', _) => k' == k)
  (lastOnly.map (·.1)).mergeSort fun a b => !keyLt b.1 a.1

mutual

/-- A value as compact JSON. -/
def text : Value → String
  | .null => "null"
  | .bool b => if b then "true" else "false"
  | .num t => t
  | .str s => quote s
  | .arr items => "[" ++ ",".intercalate (itemTexts items) ++ "]"
  | .obj ms => "\x7b" ++ ",".intercalate ((canonical (memberTexts ms)).map fun (k, t) =>
      quote k ++ ":" ++ t) ++ "\x7d"

/-- The texts of array items. -/
def itemTexts : List Value → List String
  | [] => []
  | v :: vs => text v :: itemTexts vs

/-- The texts of object members, with their keys. -/
def memberTexts : List (Bytes × Value) → List (Bytes × String)
  | [] => []
  | (k, v) :: ms => (k, text v) :: memberTexts ms

end

mutual

/-- A value with the keys of every object in it lowercased. -/
def lowerKeys : Value → Value
  | .obj ms => .obj (lowerMembers ms)
  | .arr xs => .arr (lowerItems xs)
  | v => v

/-- Members with their keys lowercased. -/
def lowerMembers : List (Bytes × Value) → List (Bytes × Value)
  | [] => []
  | (k, v) :: ms => (Utf8.ofChars ((Utf8.chars k).map Char.toLower), lowerKeys v) :: lowerMembers ms

/-- Items with the keys inside them lowercased. -/
def lowerItems : List Value → List Value
  | [] => []
  | v :: vs => lowerKeys v :: lowerItems vs

end

end Value

end ChordSearch
