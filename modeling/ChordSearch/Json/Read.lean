import ChordSearch.Json.Value
import ChordSearch.Text.Quoted

/-! # Reading JSON

Reading walks the JSON grammar byte by byte and stops at the first byte that cannot
continue it, naming that byte and what was looked for there: the beginning of a value, of
an object key, what may follow a key, a member or an element, the rest of a string, an
escape, a number or a literal. Blanks between tokens are space, tab, line feed and carriage
return.

A string's escapes are resolved: `\uXXXX` pairs of surrogates join into one character, and
a surrogate on its own, like a byte that starts no UTF-8 character, becomes the replacement
character. A number keeps its text.

Two readers share the grammar. `Value.parse` reads a whole text, which holds one value and
blanks around it. `Value.readFirst` reads the first value of a stream and leaves what
follows it unread; a stream with only blanks has no value, which it tells apart from one
that ends inside a value.
-/

namespace ChordSearch

/-- Why JSON text does not read. -/
inductive JsonError where
  /-- A byte that cannot continue the text, and what was looked for there. -/
  | unexpected (b : UInt8) (context : String)
  /-- The text ends inside a value. -/
  | truncated
  /-- The text holds nothing but blanks. -/
  | blank
  deriving DecidableEq, Repr

namespace JsonError

/-- A byte in single quotes, as the character of that code point is quoted in messages. -/
def quoteByte (b : UInt8) : String :=
  if b = 39 then "'\\''"
  else if b = 34 then "'\"'"
  else
    let q := Quoted.quote (Utf8.ofChars [Char.ofNat b.toNat])
    "'" ++ String.ofList ((q.toList.drop 1).dropLast) ++ "'"

/-- The text of a failure to read a whole text. -/
def message : JsonError → String
  | .unexpected b ctx => "invalid character " ++ quoteByte b ++ " " ++ ctx
  | .truncated | .blank => "unexpected end of JSON input"

/-- The text of a failure to read the first value of a stream. -/
def streamMessage : JsonError → String
  | .unexpected b ctx => "invalid character " ++ quoteByte b ++ " " ++ ctx
  | .truncated => "unexpected EOF"
  | .blank => "EOF"

end JsonError

namespace Value

/-- The blanks between tokens. -/
def isBlank (b : UInt8) : Bool := b = 32 || b = 9 || b = 10 || b = 13

/-- Whether a byte is a decimal digit. -/
def isDigitByte (b : UInt8) : Bool := 48 ≤ b && b ≤ 57

/-- The value of a hex digit. -/
def hexDigit? (b : UInt8) : Option Nat :=
  if 48 ≤ b && b ≤ 57 then some (b.toNat - 48)
  else if 97 ≤ b && b ≤ 102 then some (b.toNat - 87)
  else if 65 ≤ b && b ≤ 70 then some (b.toNat - 55)
  else none

/-- What a string holds, piece by piece: raw bytes, or a code unit written `\uXXXX`. -/
inductive Piece where
  | raw (b : UInt8)
  | unit (u : Nat)

/-- A code unit on its own: a surrogate becomes the replacement character. -/
def unitChar (u : Nat) : Char := if 0xD800 ≤ u ∧ u < 0xE000 then '�' else Char.ofNat u

/-- The characters of a string's pieces, `raw` holding the raw bytes read so far in reverse:
raw bytes read as UTF-8, stray bytes and lone surrogates becoming the replacement
character. -/
def decodeOnto (raw : Bytes) : List Piece → List Char
  | [] => Utf8.chars raw.reverse
  | .raw b :: rest => decodeOnto (b :: raw) rest
  | .unit hi :: .unit lo :: rest =>
    if 0xD800 ≤ hi ∧ hi < 0xDC00 ∧ 0xDC00 ≤ lo ∧ lo < 0xE000 then
      Utf8.chars raw.reverse ++
        Char.ofNat (0x10000 + (hi - 0xD800) * 0x400 + (lo - 0xDC00)) :: decodeOnto [] rest
    else Utf8.chars raw.reverse ++ unitChar hi :: decodeOnto [] (.unit lo :: rest)
  | .unit u :: rest => Utf8.chars raw.reverse ++ unitChar u :: decodeOnto [] rest
termination_by ps => ps.length

/-- The bytes of a string's pieces. -/
def decodePieces (ps : List Piece) : Bytes := Utf8.ofChars (decodeOnto [] ps)

/-- The byte an escape letter stands for. -/
def escaped? (b : UInt8) : Option UInt8 :=
  if b = 34 then some 34 else if b = 92 then some 92 else if b = 47 then some 47
  else if b = 98 then some 8 else if b = 102 then some 12 else if b = 110 then some 10
  else if b = 114 then some 13 else if b = 116 then some 9 else none

/-- The value of four hex digits, or the first byte that is no hex digit. -/
def unitOf (ds : List UInt8) : Except JsonError Nat :=
  ds.foldlM (fun acc b => match hexDigit? b with
    | some d => .ok (acc * 16 + d)
    | none => .error (.unexpected b "in \\u hexadecimal character escape")) 0

/-- The rest of a string after its opening quote: its pieces and the bytes after the closing
quote. -/
def readString (acc : List Piece) : Bytes → Except JsonError (List Piece × Bytes)
  | [] => .error .truncated
  | b :: r =>
    if b = 34 then .ok (acc.reverse, r)
    else if b = 92 then
      match r with
      | [] => .error .truncated
      | e :: r' =>
        if e = 117 then
          match r' with
          | a :: b :: c :: d :: r'' =>
            match unitOf [a, b, c, d] with
            | .ok u => readString (.unit u :: acc) r''
            | .error err => .error err
          | short => match unitOf short with
            | .ok _ => .error .truncated
            | .error err => .error err
        else match escaped? e with
          | some x => readString (.raw x :: acc) r'
          | none => .error (.unexpected e "in string escape code")
    else if b < 32 then .error (.unexpected b "in string literal")
    else readString (.raw b :: acc) r

/-- Drop the blanks at the front. -/
def skipBlanks (s : Bytes) : Bytes := s.dropWhile isBlank

/-- The rest of a literal after its first letter: the bytes after it. -/
def readLiteral (name : String) : List UInt8 → Bytes → Except JsonError Bytes
  | [], s => .ok s
  | _ :: _, [] => .error .truncated
  | w :: ws, b :: r =>
    if b = w then readLiteral name ws r
    else .error (.unexpected b ("in literal " ++ name ++ " (expecting '" ++
      String.singleton (Char.ofNat w.toNat) ++ "')"))

/-- Digits at the front, at least one: them and the bytes after, or what stands in place of
the first digit, looked for in `context`. -/
def readDigits (context : String) (s : Bytes) : Except JsonError (Bytes × Bytes) :=
  match s with
  | [] => .error .truncated
  | b :: r =>
    if isDigitByte b then .ok (b :: r.takeWhile isDigitByte, r.dropWhile isDigitByte)
    else .error (.unexpected b context)

/-- A number: an optional minus, an integer part without leading zeros, an optional
fraction and an optional exponent. Its text and the bytes after it. -/
def readNumber (s : Bytes) : Except JsonError (Bytes × Bytes) := do
  let (sign, s) := if s.head? = some 45 then ([(45 : UInt8)], s.drop 1) else ([], s)
  let (int, s) ← match s with
    | b :: r => if b = 48 then pure ([b], r) else readDigits "in numeric literal" (b :: r)
    | [] => .error .truncated
  let (frac, s) ← if s.head? = some 46 then do
      let (ds, r) ← readDigits "after decimal point in numeric literal" (s.drop 1)
      pure ((46 : UInt8) :: ds, r)
    else pure ([], s)
  let (exp, s) ← match s with
    | e :: r =>
      if e = 101 || e = 69 then do
        let (sg, r) := match r with
          | c :: r' => if c = 43 || c = 45 then ([c], r') else ([], c :: r')
          | [] => ([], [])
        let (ds, r) ← readDigits "in exponent of numeric literal" r
        pure (e :: sg ++ ds, r)
      else pure ([], e :: r)
    | [] => pure ([], [])
  return (sign ++ int ++ frac ++ exp, s)

/-- The text of number bytes. -/
def numberText (b : Bytes) : String := String.ofList (b.map fun x => Char.ofNat x.toNat)

mutual

/-- One value after optional blanks, and the bytes after it; `fuel` bounds the nesting. -/
def readValue : Nat → Bytes → Except JsonError (Value × Bytes)
  | 0, _ => .error .truncated
  | fuel + 1, s =>
    match skipBlanks s with
    | [] => .error .truncated
    | b :: r =>
      if b = 123 then
        match skipBlanks r with
        | c :: r' => if c = 125 then .ok (.obj [], r') else readMembers fuel [] (c :: r')
        | [] => .error .truncated
      else if b = 91 then
        match skipBlanks r with
        | c :: r' => if c = 93 then .ok (.arr [], r') else readItems fuel [] (c :: r')
        | [] => .error .truncated
      else if b = 34 then (readString [] r).map fun (ps, r) => (.str (decodePieces ps), r)
      else if b = 45 || isDigitByte b then
        (readNumber (b :: r)).map fun (t, r) => (.num (numberText t), r)
      else if b = 116 then (readLiteral "true" [114, 117, 101] r).map ((.bool true, ·))
      else if b = 102 then (readLiteral "false" [97, 108, 115, 101] r).map ((.bool false, ·))
      else if b = 110 then (readLiteral "null" [117, 108, 108] r).map ((.null, ·))
      else .error (.unexpected b "looking for beginning of value")

/-- The members of an object from a key on, those read so far in reverse. -/
def readMembers : Nat → List (Bytes × Value) → Bytes → Except JsonError (Value × Bytes)
  | 0, _, _ => .error .truncated
  | fuel + 1, acc, s =>
    match skipBlanks s with
    | [] => .error .truncated
    | b :: r =>
      if b ≠ 34 then .error (.unexpected b "looking for beginning of object key string")
      else match readString [] r with
        | .error e => .error e
        | .ok (ps, r) =>
          match skipBlanks r with
          | [] => .error .truncated
          | c :: r =>
            if c ≠ 58 then .error (.unexpected c "after object key")
            else match readValue fuel r with
              | .error e => .error e
              | .ok (v, r) =>
                let acc := (decodePieces ps, v) :: acc
                match skipBlanks r with
                | [] => .error .truncated
                | d :: r =>
                  if d = 44 then readMembers fuel acc r
                  else if d = 125 then .ok (.obj acc.reverse, r)
                  else .error (.unexpected d "after object key:value pair")

/-- The elements of an array from an element on, those read so far in reverse. -/
def readItems : Nat → List Value → Bytes → Except JsonError (Value × Bytes)
  | 0, _, _ => .error .truncated
  | fuel + 1, acc, s =>
    match readValue fuel s with
    | .error e => .error e
    | .ok (v, r) =>
      match skipBlanks r with
      | [] => .error .truncated
      | d :: r =>
        if d = 44 then readItems fuel (v :: acc) r
        else if d = 93 then .ok (.arr (v :: acc).reverse, r)
        else .error (.unexpected d "after array element")

end

/-- Read a whole text holding one value with blanks around it. -/
def parse (s : Bytes) : Except JsonError Value :=
  if (skipBlanks s).isEmpty then .error .blank
  else match readValue (s.length + 1) s with
    | .error e => .error e
    | .ok (v, r) =>
      match skipBlanks r with
      | [] => .ok v
      | b :: _ => .error (.unexpected b "after top-level value")

/-- Read the first value of a stream, leaving the bytes after it. -/
def readFirst (s : Bytes) : Except JsonError (Value × Bytes) :=
  if (skipBlanks s).isEmpty then .error .blank else readValue (s.length + 1) s

/-- The member of an object under a key, the last one when the key repeats. -/
def member? (v : Value) (key : String) : Option Value :=
  match v with
  | .obj ms => (ms.reverse.find? (·.1 = Bytes.ofString key)).map (·.2)
  | _ => none

end Value

end ChordSearch
