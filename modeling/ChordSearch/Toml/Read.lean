import ChordSearch.Yaml.Read

/-! # Reading TOML configuration

Configuration files in TOML are read line by line: `key = value` sets a key of the current
table, `[name]` (or `[a.b]`) opens a table, and `#` starts a comment outside strings. A key
is bare (letters, digits, `_` and `-`) or quoted, and a dotted key names nested tables.

A value is a basic string in double quotes with backslash escapes, a literal string in
single quotes, `true` or `false`, a whole number (with `_` between digits, or a `0x`, `0o`
or `0b` prefix), a float, an array `[...]` or an inline table `{k = v, ...}`, each on its
line. A key set twice is refused, as is a line that is none of these.
-/

namespace ChordSearch.Toml

/-- Why a TOML text is refused; the text says it. -/
structure ReadError where
  message : String
  deriving DecidableEq, Repr

/-- Whether a character may stand in a bare key. -/
def isBareChar (c : Char) : Bool := c.isAlphanum || c = '_' || c = '-'

/-- Drop blanks at the front. -/
def skipBlanks (cs : List Char) : List Char := cs.dropWhile fun c => c = ' ' ∨ c = '\t'

/-- A key: its dotted parts and the rest of the line. -/
def readKey (cs : List Char) : Except ReadError (List String × List Char) :=
  let rec part (cs : List Char) : Except ReadError (String × List Char) :=
    match skipBlanks cs with
    | '"' :: r => match Yaml.doubleQuoted [] r with
      | some (k, rest) => .ok (String.ofList k, rest)
      | none => .error ⟨"toml: unterminated basic string"⟩
    | '\'' :: r =>
      let k := r.takeWhile (· ≠ '\'')
      match r.drop k.length with
      | '\'' :: rest => .ok (String.ofList k, rest)
      | _ => .error ⟨"toml: unterminated literal string"⟩
    | c :: r =>
      if isBareChar c then
        let k := (c :: r).takeWhile isBareChar
        .ok (String.ofList k, (c :: r).drop k.length)
      else .error ⟨"toml: invalid character at start of key: " ++ String.singleton c⟩
    | [] => .error ⟨"toml: expected key but got end of line"⟩
  let rec parts (fuel : Nat) (acc : List String) (cs : List Char) :
      Except ReadError (List String × List Char) :=
    match fuel with
    | 0 => .ok (acc.reverse, cs)
    | fuel + 1 => do
      let (p, rest) ← part cs
      match skipBlanks rest with
      | '.' :: r => parts fuel (p :: acc) r
      | r => .ok ((p :: acc).reverse, r)
  parts (cs.length + 1) [] cs

/-- A scalar value's text up to a delimiter of arrays and inline tables. -/
def scalarText (cs : List Char) : List Char × List Char :=
  let t := cs.takeWhile fun c => c ≠ ',' ∧ c ≠ ']' ∧ c ≠ '}' ∧ c ≠ ' ' ∧ c ≠ '\t'
  (t, cs.drop t.length)

/-- A character after a value where the line should end. -/
def strayAfterValue (c : Char) : ReadError :=
  ⟨"toml: expected newline but got " ++ Quoted.codePoint c.toNat⟩

/-- Why a bare scalar is no value: a word that starts like `true`, `false`, `inf` or `nan`
but is not one, a number followed by something else, or no number at all. -/
def refusal : List Char → ReadError
  | 't' :: _ => ⟨"toml: expected 'true'"⟩
  | 'f' :: _ => ⟨"toml: expected 'false'"⟩
  | 'i' :: _ => ⟨"toml: expected 'inf'"⟩
  | 'n' :: _ => ⟨"toml: expected 'nan'"⟩
  | cs =>
    let numeric := cs.takeWhile fun c => c.isDigit ∨ c = '+' ∨ c = '-' ∨ c = '_' ∨ c = '.' ∨ c = 'e' ∨ c = 'E'
    match cs.drop numeric.length with
    | c :: _ => if numeric.isEmpty then ⟨"toml: incomplete number"⟩ else strayAfterValue c
    | [] => ⟨"toml: incomplete number"⟩

/-- The value of a bare scalar: a boolean, a whole number or a float. -/
def bareValue (t : String) : Except ReadError Value :=
  if t = "true" then .ok (.bool true)
  else if t = "false" then .ok (.bool false)
  else
    let plain := String.ofList (t.toList.filter (· ≠ '_'))
    let unsigned := match plain.toList with | '+' :: r => r | '-' :: r => r | r => r
    let leadingZero := unsigned.length > 1 ∧ unsigned.head? = some '0' ∧ unsigned.all Char.isDigit
    if leadingZero then .error ⟨"toml: leading zeroes are not allowed in integers"⟩
    else match Integer.readInt plain 64 with
      | .ok v => .ok (.num (toString v))
      | .error _ =>
        if Yaml.isFloatText plain then .ok (.num plain)
        else if t = "inf" ∨ t = "+inf" ∨ t = "-inf" ∨ t = "nan" ∨ t = "+nan" ∨ t = "-nan" then
          .ok (.num "0")
        else .error (refusal t.toList)

mutual

/-- One value and the rest of the line. -/
def readValue : Nat → List Char → Except ReadError (Value × List Char)
  | 0, _ => .error ⟨"toml: value too deeply nested"⟩
  | fuel + 1, cs =>
    match skipBlanks cs with
    | '"' :: r => match Yaml.doubleQuoted [] r with
      | some (s, rest) => .ok (.str (Bytes.ofString (String.ofList s)), rest)
      | none => .error ⟨"toml: basic string not terminated by \""⟩
    | '\'' :: r =>
      let s := r.takeWhile (· ≠ '\'')
      match r.drop s.length with
      | '\'' :: rest => .ok (.str (Bytes.ofString (String.ofList s)), rest)
      | _ => .error ⟨"toml: unterminated literal string"⟩
    | '[' :: r => readArray fuel [] r
    | '{' :: r => readInline fuel [] r
    | [] => .error ⟨"toml: incomplete number"⟩
    | c :: r =>
      let (t, rest) := scalarText (c :: r)
      match bareValue (String.ofList t) with
      | .ok v => .ok (v, rest)
      | .error e => .error e

/-- The items of an array after its bracket, read so far in reverse. -/
def readArray : Nat → List Value → List Char → Except ReadError (Value × List Char)
  | 0, _, _ => .error ⟨"toml: value too deeply nested"⟩
  | fuel + 1, acc, cs =>
    match skipBlanks cs with
    | ']' :: r => .ok (.arr acc.reverse, r)
    | rest =>
      match readValue fuel rest with
      | .error e => .error e
      | .ok (v, r) =>
        match skipBlanks r with
        | ',' :: r' => readArray fuel (v :: acc) r'
        | ']' :: r' => .ok (.arr (v :: acc).reverse, r')
        | _ => .error ⟨"toml: array is incomplete"⟩

/-- The members of an inline table after its brace, read so far in reverse. -/
def readInline : Nat → List (Bytes × Value) → List Char → Except ReadError (Value × List Char)
  | 0, _, _ => .error ⟨"toml: value too deeply nested"⟩
  | fuel + 1, acc, cs =>
    match skipBlanks cs with
    | '}' :: r => .ok (.obj acc.reverse, r)
    | rest =>
      match readKey rest with
      | .error e => .error e
      | .ok (ks, r) =>
        match skipBlanks r with
        | '=' :: r' =>
          match readValue fuel r' with
          | .error e => .error e
          | .ok (v, r'') =>
            let k := Bytes.ofString (".".intercalate ks)
            match skipBlanks r'' with
            | ',' :: r3 => readInline fuel ((k, v) :: acc) r3
            | '}' :: r3 => .ok (.obj ((k, v) :: acc).reverse, r3)
            | _ => .error ⟨"toml: inline table is incomplete"⟩
        | _ => .error ⟨"toml: expected character ="⟩

end

/-- A line with its comment removed, outside strings. -/
def stripComment (cs : List Char) : List Char :=
  let rec go (quote : Option Char) : List Char → List Char
    | [] => []
    | c :: r =>
      match quote with
      | some q => c :: go (if c = q then none else some q) r
      | none =>
        if c = '#' then []
        else if c = '"' ∨ c = '\'' then c :: go (some c) r
        else c :: go none r
  go none cs

/-- Set a value at a key path inside a table, refusing a key set twice. -/
def setPath : List String → Value → List (Bytes × Value) → Except ReadError (List (Bytes × Value))
  | [], _, ms => .ok ms
  | [k], v, ms =>
    let key := Bytes.ofString k
    if ms.any (·.1 = key) then .error ⟨"toml: key " ++ k ++ " is already defined"⟩
    else .ok (ms ++ [(key, v)])
  | k :: rest, v, ms =>
    let key := Bytes.ofString k
    match ms.find? (·.1 = key) with
    | some (_, .obj inner) => do
      let inner ← setPath rest v inner
      return ms.map fun (k', x) => if k' = key then (k', .obj inner) else (k', x)
    | some _ => .error ⟨"toml: key " ++ k ++ " is already defined"⟩
    | none => do
      let inner ← setPath rest v []
      return ms ++ [(key, .obj inner)]

/-- Open a table at a path, creating the tables on the way. -/
def openPath (path : List String) (ms : List (Bytes × Value)) : Except ReadError (List (Bytes × Value)) :=
  match path with
  | [] => .ok ms
  | k :: rest =>
    let key := Bytes.ofString k
    match ms.find? (·.1 = key) with
    | some (_, .obj inner) => do
      let inner ← openPath rest inner
      return ms.map fun (k', x) => if k' = key then (k', .obj inner) else (k', x)
    | some _ => .error ⟨"toml: key " ++ k ++ " is already defined"⟩
    | none => do
      let inner ← openPath rest []
      return ms ++ [(key, .obj inner)]

/-- Read a TOML document into a table. -/
def readTable (text : String) : Except ReadError Value := do
  let mut root : List (Bytes × Value) := []
  let mut current : List String := []
  let lines := text.splitOn "\n"
  for (raw, i) in lines.zipIdx do
    let cs := Yaml.trimBlanks (stripComment raw.toList)
    let cs := if cs.getLast? = some '\r' then cs.dropLast else cs
    match cs with
    | [] => pure ()
    | '[' :: r =>
      let (ks, rest) ← readKey r
      match skipBlanks rest with
      | [']'] =>
        root ← openPath ks root
        current := ks
      | _ => throw ⟨"toml: expected character ]"⟩
    | _ =>
      let (ks, rest) ← readKey cs
      match skipBlanks rest with
      | '=' :: r =>
        if (skipBlanks r).isEmpty ∧ i + 1 = lines.length then throw ⟨"toml: expected value, not eof"⟩
        let (v, after) ← readValue (r.length + 1) r
        match skipBlanks after with
        | c :: _ => throw (strayAfterValue c)
        | [] => pure ()
        root ← setPath (current ++ ks) v root
      | _ => throw ⟨"toml: expected character ="⟩
  return (Value.obj root).lowerKeys

end ChordSearch.Toml
