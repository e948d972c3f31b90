import ChordSearch.Text.Csv
import ChordSearch.Text.Integer
import ChordSearch.Text.Quoted
import ChordSearch.Time.Duration

/-! # Flags

A flag has a long name, perhaps a one-letter name, a kind and a default value. The kinds
are text, signed and unsigned whole numbers, durations, booleans and tables of `key=value`
pairs. Reading the words of a command line sets flags and keeps the other words, in order,
as arguments:

* `--name=value` and `--name value` set a flag; a boolean may stand alone, meaning `true`;
* `-x` sets a flag by its letter, `-xvalue` and `-x=value` too, and letters of booleans may
  run together (`-hh`);
* `--` ends the flags, and a lone `-` is an argument;
* the help flag (`--help`, `-h`) is a boolean every command has.

A value that does not read is refused with the flag's names and the reason. Text is taken
as it is; whole numbers pick their base from a prefix; a duration has units; a boolean is
one of `1 t T TRUE true True 0 f F FALSE false False`. A table value is one pair, or, when
it holds more than one `=`, comma-separated pairs; setting a table again adds its pairs.

The usage lines list flags by name: the names and the kind, padded to one column, then the
usage text and the default when it is not the zero of its kind.
-/

namespace ChordSearch

/-- The kinds of value a flag takes. -/
inductive FlagKind where
  | text
  | int
  | uint32
  | duration
  | bool
  | table
  deriving DecidableEq, Repr

/-- A value of a flag. -/
inductive FlagValue where
  | text (s : String)
  | int (i : Int)
  | uint32 (n : Nat)
  | duration (ns : Int)
  | bool (b : Bool)
  | table (pairs : List (String × String))
  deriving DecidableEq, Repr

/-- A flag: long name, optional letter, kind, default and usage text. -/
structure Flag where
  name : String
  letter : Option Char := none
  kind : FlagKind
  default : FlagValue
  usage : String
  deriving Repr

/-- The help flag of the command named `command`. -/
def Flag.help (command : String) : Flag :=
  { name := "help", letter := some 'h', kind := .bool, default := .bool false,
    usage := "help for " ++ command }

/-- Why the words of a command line do not read as flags. -/
inductive FlagError where
  | badSyntax (word : String)
  | unknown (name : String)
  | unknownLetter (letter : Char) (letters : String)
  | missingValue (word : String)
  | missingLetterValue (letter : Char) (letters : String)
  | invalid (value flag reason : String)
  deriving DecidableEq, Repr

namespace FlagKind

/-- The name of a kind in usage lines; a boolean shows none. -/
def typeName : FlagKind → String
  | .text => "string"
  | .int => "int"
  | .uint32 => "uint32"
  | .duration => "duration"
  | .bool => ""
  | .table => "stringToString"

end FlagKind

/-- A character in single quotes, escaped as in double quotes except for the quotes. -/
def quoteChar (c : Char) : String :=
  let body := if c = '\'' then "\\'" else if c = '"' then "\"" else Quoted.escape (.scalar c)
  "'" ++ body ++ "'"

/-- The text of a flag error. -/
def FlagError.message : FlagError → String
  | .badSyntax w => "bad flag syntax: " ++ w
  | .unknown n => "unknown flag: --" ++ n
  | .unknownLetter c ls => "unknown shorthand flag: " ++ quoteChar c ++ " in -" ++ ls
  | .missingValue w => "flag needs an argument: " ++ w
  | .missingLetterValue c ls => "flag needs an argument: " ++ quoteChar c ++ " in -" ++ ls
  | .invalid v f r => "invalid argument " ++ Quoted.quoteString v ++ " for " ++ Quoted.quoteString f ++
      " flag: " ++ r

namespace FlagValue

/-- Read a boolean. -/
def readBool (s : String) : Except String Bool :=
  if ["1", "t", "T", "TRUE", "true", "True"].contains s then .ok true
  else if ["0", "f", "F", "FALSE", "false", "False"].contains s then .ok false
  else .error ("strconv.ParseBool: parsing " ++ Quoted.quoteString s ++ ": invalid syntax")

/-- Split `key=value` pairs, refusing a pair without `=`. -/
def pairs : List String → Except String (List (String × String))
  | [] => .ok []
  | p :: ps =>
    match p.splitOn "=" with
    | k :: v :: more => do
      let rest ← pairs ps
      return (k, "=".intercalate (v :: more)) :: rest
    | _ => .error (p ++ " must be formatted as key=value")

/-- Pairs of a table value, later keys replacing earlier ones. -/
def addPairs (old new : List (String × String)) : List (String × String) :=
  new.foldl (fun acc (k, v) => acc.filter (·.1 ≠ k) ++ [(k, v)]) old

/-- Read a table value: one pair, or comma-separated pairs when it holds several `=`. -/
def readTable (s : String) : Except String (List (String × String)) := do
  let n := (s.toList.filter (· = '=')).length
  let items ← if n = 0 then throw (s ++ " must be formatted as key=value")
    else if n = 1 then pure [String.ofList ((s.toList.dropWhile (· = '"')).reverse.dropWhile (· = '"')).reverse]
    else match Csv.firstRecord s with
      | .ok fs => pure fs
      | .error e => throw e.message
  let ps ← pairs items
  return addPairs [] ps

/-- The value of a flag of kind `k` set to `s`, given its value so far (`changed` says
it was set before). -/
def read (k : FlagKind) (before : FlagValue) (changed : Bool) (s : String) : Except String FlagValue :=
  match k with
  | .text => .ok (.text s)
  | .int => match Integer.readInt s 64 with
    | .ok i => .ok (.int i)
    | .error e => .error (e.message "ParseInt" s)
  | .uint32 => match Integer.readNat s 32 with
    | .ok n => .ok (.uint32 n)
    | .error e => .error (e.message "ParseUint" s)
  | .duration => match Duration.read s with
    | .ok d => .ok (.duration d)
    | .error e => .error e.message
  | .bool => (readBool s).map .bool
  | .table => do
    let ps ← readTable s
    match before, changed with
    | .table old, true => return .table (addPairs old ps)
    | _, _ => return .table ps

/-- The default as usage lines show it, or nothing when it is the zero of its kind. -/
def shown : FlagValue → Option String
  | .text s => if s.isEmpty then none else some (Quoted.quoteString s)
  | .int i => if i = 0 then none else some (toString i)
  | .uint32 n => if n = 0 then none else some (toString n)
  | .duration d => if d = 0 then none else some (Duration.text d)
  | .bool b => if b then some "true" else none
  | .table ps => some ("[" ++ ",".intercalate (ps.map fun (k, v) => k ++ "=" ++ v) ++ "]")

end FlagValue

namespace Flag

/-- How a flag is named in a refusal of its value. -/
def title (f : Flag) : String :=
  match f.letter with
  | some c => "-" ++ String.singleton c ++ ", --" ++ f.name
  | none => "--" ++ f.name

/-- Whether a flag may stand without a value. -/
def standsAlone (f : Flag) : Bool := f.kind = .bool

/-- The names and kind of a flag, the first part of its usage line. -/
def head (f : Flag) : String :=
  let names := match f.letter with
    | some c => "  -" ++ String.singleton c ++ ", --" ++ f.name
    | none => "      --" ++ f.name
  let t := f.kind.typeName
  if t.isEmpty then names else names ++ " " ++ t

/-- The usage text and shown default, the second part of its usage line. -/
def tail (f : Flag) : String :=
  f.usage ++ match f.default.shown with
    | some d => " (default " ++ d ++ ")"
    | none => ""

end Flag

/-- The usage lines of some flags, sorted by name, their second parts in one column. -/
def flagUsages (fs : List Flag) : List String :=
  let sorted := fs.mergeSort fun a b => decide (a.name ≤ b.name)
  let width := (sorted.map fun f => f.head.length + 1).foldl max 0
  sorted.map fun f => f.head ++ String.ofList (List.replicate (width - f.head.length + 2) ' ') ++ f.tail

/-- Flags set so far: the set values by name, and the other words in order. -/
structure FlagState where
  set : List (String × FlagValue) := []
  args : List String := []
  deriving Repr

namespace FlagState

/-- The value of a flag: the one set, or its default. -/
def valueOf (st : FlagState) (f : Flag) : FlagValue :=
  ((st.set.find? (·.1 = f.name)).map (·.2)).getD f.default

/-- Whether a flag was set. -/
def changed (st : FlagState) (name : String) : Bool := st.set.any (·.1 = name)

/-- Set a flag from text. -/
def assign (st : FlagState) (f : Flag) (value : String) : Except FlagError FlagState :=
  match FlagValue.read f.kind (st.valueOf f) (st.changed f.name) value with
  | .ok v => .ok { st with set := st.set.filter (·.1 ≠ f.name) ++ [(f.name, v)] }
  | .error r => .error (.invalid value f.title r)

end FlagState

/-- The byte a letter of a flag word is named by in a refusal: a character beyond ASCII
stands for its first byte. -/
def letterByte (c : Char) : Char :=
  if c.toNat < 128 then c
  else match Bytes.ofString (String.singleton c) with
    | b :: _ => Char.ofNat b.toNat
    | [] => c

/-- Read the letters after one `-`: each sets a flag; a letter taking a value takes the
rest of the word, or else the next word (`next`). The flag says whether the next word was
taken. -/
def readLetters (fs : List Flag) (st : FlagState) (next : Option String) :
    List Char → Except FlagError (FlagState × Bool)
  | [] => .ok (st, false)
  | c :: rest =>
    let letters := String.ofList (c :: rest)
    match fs.find? (·.letter = some c) with
    | none => .error (.unknownLetter (letterByte c) letters)
    | some f =>
      match rest with
      | '=' :: v :: more => do
        let st ← st.assign f (String.ofList (v :: more))
        return (st, false)
      | _ =>
        if f.standsAlone then do
          let st ← st.assign f "true"
          readLetters fs st next rest
        else if !rest.isEmpty then do
          let st ← st.assign f (String.ofList rest)
          return (st, false)
        else match next with
          | some v => do
            let st ← st.assign f v
            return (st, true)
          | none => .error (.missingLetterValue (letterByte c) letters)

/-- Read the words of a command line against some flags. -/
def readFlags (fs : List Flag) : FlagState → List String → Except FlagError FlagState
  | st, [] => .ok { st with args := st.args.reverse }
  | st, w :: ws =>
    match w.toList with
    | '-' :: '-' :: [] => .ok { st with args := st.args.reverse ++ ws }
    | '-' :: '-' :: name =>
      match name with
      | '-' :: _ | '=' :: _ => .error (.badSyntax w)
      | _ =>
        let key := String.ofList (name.takeWhile (· ≠ '='))
        let given := match name.dropWhile (· ≠ '=') with
          | '=' :: v => some (String.ofList v)
          | _ => none
        match fs.find? (·.name = key) with
        | none => .error (.unknown key)
        | some f =>
          match given with
          | some v => do readFlags fs (← st.assign f v) ws
          | none =>
            if f.standsAlone then do readFlags fs (← st.assign f "true") ws
            else match ws with
              | v :: more => do readFlags fs (← st.assign f v) more
              | [] => .error (.missingValue w)
    | '-' :: c :: rest =>
      match readLetters fs st ws.head? (c :: rest) with
      | .error e => .error e
      | .ok (st, true) =>
        match ws with
        | _ :: more => readFlags fs st more
        | [] => readFlags fs st []
      | .ok (st, false) => readFlags fs st ws
    | _ => readFlags fs { st with args := w :: st.args } ws

end ChordSearch
