import ChordSearch.Yaml.Read
import ChordSearch.Toml.Read
import ChordSearch.Json.Read

/-! # Configuration files

A configuration file is read by the format its name's extension names: `json`, `toml`,
`yaml` or `yml`, the key-value formats `properties`, `props`, `prop`, `env`, `dotenv` and
`ini`, and `hcl` or `tfvars`. The extension is compared as written, so `cfg.YAML` is
refused. A file is found by its name in the working directory.

Whatever the format, the file must hold a table; its keys are compared without regard to
case, so they are lowered, at every depth. In the key-value formats every value is text,
and a dotted key names nested tables. An `ini` file keeps the keys before its first section
under `default`.

A file is refused, in this order, for an extension that names no format, for not being
there, and for not reading in its format.
-/

namespace ChordSearch

/-- The formats of configuration files. -/
inductive FileFormat where
  | json
  | toml
  | yaml
  | properties
  | dotenv
  | ini
  | hcl
  deriving DecidableEq, Repr

/-- The format an extension names. -/
def FileFormat.ofExtension : String → Option FileFormat
  | "json" => some .json
  | "toml" => some .toml
  | "yaml" | "yml" => some .yaml
  | "properties" | "props" | "prop" => some .properties
  | "dotenv" | "env" => some .dotenv
  | "ini" => some .ini
  | "hcl" | "tfvars" => some .hcl
  | _ => none

/-- Why a configuration file is refused. -/
inductive FileError where
  | unsupported (extension : String)
  | missing (path : String)
  | directory (path : String)
  | malformed (reason : String)
  deriving DecidableEq, Repr

/-- The text of a refusal. -/
def FileError.message : FileError → String
  | .unsupported e => "Unsupported Config Type " ++ Quoted.quoteString e
  | .missing p => "open " ++ p ++ ": no such file or directory"
  | .directory p => "read " ++ p ++ ": is a directory"
  | .malformed r => "While parsing config: " ++ r

namespace ConfigFile

/-- The extension of a path: what follows the last dot of its last part, if anything
does. -/
def extension (path : String) : String :=
  let last := (path.splitOn "/").getLast?.getD ""
  match last.splitOn "." with
  | [_] => ""
  | parts => parts.getLast?.getD ""

/-- A path relative to the working directory, without leading `./`. -/
def relative (path : String) : String :=
  let rec strip : Nat → List Char → List Char
    | 0, cs => cs
    | n + 1, '.' :: '/' :: r => strip n (r.dropWhile (· = '/'))
    | _, cs => cs
  String.ofList (strip path.length path.toList)

/-- Set a value at a dotted key path in a table, making the tables on the way. -/
def insertPath : List String → Value → List (Bytes × Value) → List (Bytes × Value)
  | [], _, ms => ms
  | [k], v, ms =>
    let key := Bytes.ofString k
    if ms.any (·.1 = key) then ms.map fun (k', x) => if k' = key then (k', v) else (k', x)
    else ms ++ [(key, v)]
  | k :: rest, v, ms =>
    let key := Bytes.ofString k
    match ms.find? (·.1 = key) with
    | some (_, .obj inner) =>
      ms.map fun (k', x) => if k' = key then (k', .obj (insertPath rest v inner)) else (k', x)
    | some _ => ms.map fun (k', x) => if k' = key then (k', .obj (insertPath rest v [])) else (k', x)
    | none => ms ++ [(key, .obj (insertPath rest v []))]

/-- Text with blanks at both ends removed. -/
def trim (s : String) : String := String.ofList (Yaml.trimBlanks s.toList)

/-- A key and value split at the first of the separators. -/
def splitAt (seps : List Char) (line : String) : Option (String × String) :=
  let cs := line.toList
  let key := cs.takeWhile fun c => !seps.contains c
  match cs.drop key.length with
  | _ :: value => some (trim (String.ofList key), trim (String.ofList value))
  | [] => none

/-- Text without one pair of surrounding quotes. -/
def unquote (s : String) : String :=
  match s.toList with
  | '"' :: r => if r.getLast? = some '"' then String.ofList r.dropLast else s
  | '\'' :: r => if r.getLast? = some '\'' then String.ofList r.dropLast else s
  | _ => s

/-- The lines of a key-value file, without blanks, comments or carriage returns. -/
def contentLines (comments : List Char) (text : String) : List String :=
  (text.splitOn "\n").filterMap fun l =>
    let t := trim l
    match t.toList with
    | [] => none
    | c :: _ => if comments.contains c then none else some t

/-- Read a properties file: `key = value`, `key: value` or `key value` lines. -/
def readProperties (text : String) : Value :=
  .obj ((contentLines ['#', '!'] text).foldl (fun ms l =>
    match splitAt ['=', ':', ' ', '\t'] l with
    | some (k, v) => insertPath (k.splitOn ".") (.str (Bytes.ofString v)) ms
    | none => insertPath (l.splitOn ".") (.str []) ms) [])

/-- Read an environment file: `KEY=VALUE` lines, perhaps after `export`. -/
def readDotenv (text : String) : Value :=
  .obj ((contentLines ['#'] text).foldl (fun ms l =>
    let l := if l.startsWith "export " then trim (String.ofList (l.toList.drop 7)) else l
    match splitAt ['=', ':'] l with
    | some (k, v) => insertPath [k] (.str (Bytes.ofString (unquote v))) ms
    | none => ms) [])

/-- Read an ini file: sections in brackets, `key = value` lines under them. -/
def readIni (text : String) : Value :=
  let (ms, _) := (contentLines ['#', ';'] text).foldl (fun (ms, current) l =>
    match l.toList with
    | '[' :: r =>
      if r.getLast? = some ']' then (ms, trim (String.ofList r.dropLast)) else (ms, current)
    | _ =>
      match splitAt ['=', ':'] l with
      | some (k, v) => (insertPath (current.splitOn "." ++ [k]) (.str (Bytes.ofString (unquote v))) ms, current)
      | none => (insertPath (current.splitOn "." ++ [l]) (.str []) ms, current))
    (([] : List (Bytes × Value)), "DEFAULT")
  .obj ms

/-- The kind of a JSON value that is not a table, as a refusal names it. -/
def kindName : Value → String
  | .arr _ => "array"
  | .num _ => "number"
  | .str _ => "string"
  | .bool _ => "bool"
  | _ => "value"

/-- Read a file's text in a format into a table. -/
def decode (fmt : FileFormat) (text : Bytes) : Except String Value :=
  let s := Bytes.show text
  match fmt with
  | .json =>
    match Value.parse text with
    | .error e => .error e.message
    | .ok (.obj ms) => .ok (.obj ms)
    | .ok .null => .ok (.obj [])
    | .ok v => .error ("json: cannot unmarshal " ++ kindName v ++
        " into Go value of type map[string]interface \x7b\x7d")
  | .yaml => (Yaml.readTable s).mapError (·.message)
  | .toml | .hcl => (Toml.readTable s).mapError (·.message)
  | .properties => .ok (readProperties s)
  | .dotenv => .ok (readDotenv s)
  | .ini => .ok (readIni s)

/-- Read the configuration file at `path` among the files of the working directory. -/
def read (files : List (Bytes × Bytes)) (path : String) : Except FileError Value := do
  let ext := extension path
  let some fmt := FileFormat.ofExtension ext | throw (.unsupported ext)
  let name := Bytes.ofString (relative path)
  match files.find? (·.1 = name) with
  | some (_, text) =>
    match decode fmt text with
    | .ok v => return v.lowerKeys
    | .error r => throw (.malformed r)
  | none =>
    if files.any fun (n, _) => name ++ [47] = n.take (name.length + 1) then throw (.directory path)
    else throw (.missing path)

end ConfigFile

end ChordSearch
