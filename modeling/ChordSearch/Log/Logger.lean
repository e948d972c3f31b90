import ChordSearch.Log.Line

/-! # Loggers

A log is set up from a configuration: a level, a format (console lines or structured
records), console output to standard output, standard error or an in-memory buffer, an
optional log file, fields every entry carries, whether entries record their caller, and
whether writing is asynchronous. Setting up fails on an unreadable level, on a log file
without a path, and when a directory of the log file's path is an existing file.

Loggers are handles on the log. A child logger carries its parent's fields and level at the
time it is made, plus its own fields. An entry below a logger's level is not written. The
console gets a console line or a record, by format; the file always gets records. Closing
the log closes the file (the next entry opens it again) and stops an asynchronous writer,
after which entries are lost.
-/

namespace ChordSearch

/-- How a log is set up. -/
structure LogConfig where
  level : Bytes := Bytes.ofString "info"
  format : Bytes := Bytes.ofString "console"
  console : Bool := true
  noColor : Bool := false
  timeFormat : Bytes := Bytes.ofString "15:04:05.000"
  target : Bytes := Bytes.ofString "stderr"
  file : Bool := false
  path : Bytes := Bytes.ofString "gusearch.log"
  fields : List (Bytes × Value) := []
  caller : Bool := false
  async : Bool := false
  bufferSize : Int := 10000

/-- Why a log cannot be set up. -/
inductive LogSetupError where
  | badLevel (text : Bytes) (e : LogLevel.ParseError)
  | noPath
  | notADirectory (path : Bytes)
  deriving DecidableEq

/-- The text of a setup error. -/
def LogSetupError.message : LogSetupError → String
  | .badLevel t e => "invalid log level " ++ Quoted.quote t ++ ": " ++ e.message
  | .noPath => "file output requires a path"
  | .notADirectory p => "failed to create log directory: mkdir " ++ String.ofList (Utf8.chars p) ++
      ": not a directory"

/-- A written line: a structured record or plain text. -/
inductive LogLine where
  | record (members : List (Bytes × Value))
  | text (t : Bytes)

/-- A logger: its level and the fields its entries carry. -/
structure Logger where
  level : LogLevel
  fields : List (Bytes × Value)

/-- A log with its named loggers and everything written so far. -/
structure Journal where
  config : LogConfig
  loggers : Array Logger
  names : List (Bytes × Nat)
  buffer : Array LogLine := #[]
  std : Array LogLine := #[]
  file : Option (Array LogLine) := none
  closed : Bool := false

namespace Journal

/-- The instant entries are stamped with. -/
def stamp : Instant := ⟨2024, 1, 1, 1, 1, 0, 0, 0, 0⟩

/-- The stamp as a record's time. -/
def stampText : Bytes := Bytes.ofString "2024-01-01T00:00:00Z"

/-- The directory part of a path: everything before the last slash, or `.`. -/
def dirOf (p : Bytes) : Bytes :=
  match (p.reverse.dropWhile (· != 47)) with
  | [] => Bytes.ofString "."
  | _ :: rest => if rest.isEmpty then [47] else rest.reverse

/-- The prefixes of a directory path that end at a slash or at its end, shortest first. -/
def prefixes (d : Bytes) : List Bytes :=
  ((List.range d.length).filter fun i => d[i]? == some 47 && i > 0).map (d.take ·) ++ [d]

/-- Lines of text as plain lines. -/
def textLines (t : Bytes) : Array LogLine :=
  ((t.splitOn 10).filter (!·.isEmpty)).toArray.map .text

/-- Set up a log, given the files already present; the root logger is named `root`. -/
def start (cfg : LogConfig) (files : List (Bytes × Bytes)) : Except LogSetupError Journal := do
  let level ← match LogLevel.parse cfg.level with
    | .ok l => pure l
    | .error e => throw (.badLevel cfg.level e)
  let mut file := none
  if cfg.file then
    if cfg.path.isEmpty then throw .noPath
    match (prefixes (dirOf cfg.path)).find? fun p => files.any (·.1 == p) with
    | some p => throw (.notADirectory p)
    | none => pure ()
    file := (files.find? (·.1 == cfg.path)).map fun (_, t) => textLines t
  return { config := cfg, loggers := #[⟨level, cfg.fields⟩],
           names := [(Bytes.ofString "root", 0)], file }

/-- The logger named `name`. -/
def get? (j : Journal) (name : Bytes) : Option Logger :=
  (j.names.find? (·.1 == name)).bind fun (_, i) => j.loggers[i]?

/-- Name a new logger. -/
def add (j : Journal) (name : Bytes) (l : Logger) : Journal :=
  { j with loggers := j.loggers.push l, names := (name, j.loggers.size) :: j.names }

/-- Write an entry through the logger named `name`; `site` is the caller's location. -/
def write (j : Journal) (name : Bytes) (level : LogLevel) (fields : List (Bytes × Value))
    (message site : Bytes) : Journal :=
  match j.get? name with
  | none => j
  | some l =>
    if level.rank < l.level.rank || (j.closed && j.config.async) then j
    else
      let cfg := j.config
      let e : Entry := ⟨level, l.fields ++ fields, if cfg.caller then some site else none, message⟩
      let record := LogLine.record (e.members stampText)
      let consoleLine :=
        if cfg.format == Bytes.ofString "console" then
          LogLine.text (Bytes.ofString (Console.line cfg.noColor (String.ofList (Utf8.chars cfg.timeFormat))
            stamp stampText e))
        else record
      let j := if !cfg.console then j
        else if cfg.target == Bytes.ofString "buffer" then { j with buffer := j.buffer.push consoleLine }
        else { j with std := j.std.push consoleLine }
      if cfg.file then { j with file := some ((j.file.getD #[]).push record) } else j

/-- Make `child` from `parent` with more fields. -/
def withFields (j : Journal) (parent child : Bytes) (fields : List (Bytes × Value)) : Journal :=
  match j.get? parent with
  | some l => j.add child { l with fields := l.fields ++ fields }
  | none => j

/-- Make `child` from `parent` with the request id and command of a call, when known. -/
def withContext (j : Journal) (parent child : Bytes) (requestId command : Option Bytes) :
    Journal :=
  let extra := (requestId.map fun r => (Bytes.ofString "request_id", Value.str r)).toList ++
    (command.map fun c => (Bytes.ofString "command", Value.str c)).toList
  j.withFields parent child extra

/-- Make `child` from `parent` carrying an error; with no error, `child` names the parent
itself. The flag says whether it is the same logger. -/
def withError (j : Journal) (parent child : Bytes) (err : Option Bytes) : Journal × Bool :=
  match err with
  | none =>
    match j.names.find? (·.1 == parent) with
    | some (_, i) => ({ j with names := (child, i) :: j.names }, true)
    | none => (j, true)
  | some e =>
    (j.withFields parent child [(Bytes.ofString "error", .str e),
      (Bytes.ofString "error_type", .str (Bytes.ofString "*errors.errorString"))], false)

/-- Change the level of the logger named `name`. -/
def updateLevel (j : Journal) (name level : Bytes) : Except LogLevel.ParseError Journal := do
  let l ← LogLevel.parse level
  match j.names.find? (·.1 == name) with
  | some (_, i) => return { j with loggers := j.loggers.modify i fun lg => { lg with level := l } }
  | none => return j

/-- Close the logger named `name`; only the root logger holds the log's writers. -/
def close (j : Journal) (name : Bytes) : Journal :=
  match j.names.find? (·.1 == name) with
  | some (_, 0) => { j with closed := true }
  | _ => j

end Journal

end ChordSearch
