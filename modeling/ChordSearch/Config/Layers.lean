import ChordSearch.Config
import ChordSearch.Json.Read
import ChordSearch.Text.Integer

/-! # Settings from loosely typed values

Settings come from places that type their values loosely: flags and environment variables
give text, configuration files give numbers, text, booleans and tables. Each setting is
converted to the type it needs, forgivingly; a value that does not convert gives the zero of
that type rather than an error.

* A whole number is read from text with an optional sign and a base prefix (`0x`, `0o`,
  `0b`, or a leading `0` for octal), underscores allowed between digits; a fraction of
  zeros (`10.0`) is dropped first. A number value is cut to its whole part.
* A node number is a whole number that is not negative, kept modulo `2^32`.
* Text is the text itself; a number is written without exponent and without trailing zeros
  after its point, a boolean as `true` or `false`.
* A duration in text has units (`1m30s`), or is a bare number of nanoseconds; a number
  value is nanoseconds.
* A table is a table of the values' texts, or text holding a JSON object of strings.

The layers of a setting are consulted in order, and the first that has it decides.
-/

namespace ChordSearch

namespace Loose

/-- Drop a fraction of zeros: `10.00` reads as `10`. -/
def trimZeroFraction (s : String) : String :=
  let cs := s.toList.reverse
  let zeros := cs.takeWhile (· = '0')
  match cs.drop zeros.length with
  | '.' :: rest => if zeros.isEmpty then s else String.ofList rest.reverse
  | _ => s

/-- Read a whole number of 64 bits, if it is well formed. -/
def readInt (s : String) : Option Int := (Integer.readInt s 64).toOption

/-- A number's text split into sign, digits and the power of ten they are scaled by. -/
def decimal (t : String) : Bool × List Nat × Int :=
  let cs := t.toList
  let (neg, cs) := match cs with | '-' :: r => (true, r) | '+' :: r => (false, r) | r => (false, r)
  let int := cs.takeWhile Char.isDigit
  let cs := cs.drop int.length
  let (frac, cs) := match cs with
    | '.' :: r => (r.takeWhile Char.isDigit, r.dropWhile Char.isDigit)
    | r => ([], r)
  let exp : Int := match cs with
    | e :: r => if e = 'e' ∨ e = 'E' then (String.ofList r).toInt?.getD
        ((String.ofList (r.dropWhile (· = '+'))).toInt?.getD 0) else 0
    | [] => 0
  (neg, (int ++ frac).map (fun c => c.toNat - 48), exp - frac.length)

/-- The whole part of a number's value. -/
def truncate (t : String) : Int :=
  let (neg, ds, e) := decimal t
  let n := ds.foldl (fun acc d => acc * 10 + d) 0
  let w : Nat := if e ≥ 0 then n * Nat.pow 10 e.toNat else n / Nat.pow 10 e.natAbs
  if neg then -(w : Int) else w

/-- A number written without exponent and without trailing zeros after its point. -/
def numberText (t : String) : String :=
  let (neg, ds, e) := decimal t
  let n := ds.foldl (fun acc d => acc * 10 + d) 0
  let body :=
    if e ≥ 0 then toString (n * Nat.pow 10 e.toNat)
    else
      let p := Nat.pow 10 e.natAbs
      let fracDigits := (Nat.toDigits 10 (n % p + p)).drop 1
      let frac := (fracDigits.reverse.dropWhile (· = '0')).reverse
      toString (n / p) ++ (if frac.isEmpty then "" else "." ++ String.ofList frac)
  if neg ∧ n ≠ 0 then "-" ++ body else body

/-- A setting as a whole number. -/
def toInt : Value → Int
  | .num t => truncate t
  | .str s => (readInt (trimZeroFraction (Bytes.show s))).getD 0
  | .bool b => if b then 1 else 0
  | _ => 0

/-- A setting as a node number. -/
def toUInt32 (v : Value) : UInt32 :=
  let i := match v with
    | .num t => truncate t
    | .str s => (readInt (trimZeroFraction (Bytes.show s))).getD (-1)
    | .bool b => if b then 1 else 0
    | _ => 0
  if i < 0 then 0 else UInt32.ofNat i.toNat

/-- A setting as text. -/
def toText : Value → Bytes
  | .str s => s
  | .num t => Bytes.ofString (numberText t)
  | .bool b => Bytes.ofString (if b then "true" else "false")
  | _ => []

/-- A setting as a duration in nanoseconds. -/
def toDuration : Value → Int
  | .num t => truncate t
  | .str s => Duration.ofSetting (Bytes.show s)
  | _ => 0

/-- A setting as a table of texts, the later of two equal keys winning. -/
def toTable (v : Value) : List (Bytes × Bytes) :=
  let members := match v with
    | .obj ms => ms.map fun (k, x) => (k, toText x)
    | .str s => match Value.parse s with
      | .ok (.obj ms) => ms.filterMap fun (k, x) => match x with
        | .str t => some (k, t)
        | _ => none
      | _ => []
    | _ => []
  Value.canonical members

end Loose

/-- Settings read from a lookup of loosely typed values; a missing or null value leaves the
setting missing. -/
def Settings.ofLookup (get : String → Option Value) : Settings :=
  let at_ (k : String) : Option Value := match get k with
    | some .null => none
    | v => v
  { node := (at_ "node").map Loose.toUInt32, host := (at_ "host").map Loose.toText,
    port := (at_ "port").map Loose.toInt, httpPort := (at_ "http_port").map Loose.toInt,
    grpcPort := (at_ "grpc_port").map Loose.toInt, authToken := (at_ "auth_token").map Loose.toText,
    nodes := (at_ "nodes").map Loose.toTable, landmark := (at_ "landmark").map Loose.toInt,
    stabilizeEvery := (at_ "stabilize_interval").map Loose.toDuration,
    pingTimeout := (at_ "ping_timeout").map Loose.toDuration,
    auditEvery := (at_ "audit_interval").map Loose.toDuration,
    logLevel := (at_ "log_level").map Loose.toText, logFormat := (at_ "log_format").map Loose.toText,
    logFile := (at_ "log_file").map Loose.toText }

/-- A configuration as a value, durations in nanoseconds. -/
def Config.toValue (c : Config) : Value :=
  let k := Bytes.ofString
  let num (i : Int) : Value := .num (toString i)
  .obj [(k "node", num c.node.toNat), (k "host", .str c.host), (k "port", num c.port),
    (k "http_port", num c.httpPort), (k "grpc_port", num c.grpcPort), (k "auth_token", .str c.authToken),
    (k "nodes", .obj (c.nodes.map fun (n, a) => (n, .str a))), (k "landmark", num c.landmark),
    (k "m", num c.bits), (k "stabilize_ns", num c.stabilizeEvery), (k "ping_timeout_ns", num c.pingTimeout),
    (k "audit_ns", num c.auditEvery), (k "log_level", .str c.logLevel), (k "log_format", .str c.logFormat),
    (k "log_file", .str c.logFile)]

end ChordSearch
