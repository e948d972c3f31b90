import ChordSearch.Net.Address
import ChordSearch.Time.Duration

/-! # Node configuration

A node's configuration: its number and the host it binds, the shared datagram port, the
operator ports (zero disables), the directory table, the landmark to join at start (`-1`
waits for a command), the ring's bit width (always 160), the stabilize, ping-timeout and
audit periods, and logging choices.

Validation checks, in this order, and reports the first failure: the bit width, the
datagram port (1 to 65535), the HTTP and gRPC ports (0 to 65535), that the host is an IPv4
address, that the node's number is a key of the table (its plain decimal text), that the
table lists the host under that key (compared as text), the landmark (at least `-1`), that
the three periods are positive, and that the log format is `json` or `console`.
-/

namespace ChordSearch

/-- A node's configuration. -/
structure Config where
  node : UInt32 := 1
  host : Bytes := Bytes.ofString "127.0.0.1"
  port : Int := 10001
  httpPort : Int := 8080
  grpcPort : Int := 9090
  authToken : Bytes := []
  nodes : List (Bytes × Bytes) := [(Bytes.ofString "1", Bytes.ofString "127.0.0.1")]
  landmark : Int := -1
  bits : Int := 160
  stabilizeEvery : Int := 2000000000
  pingTimeout : Int := 2000000000
  auditEvery : Int := 500000000
  logLevel : Bytes := Bytes.ofString "info"
  logFormat : Bytes := Bytes.ofString "console"
  logFile : Bytes := []
  deriving DecidableEq, Inhabited

/-- Why a configuration is refused. -/
inductive ConfigError where
  | badBits (bits : Int)
  | badPort (port : Int)
  | badHttpPort (port : Int)
  | badGrpcPort (port : Int)
  | hostNotIPv4 (host : Bytes)
  | nodeMissing (node : UInt32)
  | hostMismatch (node : UInt32) (listed host : Bytes)
  | badLandmark (landmark : Int)
  | badStabilize (d : Int)
  | badPingTimeout (d : Int)
  | badAudit (d : Int)
  | badLogFormat (format : Bytes)
  deriving DecidableEq

/-- The text of a configuration error. -/
def ConfigError.message : ConfigError → String
  | .badBits m => "M must be 160, got " ++ toString m
  | .badPort p => "invalid port: " ++ toString p
  | .badHttpPort p => "invalid HTTP port: " ++ toString p
  | .badGrpcPort p => "invalid gRPC port: " ++ toString p
  | .hostNotIPv4 h => "host must be an IPv4 address, got " ++ Quoted.quote h
  | .nodeMissing n => "node " ++ toString n.toNat ++ " is missing from the node table"
  | .hostMismatch n l h =>
    "node " ++ toString n.toNat ++ " is listed at " ++ Bytes.show l ++ " but binds " ++ Bytes.show h
  | .badLandmark l => "invalid landmark: " ++ toString l
  | .badStabilize d => "stabilize interval must be positive, got " ++ Duration.text d
  | .badPingTimeout d => "ping timeout must be positive, got " ++ Duration.text d
  | .badAudit d => "audit interval must be positive, got " ++ Duration.text d
  | .badLogFormat f => "log format must be json or console, got " ++ Quoted.quote f

/-- The text of a refused configuration as loading reports it. -/
def ConfigError.loadMessage (e : ConfigError) : String := "invalid config: " ++ e.message

/-- Settings given by name, each possibly missing; what is missing takes its default, and
a missing host is filled from the table. -/
structure Settings where
  node : Option UInt32 := none
  host : Option Bytes := none
  port : Option Int := none
  httpPort : Option Int := none
  grpcPort : Option Int := none
  authToken : Option Bytes := none
  nodes : Option (List (Bytes × Bytes)) := none
  landmark : Option Int := none
  stabilizeEvery : Option Int := none
  pingTimeout : Option Int := none
  auditEvery : Option Int := none
  logLevel : Option Bytes := none
  logFormat : Option Bytes := none
  logFile : Option Bytes := none

namespace Config

/-- The table entry under a key, compared as text. -/
def lookup (c : Config) (key : Bytes) : Option Bytes := (c.nodes.find? (·.1 = key)).map (·.2)

/-- The key a node number is listed under: its plain decimal text. -/
def keyOf (n : UInt32) : Bytes := Bytes.ofString (toString n.toNat)

/-- Check a configuration, reporting the first failure in the order of the module comment. -/
def validate (c : Config) : Except ConfigError Unit := do
  if c.bits ≠ 160 then throw (.badBits c.bits)
  if c.port ≤ 0 ∨ c.port > 65535 then throw (.badPort c.port)
  if c.httpPort < 0 ∨ c.httpPort > 65535 then throw (.badHttpPort c.httpPort)
  if c.grpcPort < 0 ∨ c.grpcPort > 65535 then throw (.badGrpcPort c.grpcPort)
  match Address.parse c.host with
  | .ok a => if !a.isV4 then throw (.hostNotIPv4 c.host)
  | .error _ => throw (.hostNotIPv4 c.host)
  match c.lookup (keyOf c.node) with
  | none => throw (.nodeMissing c.node)
  | some listed => if listed ≠ c.host then throw (.hostMismatch c.node listed c.host)
  if c.landmark < -1 then throw (.badLandmark c.landmark)
  if c.stabilizeEvery ≤ 0 then throw (.badStabilize c.stabilizeEvery)
  if c.pingTimeout ≤ 0 then throw (.badPingTimeout c.pingTimeout)
  if c.auditEvery ≤ 0 then throw (.badAudit c.auditEvery)
  if c.logFormat ≠ Bytes.ofString "json" ∧ c.logFormat ≠ Bytes.ofString "console" then
    throw (.badLogFormat c.logFormat)

/-- Fill an empty host from the table entry of the node's own number. -/
def withHost (c : Config) : Config :=
  if c.host.isEmpty then { c with host := (c.lookup (keyOf c.node)).getD [] } else c

/-- The configuration that settings describe, validated. -/
def load (s : Settings) : Except ConfigError Config :=
  let d : Config := {}
  let c : Config := {
    node := s.node.getD d.node, host := s.host.getD [], port := s.port.getD d.port,
    httpPort := s.httpPort.getD d.httpPort, grpcPort := s.grpcPort.getD d.grpcPort,
    authToken := s.authToken.getD [], nodes := s.nodes.getD d.nodes,
    landmark := s.landmark.getD d.landmark,
    stabilizeEvery := s.stabilizeEvery.getD d.stabilizeEvery,
    pingTimeout := s.pingTimeout.getD d.pingTimeout, auditEvery := s.auditEvery.getD d.auditEvery,
    logLevel := s.logLevel.getD d.logLevel, logFormat := s.logFormat.getD d.logFormat,
    logFile := s.logFile.getD [] }
  let c := c.withHost
  c.validate.map fun _ => c


end Config

end ChordSearch
