import ChordSearch.CommandLine.Verb
import ChordSearch.CommandLine.Member
import ChordSearch.Config.File
import ChordSearch.Config.Layers
import ChordSearch.Gateway.Operator
import ChordSearch.Log.Logger

/-! # Running the program

A command line runs in four steps:

1. its verb is found, and an unknown word at the top is refused;
2. the words after it are read as the verb's flags, and a refused flag ends the run;
3. the help flag, or a verb that only holds verbs, prints the verb's help;
4. the verb checks how many words it got, the configuration file named by `--config` is
   read, and the verb runs.

A refusal prints `Error: <why>` twice, once by the command tree and once by the program,
and the program exits with status 1.

Settings are looked up in layers, the first that has a setting deciding: a flag given on the
command line, then the environment variable `GUSEARCH_<KEY>` when it is not empty, then the
configuration file, then the default.

`run` loads the configuration, opens its log, binds its UDP port, sets up its node, and binds
the operator and HTTP ports unless they are 0, in that order, each failure ending the run.
It then joins through the landmark when there is one, prints the join's events and outcome,
and starts the prompt unless `--no-prompt` is given. `ctl exec` and `ctl state` open a log at
the configured level and then call the node's operator port, which the network never
reaches. `help` prints the help of the verb its words name.
-/

namespace ChordSearch

/-- What a finished process printed: its output lines and its error lines. -/
structure Printed where
  out : List String := []
  errors : List String := []
  deriving DecidableEq, Repr

/-- How starting the program ends: it finishes with an exit status, or a ring member keeps
running after printing some lines. -/
inductive Launch where
  | finished (status : Nat) (printed : Printed)
  | serving (member : Member) (out : List String)

namespace Launch

/-- The lines of a refusal: `Error:` and the first line of its text, twice. -/
def errorLines (why : String) : List String :=
  let l := "Error: " ++ ((why.splitOn "\n").head?.getD "")
  [l, l]

/-- A run refused for a reason. -/
def refused (why : String) : Launch := .finished 1 { errors := errorLines why }

end Launch

/-- The settings key a flag feeds. -/
def settingKey (flag : String) : String := String.map (fun c => if c = '-' then '_' else c) flag

/-- A flag's value as a loosely typed setting. -/
def FlagValue.loose : FlagValue → Value
  | .text s => .str (Bytes.ofString s)
  | .int i => .num (toString i)
  | .uint32 n => .num (toString n)
  | .duration d => .num (toString d)
  | .bool b => .bool b
  | .table ps => .obj (ps.map fun (k, v) => (Bytes.ofString k, .str (Bytes.ofString v)))

/-- The environment variable of a settings key. -/
def envName (key : String) : String := "GUSEARCH_" ++ key.toUpper

/-- The settings the layers give: a flag given on the command line, a non-empty environment
variable, the configuration file. -/
def layered (flags : List Flag) (st : FlagState) (env : List (String × String)) (file : Option Value)
    (key : String) : Option Value :=
  match flags.find? fun f => settingKey f.name = key ∧ st.changed f.name with
  | some f => some (st.valueOf f).loose
  | none =>
    match env.find? fun (k, v) => k = envName key ∧ !v.isEmpty with
    | some (_, v) => some (.str (Bytes.ofString v))
    | none => file.bind fun t => t.member? key

/-- A setting as text, or the default of the flag feeding it. -/
def layeredText (flags : List Flag) (st : FlagState) (env : List (String × String))
    (file : Option Value) (key default : String) : String :=
  match layered flags st env file key with
  | some v => Bytes.show (Loose.toText v)
  | none => default

/-- The text of a flag's value. -/
def FlagState.text (st : FlagState) (f : Flag) : String :=
  match st.valueOf f with
  | .text s => s
  | _ => ""

/-- The refusal of a verb given words it does not take. -/
def arityRefusal (v : Verb) (args : List String) : Option String :=
  match v.arity, args with
  | .none, w :: _ => some ("unknown command " ++ Quoted.quoteString w ++ " for " ++
      Quoted.quoteString v.commandPath)
  | .atLeast n, _ =>
    if args.length < n then
      some ("requires at least " ++ toString n ++ " arg(s), only received " ++ toString args.length)
    else none
  | _, _ => none

/-- Call the operator port of a running node: the network never reaches it, so the call
fails. -/
def callOperator (p : Procedure) (flags : List Flag) (st : FlagState) (env : List (String × String))
    (file : Option Value) : Launch :=
  let level := layeredText flags st env file "log_level" "info"
  match LogLevel.parse (Bytes.ofString level) with
  | .error e => Launch.refused (LogSetupError.badLevel (Bytes.ofString level) e).message
  | .ok _ =>
    let find (n : String) : Flag := (flags.find? (·.name = n)).getD (Verb.textFlag n "" "")
    let timeout := match st.valueOf (find "timeout") with
      | .duration d => d
      | _ => 0
    let client : OperatorClient :=
      { target := st.text (find "addr"),
        token := Bytes.ofString (layeredText flags st env file "auth_token" ""), timeout }
    Launch.refused (p.failure client.call)

/-- Start a ring member from its settings. -/
def startMember (m : Machine) (get : String → Option Value) (prompt : Bool) : Launch × Machine :=
  match Config.load (Settings.ofLookup get) with
  | .error e => (Launch.refused e.loadMessage, m)
  | .ok cfg =>
    let logCfg : LogConfig :=
      { level := cfg.logLevel, format := cfg.logFormat, async := true,
        fields := [(Bytes.ofString "node", .num (toString cfg.node.toNat))],
        file := !cfg.logFile.isEmpty, path := cfg.logFile }
    match Journal.start logCfg m.files with
    | .error e => (Launch.refused ("failed to create logger: " ++ e.message), m)
    | .ok j =>
      let rank := match j.loggers[0]? with
        | some l => l.level.rank
        | none => 1
      let (pid, m) := m.spawn
      let p0 : Member :=
        { pid, daemon := ⟨Cluster.empty [], cfg.node, true⟩, reading := prompt,
          logFile := cfg.logFile, logRank := rank }
      let m := if rank ≤ Member.infoRank then p0.note m "Starting gusearch node" else m
      let host := (Address.parse cfg.host).toOption.getD .unset
      let port (n : Int) : Nat := n.toNat
      let ending (why : String) (m : Machine) : Launch × Machine := (Launch.refused why, m.release pid)
      match m.bind .udp host (port cfg.port) pid with
      | .error e => ending ("failed to listen: " ++ e.message) m
      | .ok m =>
        match Daemon.start cfg.nodes cfg (Cluster.defaultSeed cfg.node) with
        | .error e => ending ("failed to create node: " ++ e.message) m
        | .ok d =>
          let d := { d with cluster := d.cluster.detach d.num }
          let grpc : Except String Machine :=
            if cfg.grpcPort > 0 then
              (m.bind .tcp host (port cfg.grpcPort) pid).mapError fun e =>
                "failed to start gRPC server: failed to listen: " ++ e.message
            else .ok m
          match grpc with
          | .error why => ending why m
          | .ok m =>
            let http : Except String Machine :=
              if cfg.httpPort > 0 then
                (m.bind .tcp host (port cfg.httpPort) pid).mapError fun e =>
                  "failed to start HTTP API server: failed to listen on " ++ Listen.hostText host ++ ":" ++
                    toString cfg.httpPort ++ ": " ++ e.message
              else .ok m
            match http with
            | .error why => ending why m
            | .ok m =>
              let p := { p0 with daemon := d }
              let (joined, p, m) :=
                if cfg.landmark ≥ 0 then p.command m (Bytes.ofString ("join " ++ toString cfg.landmark))
                else ([], p, m)
              let greeting := if prompt then ["type help for commands"] else []
              (.serving p (joined ++ greeting), m)

/-- Run the program with some words and environment variables on a machine. -/
def invoke (m : Machine) (env : List (String × String)) (words : List String) : Launch × Machine :=
  match Verb.find words with
  | .error (.unknownCommand w path) =>
    (Launch.refused ("unknown command " ++ Quoted.quoteString w ++ " for " ++ Quoted.quoteString path), m)
  | .ok (v, rest) =>
    match readFlags v.flags {} rest with
    | .error e => (Launch.refused e.message, m)
    | .ok st =>
      if st.valueOf (Flag.help v.name) = .bool true ∨ !v.runnable then
        (.finished 0 { out := v.helpLines }, m)
      else match arityRefusal v st.args with
        | some why => (Launch.refused why, m)
        | none =>
          let path := st.text (Verb.textFlag "config" "" "")
          let file : Except FileError (Option Value) :=
            if path.isEmpty then .ok none else (ConfigFile.read m.files path).map some
          match file with
          | .error e => (Launch.refused ("failed to read config " ++ path ++ ": " ++ e.message), m)
          | .ok file =>
            match v with
            | .run =>
              let prompt := !st.changed "no-prompt" ∨ st.set.contains ("no-prompt", .bool false)
              startMember m (layered v.flags st env file) prompt
            | .exec =>
              let c := callOperator .execute v.flags st env file
              (c, m)
            | .state => (callOperator .ringState v.flags st env file, m)
            | .help =>
              match Verb.find st.args with
              | .ok (t, _) => (.finished 0 { out := t.helpLines }, m)
              | .error _ => (.finished 0 {}, m)
            | _ => (.finished 0 {}, m)

end ChordSearch
