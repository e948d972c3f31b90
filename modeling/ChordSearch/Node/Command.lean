import ChordSearch.Node.Dispatch
import ChordSearch.Command.Words

/-! # Operator commands

An operator line is split into words; the first names the command, in any case, and the
rest are its arguments. Each command checks its argument count, resolves node numbers
through the directory, runs, and answers with a line of text or an error. Every refusal of
the line itself reads `invalid command: <why>`.
-/

namespace ChordSearch

/-- The operator commands. -/
inductive Command where
  | join | leave | ringstate | stable | publish | search | printDocs | ping | lookup | help
  deriving DecidableEq, Repr

namespace Command

/-- Every command, by name. -/
def all : List Command := [help, join, leave, lookup, ping, printDocs, publish, ringstate, search,
  stable]

/-- The name a command is typed as. -/
def name : Command → String
  | join => "join" | leave => "leave" | ringstate => "ringstate" | stable => "stable"
  | publish => "publish" | search => "search" | printDocs => "print_docs" | ping => "ping"
  | lookup => "lookup" | help => "help"

/-- How a command is used. -/
def usage : Command → String
  | join => "join <nodeNum>" | leave => "leave" | ringstate => "ringstate"
  | stable => "stable on|off" | publish => "publish <indexFile>"
  | search => "search <viaNode> <term>..." | printDocs => "print_docs"
  | ping => "ping <nodeNum|*> <message>" | lookup => "lookup <term>" | help => "help"

/-- What a command does. -/
def summary : Command → String
  | join => "join the ring through a node, or create one by naming this node"
  | leave => "leave the ring and hand documents to the successor"
  | ringstate => "log the state of every member around the ring"
  | stable => "log stabilization traffic"
  | publish => "index a metadata file and publish its terms"
  | search => "find documents containing every term"
  | printDocs => "list the documents stored here"
  | ping => "ping one node or every node"
  | lookup => "find the node owning a term"
  | help => "list commands"

/-- The command a lower-cased name stands for. -/
def ofName? (n : Bytes) : Option Command := all.find? fun c => Bytes.ofString c.name == n

/-- The name under which a line is counted: its first blank-separated field, lower-cased,
when that names a command; `unknown` when it does not; empty for a blank line. -/
def countedName (line : Bytes) : String :=
  match Text.fields line with
  | [] => ""
  | w :: _ =>
    match ofName? (Text.lower w) with
    | some c => c.name
    | none => "unknown"

end Command

/-- Why a command line is refused. -/
inductive Misuse where
  | words (e : Words.Error)
  | empty
  | unknown (name : Bytes)
  | usage (c : Command)
  | badNumber (arg : Bytes)
  | lookup (e : LookupError)
  deriving DecidableEq

/-- Why a command did not run. -/
inductive CommandError where
  | misuse (m : Misuse)
  | failed (e : NodeError)
  deriving DecidableEq

/-- The text of a command error. -/
def CommandError.message : CommandError → String
  | .misuse m => "invalid command: " ++
    match m with
    | .words e => e.message
    | .empty => "empty command"
    | .unknown n => "unknown command " ++ Quoted.quote n
    | .usage c => "usage: " ++ c.usage
    | .badNumber a => "bad node number " ++ Quoted.quote a
    | .lookup e => e.message
  | .failed e => e.message

/-- The causes of a command error. -/
def CommandError.causes : CommandError → List Cause
  | .misuse (.lookup e) => [.invalidCommand, e.cause]
  | .misuse _ => [.invalidCommand]
  | .failed e => e.causes

namespace Node

open NodeM

/-- The outcome of a command: its text or its error. -/
abbrev Outcome := Except CommandError Bytes

/-- The node numbered by an argument. -/
def resolveNode (arg : Bytes) : NodeM (Except CommandError NodeRef) := do
  match Decimal.parseU32 arg with
  | .error _ => return .error (.misuse (.badNumber arg))
  | .ok num =>
    match (← node).directory.resolve num with
    | .error e => return .error (.misuse (.lookup e))
    | .ok addr => return .ok (NodeRef.make num addr)

/-- Lines of text joined by line breaks. -/
def joinLines (ls : List Bytes) : Bytes := [10].intercalate ls

/-- The text of a number. -/
def numText (n : Nat) : Bytes := Bytes.ofString (toString n)

/-- The help text: one line per command, its usage padded to 28 characters. -/
def helpText : Bytes :=
  joinLines (Command.all.map fun c =>
    Bytes.ofString (c.usage.pushn ' ' (28 - c.usage.length) ++ " " ++ c.summary))

/-- Stored terms with their documents, one line each. -/
def storedText (s : Store) : Bytes :=
  if s.map.isEmpty then Bytes.ofString "no documents stored"
  else joinLines (s.map.entries.map fun (t, d) =>
    t ++ Bytes.ofString ": " ++ [32].intercalate d.toList)

/-- Ping each target in turn, one line per ping. -/
def pingAll (message : Bytes) : List NodeRef → NodeM (List Bytes)
  | [] => return []
  | t :: ts => do
    let tx ← Ring.sendPing t message
    let line := Bytes.ofString ("ping " ++ toString tx.toNat ++ " sent to " ++ t.toText)
    return line :: (← pingAll message ts)

/-- Run a command on its arguments. -/
def run (files : List (Bytes × Bytes)) : Command → List Bytes → NodeM Outcome
  | .join, [arg] => do
    match ← resolveNode arg with
    | .error e => return .error e
    | .ok landmark =>
      match ← Ring.join landmark with
      | .error e => return .error (.failed e)
      | .ok () =>
        if landmark.same (← NodeM.self) then return .ok (Bytes.ofString "created a new ring")
        return .ok (Bytes.ofString ("joining through " ++ landmark.toText))
  | .leave, [] => do
    match ← Ring.leave with
    | .error e => return .error (.failed e)
    | .ok () => return .ok (Bytes.ofString "left the ring")
  | .ringstate, [] => do
    match ← Ring.ringState with
    | .error e => return .error (.failed e)
    | .ok () =>
      let n ← node
      return .ok (Bytes.ofString ("self=" ++ n.self.toText ++ "\nsuccessor=" ++
        n.ring.successor.toText ++ "\npredecessor=" ++ n.ring.predecessor.toText ++
        "\nfingers=" ++ toString n.ring.fingers.size ++ "\nstored_terms=" ++
        toString n.search.store.size))
  | .stable, [arg] => do
    let a := Text.lower arg
    if a == Bytes.ofString "on" then
      modifyRing fun r => { r with traceStabilize := true }
      return .ok (Bytes.ofString "stabilization tracing on")
    else if a == Bytes.ofString "off" then
      modifyRing fun r => { r with traceStabilize := false }
      return .ok (Bytes.ofString "stabilization tracing off")
    else return .error (.misuse (.usage .stable))
  | .publish, [path] => do
    match ← Search.publishFile files path with
    | .error e => return .error (.failed e)
    | .ok n => return .ok (Bytes.ofString "publishing " ++ numText n ++ Bytes.ofString " terms")
  | .search, arg :: t :: ts => do
    match ← resolveNode arg with
    | .error e => return .error e
    | .ok via =>
      match ← Search.query via (t :: ts) with
      | .error e => return .error (.failed e)
      | .ok tx => return .ok (Bytes.ofString ("search " ++ toString tx.toNat ++ " sent via " ++
          via.toText))
  | .printDocs, [] => do return .ok (storedText (← NodeM.search).store)
  | .ping, target :: w :: ws => do
    let message := [32].intercalate (w :: ws)
    let n ← node
    let targets ←
      if target == [42] then
        pure (Except.ok ((n.directory.nodes.filter (·.1 != n.config.node)).map
          fun (num, a) => NodeRef.make num a))
      else (do
        match ← resolveNode target with
        | .error e => pure (.error e)
        | .ok t => pure (.ok [t]))
    match targets with
    | .error e => return .error e
    | .ok ts =>
      let lines ← pingAll message ts
      if lines.isEmpty then return .ok (Bytes.ofString "no other nodes to ping")
      return .ok (joinLines lines)
  | .lookup, [term] => do
    match ← Search.lookup term with
    | .error e => return .error (.failed e)
    | .ok tx => return .ok (Bytes.ofString ("lookup " ++ toString tx.toNat ++ " started for " ++
        Quoted.quote term))
  | .help, _ => return .ok helpText
  | c, _ => return .error (.misuse (.usage c))

/-- Run an operator line. -/
def exec (files : List (Bytes × Bytes)) (line : Bytes) : NodeM Outcome := do
  match Words.split line with
  | .error e => return .error (.misuse (.words e))
  | .ok [] => return .error (.misuse .empty)
  | .ok (w :: args) =>
    match Command.ofName? (Text.lower w) with
    | none => return .error (.misuse (.unknown w))
    | some c => run files c args

/-- Run an operator line and count it under its name and outcome. -/
def execute (files : List (Bytes × Bytes)) (line : Bytes) : NodeM Outcome := do
  let o ← exec files line
  modifyMetrics fun m => m.command (Command.countedName line) (o matches .ok _)
  return o

end Node

end ChordSearch
