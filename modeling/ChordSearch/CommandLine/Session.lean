import ChordSearch.CommandLine.Invocation

/-! # A shell session

A session runs the program several times on one machine: some runs go to their end, others
keep running as named processes that later steps talk to. A step writes a file, runs the
program to its end with some input, starts a named process, writes a line to a process,
ends a process's input, asks it to quit, signals it, or reads a file back.

A process that keeps running never ends on its own: after its input ends, only `quit` or a
signal ends it. A run to its end whose process keeps running is killed. The node's HTTP port
is never reached over the network.
-/

namespace ChordSearch

/-- A step of a session. -/
inductive Step where
  | writeFile (name text : Bytes)
  /-- Run to the end, with input when there is some. -/
  | exec (words : List String) (env : List (String × String)) (input : Bytes)
  /-- Start a named process; `prompt` says the step waits for the prompt. -/
  | start (name : String) (words : List String) (env : List (String × String)) (prompt : Bool)
  | line (name text : String)
  | quit (name text : String)
  | signal (name : String)
  | closeInput (name : String)
  | request
  | checkFile (name : Bytes)

/-- What a step shows. -/
inductive Shown where
  | nothing
  /-- The process ended with a status, having printed this. -/
  | ended (status : Int) (printed : Printed)
  /-- The process is up, having printed these lines. -/
  | ready (out : List String)
  /-- The process ended before it was up. -/
  | endedEarly (status : Int) (printed : Printed)
  /-- Lines printed in answer to a line. -/
  | lines (out : List String)
  /-- Input ended; whether the process still runs. -/
  | inputClosed (running : Bool)
  | unreachable
  | file (present nonempty : Bool)

/-- The status of a process killed after running too long. -/
def killedStatus : Int := -9

/-- A session: the machine, the running processes by name, and the status of each named
process that has ended and not yet been asked about. -/
structure Session where
  machine : Machine := {}
  running : List (String × Member) := []
  ended : List (String × Nat) := []

namespace Session

/-- The running process of a name. -/
def member? (s : Session) (name : String) : Option Member := (s.running.find? (·.1 = name)).map (·.2)

/-- Forget a process. -/
def drop (s : Session) (name : String) : Session :=
  { s with running := s.running.filter (·.1 ≠ name), ended := s.ended.filter (·.1 ≠ name) }

/-- Keep a process running under a name. -/
def keep (s : Session) (name : String) (p : Member) : Session :=
  { s.drop name with running := s.running.filter (·.1 ≠ name) ++ [(name, p)] }

/-- Answer for a process that has ended or was never started: its status, then nothing. -/
def afterEnd (s : Session) (name : String) : Shown × Session :=
  (.ended ((s.ended.find? (·.1 = name)).map (·.2) |>.getD 0) {}, s)

/-- Run one step. -/
def step (s : Session) : Step → Shown × Session
  | .writeFile name text => (.nothing, { s with machine := s.machine.writeFile name text })
  | .exec words env input =>
    match invoke s.machine env words with
    | (.finished c p, m) => (.ended c p, { s with machine := m })
    | (.serving p out, m) =>
      match p.feed m input with
      | (more, .exited c, m) => (.ended c { out := out ++ more }, { s with machine := m })
      | (more, .running p, m) =>
        (.ended killedStatus { out := out ++ more }, { s with machine := m.release p.pid })
  | .start name words env prompt =>
    match invoke s.machine env words with
    | (.finished c p, m) =>
      if prompt then (.endedEarly c p, { s.drop name with machine := m })
      else (.ready p.out, { s.drop name with machine := m, ended := s.ended ++ [(name, c)] })
    | (.serving p out, m) => (.ready out, { s.keep name p with machine := m })
  | .line name text =>
    match s.member? name with
    | none => (.lines [], s)
    | some p =>
      match p.feed s.machine (Bytes.ofString text) with
      | (out, .running p, m) => (.lines out, { s.keep name p with machine := m })
      | (out, .exited c, m) => (.lines out, { s.drop name with machine := m, ended := s.ended ++ [(name, c)] })
  | .quit name text =>
    match s.member? name with
    | none => s.afterEnd name
    | some p =>
      match p.feed s.machine (Bytes.ofString text) with
      | (out, .exited c, m) => (.ended c { out }, { s.drop name with machine := m })
      | (out, .running p, m) =>
        (.ended killedStatus { out }, { s.drop name with machine := m.release p.pid })
  | .signal name =>
    match s.member? name with
    | none => s.afterEnd name
    | some p =>
      let (out, m) := p.stop s.machine
      (.ended 0 { out }, { s.drop name with machine := m })
  | .closeInput name =>
    match s.member? name with
    | none => (.inputClosed false, s)
    | some p => (.inputClosed true, s.keep name p.closeInput)
  | .request => (.unreachable, s)
  | .checkFile name =>
    match s.machine.file? name with
    | some t => (.file true !t.isEmpty, s)
    | none => (.file false false, s)

/-- Run steps in order, collecting what each shows. -/
def run (s : Session) : List Step → List Shown
  | [] => []
  | st :: sts =>
    let (shown, s) := s.step st
    shown :: run s sts

end Session

end ChordSearch
