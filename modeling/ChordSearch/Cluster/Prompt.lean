import ChordSearch.Cluster.Daemon
import ChordSearch.Bytes

/-! # The interactive prompt

The prompt reads operator lines from its input. Each line is trimmed; blank lines are
skipped, and `quit` or `exit` in any case ends the prompt. Every other line runs on the
daemon, the network is flushed, and then the events reported meanwhile are printed as
`[<type>] <message>`, followed by the command's output or `error: <why>`. Empty output
prints nothing. Reading stops at the end of the input or at a line too long to read.
-/

namespace ChordSearch.Daemon

/-- One printed line. -/
def printed (b : Bytes) : Bytes := if b.isEmpty then [] else b ++ [10]

/-- How an event is printed. -/
def eventLine (e : Event) : Bytes :=
  printed (Bytes.ofString ("[" ++ e.kind.name ++ "] ") ++ e.message)

/-- How an outcome is printed. -/
def outcomeLine : Except LoopError Node.Outcome → Bytes
  | .ok (.ok b) => printed b
  | .ok (.error e) => printed (Bytes.ofString ("error: " ++ e.message))
  | .error e => printed (Bytes.ofString ("error: " ++ e.message))

/-- Run prompt lines, appending what is printed to `out`; the flag says the prompt was
quit. -/
def promptLines (d : Daemon) (out : Bytes) : List Bytes → Bytes × Bool × Daemon
  | [] => (out, false, d)
  | l :: ls =>
    let t := Text.trim l
    let word := Text.lower t
    if t.isEmpty then promptLines d out ls
    else if word == Bytes.ofString "quit" || word == Bytes.ofString "exit" then (out, true, d)
    else
      let (o, d) := d.beginStep.execute false t
      let d := d.settle
      let shown := d.cluster.events.toList.flatMap eventLine ++ outcomeLine o
      promptLines d (out ++ shown) ls

/-- Run the prompt over an input: what it prints, whether it was quit, and the daemon
after it. -/
def prompt (d : Daemon) (input : Bytes) : Bytes × Bool × Daemon :=
  promptLines d (printed (Bytes.ofString "type help for commands")) (Lines.split input).1

end ChordSearch.Daemon
