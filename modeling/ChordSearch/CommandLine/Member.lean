import ChordSearch.Cluster.Prompt
import ChordSearch.CommandLine.Machine

/-! # A running ring member

A `run` process keeps one node under its event loop. Its prompt reads operator lines from
standard input until the input ends or a line says `quit` or `exit` (in any case); each other
line prints the events it caused and then its output, or `error: <why>`. The node never
reaches the network: every datagram it sends fails, and only counts as a send failure.

The process ends on `quit`, or on an interrupt or terminate signal, even after its input has
ended: the node leaves the ring if it is a member, prints that, and the process exits with
status 0, releasing its sockets.

When the process logs to a file, the file gets an entry when the process starts if the
level lets informational entries through, and later when a send fails if it lets warnings
through.
-/

namespace ChordSearch

/-- A running member process: its number, its node, whether its prompt still reads, and its
log file (empty for none) with the log level's rank. -/
structure Member where
  pid : Nat
  daemon : Daemon
  reading : Bool
  logFile : Bytes := []
  logRank : Int := 1

/-- What a step of a member leads to: it goes on, or it has exited with a status. -/
inductive Afterwards where
  | running (p : Member)
  | exited (status : Nat)

namespace Member

/-- Printed bytes as lines. -/
def linesOf (b : Bytes) : List String := (Lines.split b).1.map Bytes.show

/-- The rank of informational entries and of warnings. -/
def infoRank : Int := 1

/-- The rank of warnings. -/
def warnRank : Int := 2

/-- Give the log file an entry, if there is one. -/
def note (p : Member) (m : Machine) (entry : String) : Machine :=
  if p.logFile.isEmpty then m else m.appendFile p.logFile (Bytes.ofString (entry ++ "\n"))

/-- The send failures of the node so far. -/
def sendFailures (p : Member) : Nat :=
  match p.daemon.node? with
  | some n => n.metrics.sendErrors
  | none => 0

/-- Run one operator line and print its events and outcome; the node reads the machine's
files. -/
def command (p : Member) (m : Machine) (line : Bytes) : List String × Member × Machine :=
  let before := p.sendFailures
  let d := { p.daemon with cluster := { p.daemon.cluster with files := m.files } }
  let (o, d) := d.beginStep.execute false line
  let d := d.settle
  let shown := d.cluster.events.toList.flatMap Daemon.eventLine ++ Daemon.outcomeLine o
  let p := { p with daemon := d }
  let m := if p.sendFailures > before ∧ p.logRank ≤ warnRank then p.note m "Failed to send" else m
  (linesOf shown, p, m)

/-- Stop the process: the node leaves the ring if it is a member; the process exits with
status 0 and its sockets are released. -/
def stop (p : Member) (m : Machine) : List String × Machine :=
  let d := p.daemon.beginStep.stop
  (linesOf (d.cluster.events.toList.flatMap Daemon.eventLine), m.release p.pid)

/-- Feed lines to the prompt, collecting what is printed; a quitting line stops the
process. -/
def feedLines (p : Member) (m : Machine) (acc : List String) : List Bytes →
    List String × Afterwards × Machine
  | [] => (acc, .running p, m)
  | l :: ls =>
    if !p.reading then (acc, .running p, m)
    else
      let t := Text.trim l
      let word := Text.lower t
      if t.isEmpty then feedLines p m acc ls
      else if word == Bytes.ofString "quit" || word == Bytes.ofString "exit" then
        let (out, m) := p.stop m
        (acc ++ out, .exited 0, m)
      else
        let (out, p, m) := p.command m t
        feedLines p m (acc ++ out) ls

/-- Write text to the process's input. -/
def feed (p : Member) (m : Machine) (text : Bytes) : List String × Afterwards × Machine :=
  p.feedLines m [] (Lines.split text).1

/-- End the process's input: the prompt stops reading, the node keeps running. -/
def closeInput (p : Member) : Member := { p with reading := false }

end Member

end ChordSearch
