import ChordSearch.CommandLine.Session

/-! # The command line

The program reads its words, the `GUSEARCH_*` settings of its environment and its standard
input, and runs as the session model says: a verb that finishes prints its output and errors
and exits with its status; a ring member prints what each input line makes it print, and
leaves the ring when a line says `quit` or `exit`. Without a prompt, or after its input ends,
a member keeps running until it is stopped from outside.

The program reaches no network and reads no files: a configuration file or an index file is
reported missing.
-/

open ChordSearch

/-- The settings keys the environment may give. -/
def settingKeys : List String :=
  ["node", "host", "port", "http_port", "grpc_port", "auth_token", "nodes", "landmark",
   "stabilize_interval", "ping_timeout", "audit_interval", "log_level", "log_format", "log_file"]

/-- Print lines to standard output. -/
def printLines (ls : List String) : IO Unit := ls.forM IO.println

/-- Wait until stopped from outside. -/
partial def idle : IO UInt32 := do
  IO.sleep 1000
  idle

/-- Feed standard input to a running member, line by line. -/
partial def serve (stdin : IO.FS.Stream) (p : Member) (m : Machine) : IO UInt32 := do
  let line ← stdin.getLine
  if line.isEmpty then idle
  else
    let (out, after, m) := p.feed m (Bytes.ofString line)
    printLines out
    match after with
    | .running p => serve stdin p m
    | .exited c => return UInt32.ofNat c

/-- Run the program. -/
def main (args : List String) : IO UInt32 := do
  let env ← settingKeys.filterMapM fun k => do
    return (← IO.getEnv (envName k)).map fun v => (envName k, v)
  match invoke {} env args with
  | (.finished c p, _) =>
    printLines p.out
    p.errors.forM IO.eprintln
    return UInt32.ofNat c
  | (.serving p out, m) =>
    printLines out
    if p.reading then serve (← IO.getStdin) p m else idle
