import ChordSearch.Cluster.Daemon
import ChordSearch.Gateway.Status
import ChordSearch.Net.Listen

/-! # The operator service

A node's operator service answers two remote procedures: running an operator line, whose
output comes back as plain text, and reading the node's ring state. Requests reach the node
through its event loop, and a refusal becomes a status by its causes (`Status.ofFailure`).

A server is configured with an address and a token. It reports the configured address until
it listens and the address it listens at after; starting refuses an address it cannot listen
at.

A client names a target, a token and a timeout. No route leads out of this host, so a client
never reaches a server: each call ends unavailable with the dial's error, or, when its
timeout is shorter than a dial attempt, with the deadline exceeded before the dial.
-/

namespace ChordSearch

/-- The content type of an operator line's output. -/
def plainText : String := "text/plain; charset=utf-8"

/-- A node's operator service: the address it is configured with, the token callers present,
and its listener once started. -/
structure OperatorServer where
  address : String
  token : Bytes
  listener : Option Listener := none

namespace OperatorServer

/-- Start listening at the configured address. -/
def start (s : OperatorServer) : Except ListenError OperatorServer := do
  let l ← Listener.ofAddress s.address
  return { s with listener := some l }

/-- The text of a refusal to start. -/
def refusal (e : ListenError) : String := "failed to listen: " ++ e.message

/-- Run an operator line as the service does: its output, or the status of its refusal. -/
def execute (d : Daemon) (line : Bytes) : Except Status Bytes × Daemon :=
  match d.execute false line with
  | (.ok (.ok out), d) => (.ok out, d)
  | (.ok (.error e), d) => (.error (Status.ofFailure e.causes e.message), d)
  | (.error e, d) => (.error (Status.ofFailure e.causes e.message), d)

/-- Read the node for its ring state, or the status of the refusal. -/
def ringState (d : Daemon) : Except Status Node :=
  match d.query id with
  | .ok n => .ok n
  | .error e => .error (Status.ofFailure e.causes e.message)

end OperatorServer

/-- The remote procedures of the operator service. -/
inductive Procedure where
  | execute
  | ringState
  deriving DecidableEq

/-- The name of a procedure. -/
def Procedure.name : Procedure → String
  | .execute => "Execute"
  | .ringState => "RingState"

/-- The text of a failed call: the procedure, then the status. -/
def Procedure.failure (p : Procedure) (st : Status) : String :=
  p.name ++ " RPC failed: " ++ st.text

/-- A client of an operator service: its target, its token, and the time a call may take in
nanoseconds, none when zero or less. -/
structure OperatorClient where
  target : String
  token : Bytes
  timeout : Int

/-- The time a dial attempt takes, in nanoseconds: a shorter timeout passes before it. -/
def dialTime : Int := 1000000

/-- The status a call ends with: the dial finds no route to the target, unless the deadline
passes first. -/
def OperatorClient.call (c : OperatorClient) : Status :=
  if 0 < c.timeout ∧ c.timeout < dialTime then ⟨.deadlineExceeded, "context deadline exceeded"⟩
  else
    ⟨.unavailable, "connection error: desc = \"transport: Error while dialing: dial tcp " ++
      c.target ++ ": connect: network is unreachable\""⟩

end ChordSearch
