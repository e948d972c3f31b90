import ChordSearch.Net.Listen

/-! # The machine programs run on

Programs share a machine: the files of their working directory and the sockets they have
bound. A socket binds a protocol, an address and a port for the process that holds it, until
the process ends.

Binding succeeds only at an address of this machine (a loopback or the unspecified address),
and fails while another socket of the same protocol holds the same port at the same address,
or at the unspecified address on either side.
-/

namespace ChordSearch

/-- The transports a socket binds. -/
inductive Transport where
  | udp
  | tcp
  deriving DecidableEq, Repr

/-- The network name of a transport in messages. -/
def Transport.network : Transport → String
  | .udp => "udp4"
  | .tcp => "tcp"

/-- A bound socket and the process holding it. -/
structure Socket where
  transport : Transport
  address : Address
  port : Nat
  owner : Nat
  deriving DecidableEq

/-- Why a socket cannot be bound. -/
inductive BindReason where
  | inUse
  | foreign
  deriving DecidableEq, Repr

/-- A refused bind: where, and why. -/
structure BindError where
  transport : Transport
  address : Address
  port : Nat
  reason : BindReason

/-- The text of a refused bind. -/
def BindError.message (e : BindError) : String :=
  "listen " ++ e.transport.network ++ " " ++ Listen.hostText e.address ++ ":" ++ toString e.port ++
    ": bind: " ++ match e.reason with
      | .inUse => "address already in use"
      | .foreign => "cannot assign requested address"

/-- The machine: the working directory's files, the bound sockets, and how many processes
have started. -/
structure Machine where
  files : List (Bytes × Bytes) := []
  sockets : List Socket := []
  started : Nat := 0

namespace Machine

/-- Whether two addresses overlap for binding: equal, or either unspecified. -/
def overlaps (a b : Address) : Bool := a = b || Listen.unspecified a || Listen.unspecified b

/-- Bind a socket for process `owner`. -/
def bind (m : Machine) (t : Transport) (a : Address) (port owner : Nat) : Except BindError Machine :=
  if !Listen.isLocal a then .error ⟨t, a, port, .foreign⟩
  else if m.sockets.any fun s => s.transport = t ∧ s.port = port ∧ overlaps s.address a then
    .error ⟨t, a, port, .inUse⟩
  else .ok { m with sockets := m.sockets ++ [⟨t, a, port, owner⟩] }

/-- Release every socket of a process. -/
def release (m : Machine) (owner : Nat) : Machine :=
  { m with sockets := m.sockets.filter (·.owner ≠ owner) }

/-- Store a file, replacing any file of that name. -/
def writeFile (m : Machine) (name text : Bytes) : Machine :=
  { m with files := m.files.filter (·.1 != name) ++ [(name, text)] }

/-- Add text at the end of a file, making it if it is not there. -/
def appendFile (m : Machine) (name text : Bytes) : Machine :=
  match m.files.find? (·.1 == name) with
  | some (_, old) => m.writeFile name (old ++ text)
  | none => m.writeFile name text

/-- The text of a file. -/
def file? (m : Machine) (name : Bytes) : Option Bytes := (m.files.find? (·.1 == name)).map (·.2)

/-- Give the next process its number. -/
def spawn (m : Machine) : Nat × Machine := (m.started, { m with started := m.started + 1 })

end Machine

end ChordSearch
