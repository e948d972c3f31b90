import ChordSearch.CommandLine.Machine

/-! # Datagram endpoints

A ring member talks over one UDP socket. Every member of a ring listens on the same port,
so a datagram goes to the port its sender listens on, at the IPv4 address it names.

Listening reads the host as an address first and then binds it as IPv4: IPv6 text reads
but does not bind, while an IPv4 address embedded in IPv6 binds as the IPv4 address it
embeds. A port number wraps to sixteen bits, and port 0 takes a free port.

The machine reaches no network. A datagram larger than 64 KiB is refused before anything
else; otherwise the send fails, because the destination is not IPv4, because the endpoint
is closed, or because the network is unreachable. So nothing ever arrives, and a receive
that waits for datagrams times out. Closing an endpoint a second time does nothing and
succeeds; closing it also ends its receive loop, which then returns without error.
-/

namespace ChordSearch

/-- The largest datagram an endpoint sends. -/
def maxDatagram : Nat := 64 * 1024

/-- The IPv4 address an IPv4-in-IPv6 address embeds; any other address as it is. -/
def Address.unmap (a : Address) : Address :=
  match a with
  | .v6 os _ => if os.take 12 = List.replicate 10 0 ++ [255, 255] then .v4 (os.drop 12) else a
  | _ => a

/-- A port no socket of the machine holds: one past the highest held, and at least the first
dynamic port. -/
def Machine.freePort (m : Machine) : Nat := m.sockets.foldl (fun p s => max p (s.port + 1)) 49152

/-- A datagram endpoint: the process number holding its socket, where the socket is bound,
whether it is closed, and whether a receive loop runs on it. -/
structure DatagramSocket where
  owner : Nat
  address : Address
  port : Nat
  closed : Bool := false
  serving : Bool := false

/-- Why an endpoint cannot listen. -/
inductive ListenRefusal where
  /-- The host text is no address. -/
  | badHost (host : String) (e : Address.ParseError)
  /-- The address is IPv6. -/
  | notIPv4 (address : Address) (port : Nat)
  /-- The socket does not bind. -/
  | bind (e : BindError)

/-- The text of a refused listen. -/
def ListenRefusal.message : ListenRefusal → String
  | .badHost h e => "invalid host " ++ Quoted.quoteString h ++ ": " ++ e.message
  | .notIPv4 a p =>
    "failed to listen: listen udp4 " ++ Listen.hostText a ++ ":" ++ toString p ++ ": address " ++
      a.bodyText ++ ": non-IPv4 address"
  | .bind e => "failed to listen: " ++ e.message

/-- Why a datagram is not sent. -/
inductive SendRefusal where
  | tooLarge (size : Nat)
  | notIPv4
  | closed
  | unreachable
  deriving DecidableEq, Repr

namespace DatagramSocket

/-- Send a datagram to the endpoint's port at an address, giving the bytes sent. The network
is never reached, so a datagram that passes every check fails as unreachable. -/
def send (e : DatagramSocket) (dest : Address) (data : Bytes) : Except SendRefusal Nat :=
  if data.length > maxDatagram then .error (.tooLarge data.length)
  else if !dest.isV4 then .error .notIPv4
  else if e.closed then .error .closed
  else .error .unreachable

/-- The text of a refused send, written from the endpoint's side: its own address, then the
destination, both at the endpoint's port. -/
def refusal (e : DatagramSocket) (dest : Address) : SendRefusal → String
  | .tooLarge n => "datagram of " ++ toString n ++ " bytes exceeds " ++ toString maxDatagram
  | r =>
    let why := match r with
      | .notIPv4 => "address " ++ dest.toText ++ ": non-IPv4 address"
      | .closed => "use of closed network connection"
      | _ => "sendto: network is unreachable"
    "failed to send to " ++ dest.toText ++ ": write udp4 " ++ Listen.hostText e.address ++ ":" ++
      toString e.port ++ "->" ++ Listen.hostText dest ++ ":" ++ toString e.port ++ ": " ++ why

end DatagramSocket

/-- A step of a program using named datagram endpoints. -/
inductive DatagramStep where
  | listen (name host : String) (port : Int)
  /-- Start a receive loop that records every datagram. -/
  | serve (name : String)
  | send (name dest : String) (data : Bytes)
  /-- Wait for some datagrams to have arrived. -/
  | receive (name : String) (count : Nat)
  /-- Close twice. -/
  | close (name : String)
  /-- Cancel the receive loop, which closes the endpoint. -/
  | stopServing (name : String)

/-- What a step shows. -/
inductive DatagramShown where
  | listening (port : Nat)
  | refused (message : String)
  | serving
  | sent (size : Nat)
  /-- The datagrams that arrived, with their senders, and whether fewer than asked for came
  in time. -/
  | received (messages : List (Address × Bytes)) (timedOut : Bool)
  /-- Whether each close succeeded, and, when a receive loop ran, whether it returned
  without error. -/
  | closed (first second : Bool) (loopReturned : Option Bool)
  | stopped (loopReturned : Bool)
  | unknown (name : String)

/-- The endpoints of a program by name, and the machine they bind on. -/
structure DatagramHost where
  machine : Machine := {}
  named : List (String × DatagramSocket) := []

namespace DatagramHost

/-- The endpoint of a name. -/
def find? (es : DatagramHost) (name : String) : Option DatagramSocket :=
  (es.named.find? (·.1 = name)).map (·.2)

/-- Give a name an endpoint, in place of the one it had: that one stays open. -/
def put (es : DatagramHost) (name : String) (e : DatagramSocket) : DatagramHost :=
  { es with named := es.named.filter (·.1 ≠ name) ++ [(name, e)] }

/-- Bind an endpoint at a host and port. -/
def listen (es : DatagramHost) (host : String) (port : Int) : Except ListenRefusal DatagramSocket × DatagramHost :=
  match Address.parseString host with
  | .error e => (.error (.badHost host e), es)
  | .ok a =>
    let a := a.unmap
    let wanted := (port % 65536).toNat
    if !a.isV4 then (.error (.notIPv4 a wanted), es)
    else
      let p := if wanted = 0 then es.machine.freePort else wanted
      let (owner, m) := es.machine.spawn
      match m.bind .udp a p owner with
      | .error e => (.error (.bind { e with port := wanted }), es)
      | .ok m => (.ok { owner, address := a, port := p }, { es with machine := m })

/-- Close an endpoint and release its socket. -/
def shut (es : DatagramHost) (name : String) (e : DatagramSocket) : DatagramHost :=
  { es.put name { e with closed := true, serving := false } with
    machine := es.machine.release e.owner }

/-- Run one step. -/
def step (es : DatagramHost) : DatagramStep → DatagramShown × DatagramHost
  | .listen name host port =>
    match es.listen host port with
    | (.ok e, es) => (.listening e.port, es.put name e)
    | (.error r, es) => (.refused r.message, es)
  | .serve name =>
    match es.find? name with
    | none => (.unknown name, es)
    | some e => (.serving, es.put name { e with serving := true })
  | .send name dest data =>
    match es.find? name, Address.parseString dest with
    | none, _ => (.unknown name, es)
    | some _, .error r => (.refused r.message, es)
    | some e, .ok a =>
      match e.send a data with
      | .ok n => (.sent n, es)
      | .error r => (.refused (e.refusal a r), es)
  | .receive name count =>
    match es.find? name with
    | none => (.unknown name, es)
    | some _ => (.received [] (0 < count), es)
  | .close name =>
    match es.find? name with
    | none => (.unknown name, es)
    | some e => (.closed true true (if e.serving then some true else none), es.shut name e)
  | .stopServing name =>
    match es.find? name with
    | none => (.unknown name, es)
    | some e => if e.serving then (.stopped true, es.shut name e) else (.stopped false, es)

/-- Run steps in order, collecting what each shows. -/
def run (es : DatagramHost) : List DatagramStep → List DatagramShown
  | [] => []
  | st :: sts =>
    let (shown, es) := es.step st
    shown :: run es sts

end DatagramHost

end ChordSearch
