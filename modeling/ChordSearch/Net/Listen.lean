import ChordSearch.Net.Address

/-! # Listening addresses

A server listens at an address written `host:port`. The port is what follows the last
colon; a host that holds colons itself (IPv6) stands in brackets, as in `[::1]:8080`.
Splitting refuses text without a colon, a colon in a host without brackets, and brackets out
of place, naming the whole text. An empty address listens on every local address at a port
the system chooses.

A port is decimal with an optional sign and must lie in 0–65535; an empty port is 0, which
leaves the choice of port to the system. A port that is not a number names a well-known
service, looked up without regard to case. The host is empty for every local address, an IP
address, or `localhost`; a server binds only an address of this machine, a loopback or the
unspecified address.
-/

namespace ChordSearch

/-- Why a server cannot listen at an address. -/
inductive ListenError where
  /-- The address does not split into host and port, for the reason given in words. -/
  | malformed (address reason : String)
  /-- The port is a number outside 0–65535. -/
  | badPort (port : String)
  /-- The port is no number and no known service. -/
  | unknownService (name : String)
  /-- The host is no address and no name this machine knows. -/
  | unknownHost (name : String)
  /-- The address belongs to no interface of this machine. -/
  | notLocal (address : String)
  deriving DecidableEq, Repr

namespace ListenError

/-- A reason about an address, naming the address when there is one. -/
def about (address reason : String) : String :=
  if address.isEmpty then reason else "address " ++ address ++ ": " ++ reason

/-- The text of a refusal to listen. -/
def message : ListenError → String
  | .malformed a r => "listen tcp: " ++ about a r
  | .badPort p => "listen tcp: " ++ about p "invalid port"
  | .unknownService s => "listen tcp: lookup tcp/" ++ s ++ ": unknown port"
  | .unknownHost h => "listen tcp: lookup " ++ h ++ ": no such host"
  | .notLocal a => "listen tcp " ++ a ++ ": bind: cannot assign requested address"

end ListenError

/-- Where a server listens: the host it reports and the port it asked for, 0 leaving the
choice to the system. -/
structure Listener where
  host : String
  port : Nat
  deriving DecidableEq, Repr

namespace Listen

/-- The position of the last colon. -/
def lastColon (cs : List Char) : Option Nat :=
  (cs.reverse.idxOf? ':').map fun i => cs.length - 1 - i

/-- Split `host:port`, the host of an IPv6 address in brackets. -/
def split (s : String) : Except ListenError (String × String) := do
  let cs := s.toList
  let refuse {α : Type} (reason : String) : Except ListenError α := .error (.malformed s reason)
  let some i := lastColon cs | refuse "missing port in address"
  let (host, j, k) ← if cs.head? = some '[' then
      match cs.idxOf? ']' with
      | none => refuse "missing ']' in address"
      | some e =>
        if e + 1 = cs.length then refuse "missing port in address"
        else if e + 1 = i then pure (((cs.drop 1).take (e - 1)), 1, e + 1)
        else if cs[e + 1]? = some ':' then refuse "too many colons in address"
        else refuse "missing port in address"
    else
      if (cs.take i).contains ':' then refuse "too many colons in address"
      else pure (cs.take i, 0, 0)
  if (cs.drop j).contains '[' then refuse "unexpected '[' in address"
  if (cs.drop k).contains ']' then refuse "unexpected ']' in address"
  return (String.ofList host, String.ofList (cs.drop (i + 1)))

/-- The value of decimal digits. -/
def digitsValue (ds : List Char) : Nat :=
  ds.foldl (fun n d => n * 10 + (d.toNat - 48)) 0

/-- The number a port spells, with its sign; `none` when it is a name. -/
def number? (p : List Char) : Option Int :=
  let (neg, ds) := match p with
    | '+' :: r => (false, r)
    | '-' :: r => (true, r)
    | r => (false, r)
  if ds.all Char.isDigit then
    some (if neg then -(digitsValue ds : Int) else digitsValue ds)
  else none

/-- The well-known services and their ports. -/
def services : List (String × Nat) :=
  [("ftp", 21), ("ftps", 990), ("gopher", 70), ("http", 80), ("https", 443), ("imap2", 143),
   ("imap3", 220), ("imaps", 993), ("pop3", 110), ("pop3s", 995), ("smtp", 25),
   ("submissions", 465), ("ssh", 22), ("telnet", 23)]

/-- The port a port text names. -/
def port (p : String) : Except ListenError Nat := do
  let v ← match number? p.toList with
    | some v => pure v
    | none =>
      match services.lookup (String.ofList (p.toList.map Char.toLower)) with
      | some n => pure (n : Int)
      | none => .error (.unknownService p)
  if v < 0 ∨ 65535 < v then .error (.badPort p) else pure v.toNat

/-- The address a host text names; `none` for every local address. -/
def host (h : String) : Except ListenError (Option Address) :=
  if h.isEmpty then .ok none
  else match Address.parseString h with
    | .ok a => .ok (some a)
    | .error _ => if h = "localhost" then .ok (some (.v4 [127, 0, 0, 1])) else .error (.unknownHost h)

/-- Whether an address is the unspecified one. -/
def unspecified : Address → Bool
  | .v4 os => os = [0, 0, 0, 0]
  | .v6 os _ => os.all (· = 0)
  | .unset => true

/-- Whether an address belongs to this machine: a loopback or the unspecified address. -/
def isLocal : Address → Bool
  | .v4 os => os.head? = some 127 ∨ os = [0, 0, 0, 0]
  | .v6 os _ => os.all (· = 0) ∨ os = List.replicate 15 0 ++ [1]
  | .unset => true

/-- The host text of an address with a port after it, IPv6 in brackets. -/
def hostText : Address → String
  | .v4 os => Address.dotted os
  | a => "[" ++ a.toText ++ "]"

end Listen

/-- Listen at an address: every local address when it is empty, otherwise the host and port
it names. The listener reports the unspecified address as `[::]`. -/
def Listener.ofAddress (s : String) : Except ListenError Listener := do
  if s.isEmpty then return ⟨"[::]", 0⟩
  let (h, p) ← Listen.split s
  let port ← Listen.port p
  match ← Listen.host h with
  | none => return ⟨"[::]", port⟩
  | some a =>
    if !Listen.isLocal a then .error (.notLocal (Listen.hostText a ++ ":" ++ toString port))
    else if Listen.unspecified a then return ⟨"[::]", port⟩
    else return ⟨Listen.hostText a, port⟩

end ChordSearch
