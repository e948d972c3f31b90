import ChordSearch.Gateway.Status
import ChordSearch.Text.Fields

/-! # Call metadata

A call carries metadata: values under keys, keys compared without regard to case. Two keys
matter to the operator service. `x-auth-token` carries the token a server may require: only
the first value counts. `x-request-id` names the request: the first value when it is not
empty, otherwise the server makes one up. A client sends a fresh request id with every call,
and the token when it has one.
-/

namespace ChordSearch

/-- Call metadata: keys in lower case with their values, in order. -/
structure Metadata where
  pairs : List (Bytes × Bytes)
  deriving DecidableEq

namespace Metadata

/-- Metadata from keys with their values. -/
def ofList (kvs : List (Bytes × List Bytes)) : Metadata :=
  ⟨kvs.flatMap fun (k, vs) => vs.map fun v => (Text.lower k, v)⟩

/-- The values under a key. -/
def get (md : Metadata) (key : String) : List Bytes :=
  (md.pairs.filter (·.1 == Text.lower (Bytes.ofString key))).map (·.2)

/-- The key of the auth token. -/
def authKey : String := "x-auth-token"

/-- The key of the request id. -/
def requestKey : String := "x-request-id"

end Metadata

/-- Check a call's token: no token is required when `expected` is empty; otherwise the call
needs metadata whose first token is `expected`. -/
def authorize (expected : Bytes) (md : Option Metadata) : Except Status Unit :=
  if expected.isEmpty then .ok ()
  else
    match md with
    | none => .error ⟨.unauthenticated, "missing metadata"⟩
    | some md =>
      match md.get Metadata.authKey with
      | [] => .error ⟨.unauthenticated, "missing auth token"⟩
      | t :: _ => if t == expected then .ok () else .error ⟨.unauthenticated, "invalid auth token"⟩

/-- The request id a call brings along: its first, when that is not empty. -/
def incomingRequestId (md : Option Metadata) : Option Bytes :=
  match md with
  | none => none
  | some md =>
    match md.get Metadata.requestKey with
    | id :: _ => if id.isEmpty then none else some id
    | [] => none

/-- A request id in the layout of a random UUID (8-4-4-4-12 hex digits), made from a
number. -/
def requestIdOf (n : Nat) : Bytes :=
  let h := Bytes.toHex (Bytes.ofNatBE 16 n)
  let cs := h.toList
  Bytes.ofString (String.ofList (cs.take 8 ++ ['-'] ++ (cs.drop 8).take 4 ++ ['-'] ++
    (cs.drop 12).take 4 ++ ['-'] ++ (cs.drop 16).take 4 ++ ['-'] ++ cs.drop 20))

/-- The metadata a client adds to a call: the request id, then the token if there is one. -/
def credentials (token requestId : Bytes) : Metadata :=
  ⟨(Bytes.ofString Metadata.requestKey, requestId) ::
    (if token.isEmpty then [] else [(Bytes.ofString Metadata.authKey, token)])⟩

end ChordSearch
