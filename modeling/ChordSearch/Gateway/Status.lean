import ChordSearch.Cause

/-! # Call status

A remote call ends with a status: a code and a message. A failed operator request maps to a
code by its causes: a refused command line is an invalid argument, a node in the wrong ring
state fails a precondition, a stopped node is unavailable, and a call that ran out of time
or was canceled says so; anything else is internal. The first of these rules that applies
wins.
-/

namespace ChordSearch

/-- The status codes of a call. -/
inductive StatusCode where
  | ok | canceled | unknown | invalidArgument | deadlineExceeded | notFound | alreadyExists
  | permissionDenied | resourceExhausted | failedPrecondition | aborted | outOfRange
  | unimplemented | internal | unavailable | dataLoss | unauthenticated
  deriving DecidableEq, Repr

namespace StatusCode

/-- The name of a code. -/
def name : StatusCode → String
  | ok => "OK" | canceled => "Canceled" | unknown => "Unknown"
  | invalidArgument => "InvalidArgument" | deadlineExceeded => "DeadlineExceeded"
  | notFound => "NotFound" | alreadyExists => "AlreadyExists"
  | permissionDenied => "PermissionDenied" | resourceExhausted => "ResourceExhausted"
  | failedPrecondition => "FailedPrecondition" | aborted => "Aborted"
  | outOfRange => "OutOfRange" | unimplemented => "Unimplemented" | internal => "Internal"
  | unavailable => "Unavailable" | dataLoss => "DataLoss"
  | unauthenticated => "Unauthenticated"

/-- The number of a code. -/
def number : StatusCode → Nat
  | ok => 0 | canceled => 1 | unknown => 2 | invalidArgument => 3 | deadlineExceeded => 4
  | notFound => 5 | alreadyExists => 6 | permissionDenied => 7 | resourceExhausted => 8
  | failedPrecondition => 9 | aborted => 10 | outOfRange => 11 | unimplemented => 12
  | internal => 13 | unavailable => 14 | dataLoss => 15 | unauthenticated => 16

/-- The code of a failure with these causes. -/
def ofCauses (cs : List Cause) : StatusCode :=
  if cs.contains .invalidCommand then invalidArgument
  else if cs.contains .notInRing || cs.contains .alreadyInRing then failedPrecondition
  else if cs.contains .stopped then unavailable
  else if cs.contains .deadlineExceeded then deadlineExceeded
  else if cs.contains .callCanceled || cs.contains .canceled then canceled
  else internal

end StatusCode

/-- The status a call ends with. -/
structure Status where
  code : StatusCode
  message : String
  deriving DecidableEq

/-- The text of a status: its code and message. -/
def Status.text (st : Status) : String :=
  "rpc error: code = " ++ st.code.name ++ " desc = " ++ st.message

/-- The status of a failure with these causes and this message. -/
def Status.ofFailure (cs : List Cause) (message : String) : Status :=
  ⟨StatusCode.ofCauses cs, message⟩

/-- A failure that wraps a cause around a detail: its causes and its message, or the
detail alone when the cause has no text. -/
def Cause.wrap (c : Cause) (detail : String) : List Cause × String :=
  match c.text with
  | some t => ([c], t ++ ": " ++ detail)
  | none => ([], detail)

/-- The parts a server or transport cannot be built without. -/
inductive Part where
  | backend | config | logger | operator
  deriving DecidableEq

/-- The refusal to build without a part. -/
def Part.missingMessage : Part → String
  | .backend => "backend cannot be nil"
  | .config => "config cannot be nil"
  | .logger => "logger cannot be nil"
  | .operator => "operator cannot be nil"

end ChordSearch
