/-! # Causes of failure

Failures carry a message for people and, for callers, the causes they stem from. A failure
that wraps another keeps the inner causes after its own, so a caller can ask whether a
failure stems from, say, a node outside the ring however deep the reason sits.
-/

namespace ChordSearch

/-- The causes a caller can tell apart. -/
inductive Cause where
  | unknownMessageType
  | reservedMessageType
  | truncated
  | trailingBytes
  | stringTooLong
  | payloadMismatch
  | notIPv4
  | malformedIndex
  | invalidCommand
  | notInRing
  | alreadyInRing
  | canceled
  | stopped
  | unknownNode
  | unknownAddress
  | unexpectedMessage
  | lineTooLong
  | fileMissing
  | deadlineExceeded
  | callCanceled
  deriving DecidableEq, Repr, Inhabited

/-- Every cause, in the order a caller checks them. -/
def Cause.all : List Cause :=
  [.unknownMessageType, .reservedMessageType, .truncated, .trailingBytes, .stringTooLong,
    .payloadMismatch, .notIPv4, .malformedIndex, .invalidCommand, .notInRing, .alreadyInRing,
    .canceled, .stopped, .unknownNode, .unknownAddress, .unexpectedMessage, .lineTooLong,
    .fileMissing, .deadlineExceeded, .callCanceled]

/-- The text of a cause that is a failure of its own, when it is one. -/
def Cause.text : Cause → Option String
  | .invalidCommand => some "invalid command"
  | .notInRing => some "node is not in the ring"
  | .alreadyInRing => some "node is already in the ring"
  | .canceled => some "context canceled"
  | .stopped => some "node stopped"
  | .deadlineExceeded => some "context deadline exceeded"
  | .callCanceled => some "context canceled"
  | _ => none

end ChordSearch
