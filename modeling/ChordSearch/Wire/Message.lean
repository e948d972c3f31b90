import ChordSearch.Ring.NodeRef

/-! # Messages

Every datagram opens with a one-byte type tag and a 32-bit transaction id. Ring upkeep
uses tags 1 to 10 (ping, join, departure, stabilize, ring-state walk, find-successor),
tags 11 and 12 are reserved, and the index layer uses 20 to 22 (store, fetch, fetch reply).

A payload has one of eleven shapes; a tag fixes the shape (both pings share one, both
find-successor messages another). A `Body` is a tag together with a payload of its shape,
so a well-formed message cannot pair a tag with the wrong payload. A `Draft` is what a
caller may hand in before that check: any tag, any payload or none.
-/

namespace ChordSearch

/-- Message types, by their one-byte tags. -/
inductive Kind where
  | pingReq | pingRsp | joinReq | joinRsp | departureReq | stabilizeRsp | stabilizeReq
  | ringStatePing | findSuccessorReq | findSuccessorRsp | lookupReq | lookupRsp
  | storeReq | fetchReq | fetchRsp
  deriving DecidableEq, Repr

namespace Kind

/-- Every message type, in tag order. -/
def all : List Kind :=
  [pingReq, pingRsp, joinReq, joinRsp, departureReq, stabilizeRsp, stabilizeReq, ringStatePing,
    findSuccessorReq, findSuccessorRsp, lookupReq, lookupRsp, storeReq, fetchReq, fetchRsp]

/-- The tag byte of a message type. -/
def tag : Kind → UInt8
  | pingReq => 1 | pingRsp => 2 | joinReq => 3 | joinRsp => 4 | departureReq => 5
  | stabilizeRsp => 6 | stabilizeReq => 7 | ringStatePing => 8 | findSuccessorReq => 9
  | findSuccessorRsp => 10 | lookupReq => 11 | lookupRsp => 12 | storeReq => 20
  | fetchReq => 21 | fetchRsp => 22

/-- The message type a tag byte names, if any. -/
def ofTag? (t : UInt8) : Option Kind := all.find? (·.tag == t)

/-- The name of a message type. -/
def name : Kind → String
  | pingReq => "PING_REQ" | pingRsp => "PING_RSP" | joinReq => "JOIN_REQ"
  | joinRsp => "JOIN_RSP" | departureReq => "DEPARTURE_REQ" | stabilizeRsp => "STABILIZE_RSP"
  | stabilizeReq => "STABILIZE_REQ" | ringStatePing => "RING_STATE_PING"
  | findSuccessorReq => "FIND_SUCCESSOR_REQ" | findSuccessorRsp => "FIND_SUCCESSOR_RSP"
  | lookupReq => "LOOKUP_REQ" | lookupRsp => "LOOKUP_RSP" | storeReq => "STORE_REQ"
  | fetchReq => "FETCH_REQ" | fetchRsp => "FETCH_RSP"

/-- Whether a message type belongs to the index layer. -/
def isSearch (k : Kind) : Bool := k == storeReq || k == fetchReq || k == fetchRsp

theorem ofTag?_tag (k : Kind) : ofTag? k.tag = some k := by cases k <;> rfl

end Kind

/-- The name of a tag byte: its type's name, or `UNKNOWN(<tag>)`. -/
def tagName (t : UInt8) : String :=
  match Kind.ofTag? t with
  | some k => k.name
  | none => "UNKNOWN(" ++ toString t.toNat ++ ")"

/-- The eleven payload shapes. -/
inductive Shape where
  | ping | join | joinReply | departure | stabilize | stabilizeReply | ringState
  | findSuccessor | store | fetch | fetchReply
  deriving DecidableEq, Repr

/-- Every payload shape. -/
def Shape.all : List Shape :=
  [.ping, .join, .joinReply, .departure, .stabilize, .stabilizeReply, .ringState,
    .findSuccessor, .store, .fetch, .fetchReply]

/-- The payload shape a message type carries; none for the reserved types. -/
def Kind.shape? : Kind → Option Shape
  | .pingReq | .pingRsp => some .ping
  | .joinReq => some .join
  | .joinRsp => some .joinReply
  | .departureReq => some .departure
  | .stabilizeRsp => some .stabilizeReply
  | .stabilizeReq => some .stabilize
  | .ringStatePing => some .ringState
  | .findSuccessorReq | .findSuccessorRsp => some .findSuccessor
  | .lookupReq | .lookupRsp => none
  | .storeReq => some .store
  | .fetchReq => some .fetch
  | .fetchRsp => some .fetchReply

/-- The lowercase name of a shape. -/
def Shape.name : Shape → String
  | .ping => "ping" | .join => "join" | .joinReply => "join_reply" | .departure => "departure"
  | .stabilize => "stabilize" | .stabilizeReply => "stabilize_reply"
  | .ringState => "ring_state" | .findSuccessor => "find_successor" | .store => "store"
  | .fetch => "fetch" | .fetchReply => "fetch_reply"

/-- The record type name a shape is reported under when it does not fit a tag. -/
def Shape.recordName : Shape → String
  | .ping => "*protocol.Ping" | .join => "*protocol.Join" | .joinReply => "*protocol.JoinReply"
  | .departure => "*protocol.Departure" | .stabilize => "*protocol.Stabilize"
  | .stabilizeReply => "*protocol.StabilizeReply" | .ringState => "*protocol.RingState"
  | .findSuccessor => "*protocol.FindSuccessor" | .store => "*protocol.Store"
  | .fetch => "*protocol.Fetch" | .fetchReply => "*protocol.FetchReply"

/-- The key of a find-successor exchange that resolves a key rather than a finger. -/
def lookupIndex : UInt32 := 0xFFFFFFFF

/-- A payload of any shape. -/
inductive Payload where
  | ping (text : Bytes)
  | join (landmark requester : NodeRef)
  | joinReply (requester landmark successor : NodeRef)
  | departure (sender conn : NodeRef)
  | stabilize (sender : NodeRef)
  | stabilizeReply (predecessor : NodeRef)
  | ringState (originator : NodeRef)
  | findSuccessor (node : NodeRef) (start : RingId) (index : UInt32)
  | store (term : Bytes) (documents : List Bytes)
  | fetch (originator : UInt32) (key : Bytes) (remaining accumulated : List Bytes)
  | fetchReply (documents : List Bytes)
  deriving DecidableEq

/-- The shape of a payload. -/
def Payload.shape : Payload → Shape
  | .ping .. => .ping | .join .. => .join | .joinReply .. => .joinReply
  | .departure .. => .departure | .stabilize .. => .stabilize
  | .stabilizeReply .. => .stabilizeReply | .ringState .. => .ringState
  | .findSuccessor .. => .findSuccessor | .store .. => .store | .fetch .. => .fetch
  | .fetchReply .. => .fetchReply

/-- A message type with a payload of its shape. -/
inductive Body where
  | pingReq (text : Bytes)
  | pingRsp (text : Bytes)
  | joinReq (landmark requester : NodeRef)
  | joinRsp (requester landmark successor : NodeRef)
  | departureReq (sender conn : NodeRef)
  | stabilizeRsp (predecessor : NodeRef)
  | stabilizeReq (sender : NodeRef)
  | ringStatePing (originator : NodeRef)
  | findSuccessorReq (node : NodeRef) (start : RingId) (index : UInt32)
  | findSuccessorRsp (node : NodeRef) (start : RingId) (index : UInt32)
  | storeReq (term : Bytes) (documents : List Bytes)
  | fetchReq (originator : UInt32) (key : Bytes) (remaining accumulated : List Bytes)
  | fetchRsp (documents : List Bytes)
  deriving DecidableEq

namespace Body

/-- The message type of a body. -/
def kind : Body → Kind
  | .pingReq .. => .pingReq | .pingRsp .. => .pingRsp | .joinReq .. => .joinReq
  | .joinRsp .. => .joinRsp | .departureReq .. => .departureReq
  | .stabilizeRsp .. => .stabilizeRsp | .stabilizeReq .. => .stabilizeReq
  | .ringStatePing .. => .ringStatePing | .findSuccessorReq .. => .findSuccessorReq
  | .findSuccessorRsp .. => .findSuccessorRsp | .storeReq .. => .storeReq
  | .fetchReq .. => .fetchReq | .fetchRsp .. => .fetchRsp

/-- The payload of a body. -/
def payload : Body → Payload
  | .pingReq t | .pingRsp t => .ping t
  | .joinReq l r => .join l r
  | .joinRsp r l s => .joinReply r l s
  | .departureReq s c => .departure s c
  | .stabilizeRsp p => .stabilizeReply p
  | .stabilizeReq s => .stabilize s
  | .ringStatePing o => .ringState o
  | .findSuccessorReq n s i | .findSuccessorRsp n s i => .findSuccessor n s i
  | .storeReq t d => .store t d
  | .fetchReq o k r a => .fetch o k r a
  | .fetchRsp d => .fetchReply d

/-- The body of a message type and a payload, when the payload has the type's shape. -/
def ofParts? : Kind → Payload → Option Body
  | .pingReq, .ping t => some (.pingReq t)
  | .pingRsp, .ping t => some (.pingRsp t)
  | .joinReq, .join l r => some (.joinReq l r)
  | .joinRsp, .joinReply r l s => some (.joinRsp r l s)
  | .departureReq, .departure s c => some (.departureReq s c)
  | .stabilizeRsp, .stabilizeReply p => some (.stabilizeRsp p)
  | .stabilizeReq, .stabilize s => some (.stabilizeReq s)
  | .ringStatePing, .ringState o => some (.ringStatePing o)
  | .findSuccessorReq, .findSuccessor n s i => some (.findSuccessorReq n s i)
  | .findSuccessorRsp, .findSuccessor n s i => some (.findSuccessorRsp n s i)
  | .storeReq, .store t d => some (.storeReq t d)
  | .fetchReq, .fetch o k r a => some (.fetchReq o k r a)
  | .fetchRsp, .fetchReply d => some (.fetchRsp d)
  | _, _ => none

theorem ofParts?_kind_payload (b : Body) : ofParts? b.kind b.payload = some b := by
  cases b <;> rfl

end Body

/-- A datagram's content: transaction id and body. -/
structure Message where
  tx : UInt32
  body : Body
  deriving DecidableEq

/-- A message as a caller may hand it in: any tag byte, and a payload of any shape or
none. -/
structure Draft where
  tag : UInt8
  tx : UInt32
  payload : Option Payload

end ChordSearch
