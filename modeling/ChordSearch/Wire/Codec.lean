import ChordSearch.Wire.Message
import ChordSearch.Cause

/-! # The wire format

A datagram is the tag byte, the transaction id as four big-endian bytes, and the payload's
fields in order:

* a string is its length as two big-endian bytes, then its bytes; at most 65535 bytes;
* a set is its count as four big-endian bytes, then its strings, written in ascending
  byte order with duplicates kept, so equal sets are written alike;
* a node is its number as four bytes and its four IPv4 octets; the unset node is eight zero
  bytes, and only an IPv4 node can be written;
* a ring position is its twenty bytes, and an index four bytes.

Writing refuses a missing message, a tag with no payload shape, and a payload of the wrong
shape, in that order, before any field; a field that cannot be written names the message
type. Reading refuses fewer than five bytes, then an unknown or reserved tag, then a field
that runs past the end (a set whose count needs more than two bytes per element than are
left counts as such), then bytes left over. Eight zero bytes read as the unset node; any
other eight bytes name a node, even number zero or address `0.0.0.0`. Sets read in the
order they were written.
-/

namespace ChordSearch

/-- Why a message cannot be written, or bytes cannot be read as one. -/
inductive CodecError where
  | nilMessage
  | unknownType (tag : UInt8)
  | reservedType (kind : Kind)
  | mismatch (tag : UInt8) (shape : Option Shape)
  | stringTooLong (kind : Kind) (length : Nat)
  | notIPv4 (kind : Kind) (addr : Address)
  | shortHeader (length : Nat)
  | truncated (kind : Kind)
  | trailing (kind : Kind) (count : Nat)
  deriving DecidableEq

namespace CodecError

/-- The text of a codec error. -/
def message : CodecError → String
  | .nilMessage => "payload does not match message type: nil message"
  | .unknownType t => "unknown message type: " ++ toString t.toNat
  | .reservedType k => "reserved message type: " ++ k.name
  | .mismatch t s =>
    "payload does not match message type: " ++ tagName t ++ " with " ++
      (match s with | some s => s.recordName | none => "<nil>")
  | .stringTooLong k n => "encode " ++ k.name ++ ": string too long: " ++ toString n ++ " bytes"
  | .notIPv4 k a => "encode " ++ k.name ++ ": node address is not IPv4: " ++ a.toText
  | .shortHeader n => "datagram truncated: " ++ toString n ++ " byte header"
  | .truncated k => "decode " ++ k.name ++ ": datagram truncated"
  | .trailing k n => "decode " ++ k.name ++ ": trailing bytes after payload: " ++ toString n

/-- The cause of a codec error. -/
def cause : CodecError → Cause
  | .nilMessage | .mismatch .. => .payloadMismatch
  | .unknownType _ => .unknownMessageType
  | .reservedType _ => .reservedMessageType
  | .stringTooLong .. => .stringTooLong
  | .notIPv4 .. => .notIPv4
  | .shortHeader _ | .truncated _ => .truncated
  | .trailing .. => .trailingBytes

end CodecError

namespace Bytes

/-- Byte-wise lexicographic order, a proper prefix first. -/
def lexLt : Bytes → Bytes → Bool
  | [], [] => false
  | [], _ :: _ => true
  | _ :: _, [] => false
  | a :: as, b :: bs => a < b || (a == b && lexLt as bs)

/-- Byte strings in ascending byte-wise order, duplicates kept. -/
def sort (xs : List Bytes) : List Bytes := xs.mergeSort fun a b => !lexLt b a

theorem lexLt_irrefl (a : Bytes) : lexLt a a = false := by
  induction a with
  | nil => rfl
  | cons x a ih => simp [lexLt, ih]

theorem lexLt_trans {a b c : Bytes} (hab : lexLt a b = true) (hbc : lexLt b c = true) :
    lexLt a c = true := by
  induction a generalizing b c with
  | nil =>
    cases b with
    | nil => simp [lexLt] at hab
    | cons y b => cases c with
      | nil => simp [lexLt] at hbc
      | cons z c => rfl
  | cons x a ih =>
    cases b with
    | nil => simp [lexLt] at hab
    | cons y b =>
      cases c with
      | nil => simp [lexLt] at hbc
      | cons z c =>
        simp only [lexLt, Bool.or_eq_true, Bool.and_eq_true, beq_iff_eq, decide_eq_true_eq] at hab hbc ⊢
        rcases hab with hxy | ⟨rfl, hab⟩ <;> rcases hbc with hyz | ⟨rfl, hbc⟩
        · exact .inl (UInt8.lt_trans hxy hyz)
        · exact .inl hxy
        · exact .inl hyz
        · exact .inr ⟨rfl, ih hab hbc⟩

theorem lexLt_total (a b : Bytes) : lexLt a b = true ∨ a = b ∨ lexLt b a = true := by
  induction a generalizing b with
  | nil => cases b <;> simp [lexLt]
  | cons x a ih =>
    cases b with
    | nil => simp [lexLt]
    | cons y b =>
      simp only [lexLt, Bool.or_eq_true, Bool.and_eq_true, beq_iff_eq, decide_eq_true_eq,
        List.cons.injEq]
      have hord : x < y ∨ x = y ∨ y < x := by
        rw [UInt8.lt_iff_toNat_lt, UInt8.lt_iff_toNat_lt, ← UInt8.toNat_inj]
        omega
      rcases hord with hxy | rfl | hyx
      · exact .inl (.inl hxy)
      · rcases ih b with h | rfl | h
        · exact .inl (.inr ⟨rfl, h⟩)
        · exact .inr (.inl ⟨rfl, rfl⟩)
        · exact .inr (.inr (.inr ⟨rfl, h⟩))
      · exact .inr (.inr (.inl hyx))

theorem lexLt_asymm {a b : Bytes} (h : lexLt a b = true) : lexLt b a = false := by
  cases hba : lexLt b a
  · rfl
  · have := lexLt_trans h hba
    rw [lexLt_irrefl] at this
    exact absurd this (by decide)

end Bytes

namespace Codec

/-- A field that cannot be written. -/
inductive FieldError where
  | tooLong (length : Nat)
  | notIPv4 (addr : Address)

/-- Two big-endian bytes. -/
def u16 (n : Nat) : Bytes := Bytes.ofNatBE 2 n

/-- Four big-endian bytes. -/
def u32 (n : UInt32) : Bytes := Bytes.ofNatBE 4 n.toNat

/-- A string: its length, then its bytes. -/
def putStr (s : Bytes) : Except FieldError Bytes :=
  if s.length > 65535 then .error (.tooLong s.length) else .ok (u16 s.length ++ s)

/-- A set: its count, then its strings in ascending order. -/
def putSet (xs : List Bytes) : Except FieldError Bytes := do
  let sorted := Bytes.sort xs
  let parts ← sorted.mapM putStr
  return Bytes.ofNatBE 4 sorted.length ++ parts.flatten

/-- A node: number and IPv4 octets, or eight zero bytes when unset. -/
def putNode (n : NodeRef) : Except FieldError Bytes :=
  match n.addr with
  | .unset => .ok (List.replicate 8 0)
  | .v4 os => .ok (u32 n.num ++ os)
  | a => .error (.notIPv4 a)

/-- The fields of a payload. -/
def putPayload : Payload → Except FieldError Bytes
  | .ping t => putStr t
  | .join l r => return (← putNode l) ++ (← putNode r)
  | .joinReply r l s => return (← putNode r) ++ (← putNode l) ++ (← putNode s)
  | .departure s c => return (← putNode s) ++ (← putNode c)
  | .stabilize s => putNode s
  | .stabilizeReply p => putNode p
  | .ringState o => putNode o
  | .findSuccessor n s i => return (← putNode n) ++ s.toBytes ++ u32 i
  | .store t d => return (← putStr t) ++ (← putSet d)
  | .fetch o k r a => return u32 o ++ (← putStr k) ++ (← putSet r) ++ (← putSet a)
  | .fetchReply d => putSet d

end Codec

/-- Write a message as a datagram. -/
def Message.encode (m : Message) : Except CodecError Bytes :=
  let k := m.body.kind
  match Codec.putPayload m.body.payload with
  | .ok p => .ok (k.tag :: Codec.u32 m.tx ++ p)
  | .error (.tooLong n) => .error (.stringTooLong k n)
  | .error (.notIPv4 a) => .error (.notIPv4 k a)

/-- Check a message handed in by a caller: present, a tag with a payload shape, and a
payload of that shape. -/
def Draft.check : Option Draft → Except CodecError Message
  | none => .error .nilMessage
  | some d =>
    match Kind.ofTag? d.tag with
    | none => .error (.unknownType d.tag)
    | some k =>
      if k.shape?.isNone then .error (.reservedType k)
      else match d.payload with
        | none => .error (.mismatch d.tag none)
        | some p =>
          match Body.ofParts? k p with
          | some b => .ok ⟨d.tx, b⟩
          | none => .error (.mismatch d.tag (some p.shape))

/-- Check a message handed in by a caller, then write it. -/
def Draft.encode (d : Option Draft) : Except CodecError Bytes := do
  (← Draft.check d).encode

namespace Codec

/-- A reader consumes a prefix of the bytes, or fails when they run out. -/
abbrev Reader := StateT Bytes Option

/-- The next `n` bytes. -/
def take (n : Nat) : Reader Bytes := do
  let b ← get
  if n ≤ b.length then
    set (b.drop n)
    return b.take n
  else failure

/-- A number of `n` big-endian bytes. -/
def number (n : Nat) : Reader Nat := return Bytes.toNatBE (← take n)

/-- A four-byte number. -/
def word : Reader UInt32 := return UInt32.ofNat (← number 4)

/-- A string. -/
def str : Reader Bytes := do take (← number 2)

/-- `n` strings. -/
def strs : Nat → Reader (List Bytes)
  | 0 => return []
  | n + 1 => return (← str) :: (← strs n)

/-- A set, refused up front when its count needs more bytes than are left. -/
def set : Reader (List Bytes) := do
  let n ← number 4
  if n * 2 > (← get).length then failure
  strs n

/-- A node. -/
def node : Reader NodeRef := do
  let num ← word
  let ip ← take 4
  if num = 0 ∧ ip = [0, 0, 0, 0] then return NodeRef.unset
  return NodeRef.make num (.v4 ip)

/-- A ring position. -/
def ringId : Reader RingId := return RingId.ofBytes (← take 20)

/-- The payload of a message type with a shape, as a body. -/
def body : Kind → Option (Reader Body)
  | .pingReq => some (.pingReq <$> str)
  | .pingRsp => some (.pingRsp <$> str)
  | .joinReq => some do return .joinReq (← node) (← node)
  | .joinRsp => some do return .joinRsp (← node) (← node) (← node)
  | .departureReq => some do return .departureReq (← node) (← node)
  | .stabilizeRsp => some (.stabilizeRsp <$> node)
  | .stabilizeReq => some (.stabilizeReq <$> node)
  | .ringStatePing => some (.ringStatePing <$> node)
  | .findSuccessorReq => some do return .findSuccessorReq (← node) (← ringId) (← word)
  | .findSuccessorRsp => some do return .findSuccessorRsp (← node) (← ringId) (← word)
  | .lookupReq | .lookupRsp => none
  | .storeReq => some do return .storeReq (← str) (← set)
  | .fetchReq => some do return .fetchReq (← word) (← str) (← set) (← set)
  | .fetchRsp => some (.fetchRsp <$> set)

end Codec

/-- Read a datagram as a message. -/
def Message.decode (b : Bytes) : Except CodecError Message :=
  match b with
  | t :: b1 :: b2 :: b3 :: b4 :: rest =>
    match Kind.ofTag? t with
    | none => .error (.unknownType t)
    | some k =>
      match Codec.body k with
      | none => .error (.reservedType k)
      | some r =>
        match r.run rest with
        | none => .error (.truncated k)
        | some (body, []) => .ok ⟨UInt32.ofNat (Bytes.toNatBE [b1, b2, b3, b4]), body⟩
        | some (_, left) => .error (.trailing k left.length)
  | _ => .error (.shortHeader b.length)

end ChordSearch
