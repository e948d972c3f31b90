import ChordSearch.Hash.Sha1
import ChordSearch.Text.Quoted

/-! # Ring positions

A ring position is an unsigned 160-bit number, written as twenty big-endian bytes or forty
lowercase hex digits. Nodes sit at the SHA-1 digest of their address text and terms at the
digest of the term, so every position is a digest read as a number.

Numbers outside the ring are taken modulo `2 ^ 160`, negative ones included, so `-1` is the
largest position. Finger starts add a power of two to a position, modulo the ring; a power
outside `0 ≤ e < 160` adds nothing.
-/

/-! ## Hex text

Reading hex text back into bytes. Two digits, either case, make one byte. Pairs are read
from the left, and the first byte that is no hex digit is the error, even in an odd
trailing position; only text whose digits are all good can fail for its odd length.
-/

namespace ChordSearch.Hex

/-- Why hex text does not read as bytes. -/
inductive Error where
  | invalidByte (b : UInt8)
  | oddLength
  deriving DecidableEq, Repr

/-- The text of a hex error. -/
def Error.message : Error → String
  | .invalidByte b => "encoding/hex: invalid byte: " ++ Quoted.codePoint b.toNat
  | .oddLength => "encoding/hex: odd length hex string"

/-- Read hex text into bytes, the bytes read so far kept in reverse. -/
def decodeOnto (acc : Bytes) : Bytes → Except Error Bytes
  | [] => .ok acc.reverse
  | [c] => if (Bytes.hexValue? c).isSome then .error .oddLength else .error (.invalidByte c)
  | hi :: lo :: rest =>
    match Bytes.hexValue? hi, Bytes.hexValue? lo with
    | some h, some l => decodeOnto (UInt8.ofNat (h * 16 + l) :: acc) rest
    | none, _ => .error (.invalidByte hi)
    | some _, none => .error (.invalidByte lo)

/-- Read hex text into bytes. -/
def decode (b : Bytes) : Except Error Bytes := decodeOnto [] b

example : (decode (Bytes.ofString "0aFf")).toOption = some [10, 255] := by decide +kernel

end ChordSearch.Hex

namespace ChordSearch

/-- The number of bits of a ring position. -/
def idBits : Nat := 160

/-- The number of positions on the ring, `2 ^ 160`. -/
def ringSize : Nat := Nat.pow 2 idBits

theorem ringSize_pos : 0 < ringSize := Nat.two_pow_pos _

/-- A position on the identifier ring: a number below `2 ^ 160`. -/
structure RingId where
  toNat : Nat
  isLt : toNat < ringSize
  deriving DecidableEq

namespace RingId

/-- The position of a number, taken modulo the ring. -/
def ofNat (n : Nat) : RingId := ⟨n % ringSize, Nat.mod_lt _ ringSize_pos⟩

/-- The position of an integer, taken modulo the ring with a non-negative result. -/
def ofInt (i : Int) : RingId := ofNat (i % (ringSize : Int)).toNat

/-- Position zero. -/
def zero : RingId := ofNat 0

instance : Inhabited RingId := ⟨zero⟩

instance : LT RingId := ⟨fun a b => a.toNat < b.toNat⟩
instance : LE RingId := ⟨fun a b => a.toNat ≤ b.toNat⟩
instance (a b : RingId) : Decidable (a < b) := inferInstanceAs (Decidable (a.toNat < b.toNat))
instance (a b : RingId) : Decidable (a ≤ b) := inferInstanceAs (Decidable (a.toNat ≤ b.toNat))

/-- Positions compare as numbers. -/
instance : Ord RingId := ⟨fun a b => compare a.toNat b.toNat⟩

/-- Whether this is position zero. -/
def isZero (x : RingId) : Bool := x.toNat == 0

/-- The twenty big-endian bytes of a position. -/
def toBytes (x : RingId) : Bytes := Bytes.ofNatBE 20 x.toNat

/-- The position that big-endian bytes spell, taken modulo the ring. -/
def ofBytes (b : Bytes) : RingId := ofNat (Bytes.toNatBE b)

/-- The forty lowercase hex digits of a position. -/
def toHex (x : RingId) : String := Bytes.toHex x.toBytes

/-- The first `n` hex digits, or all forty when `n` is not between 1 and 39. -/
def short (x : RingId) (n : Int) : String :=
  if n ≤ 0 ∨ 40 ≤ n then x.toHex else String.ofList (x.toHex.toList.take n.toNat)

/-- The position of a byte string: its SHA-1 digest. -/
def hash (b : Bytes) : RingId := ofBytes (Sha1.digest b)

/-- The position of a string's UTF-8 bytes. -/
def hashString (s : String) : RingId := hash (Bytes.ofString s)

/-- Add `2 ^ e` modulo the ring; an exponent outside `0 ≤ e < 160` adds nothing. -/
def addPow2 (x : RingId) (e : Int) : RingId :=
  if 0 ≤ e ∧ e < 160 then ofNat (x.toNat + Nat.pow 2 e.toNat) else x

/-- Why text does not name a ring position. -/
inductive ParseError where
  | badHex (input : Bytes) (cause : Hex.Error)
  | wrongLength (input : Bytes) (got : Nat)
  deriving DecidableEq

/-- The text of a parse error. -/
def ParseError.message : ParseError → String
  | .badHex s e => "invalid id " ++ Quoted.quote s ++ ": " ++ e.message
  | .wrongLength s n => "invalid id " ++ Quoted.quote s ++ ": want 20 bytes, got " ++ toString n

/-- Read forty hex digits, either case, as a position. -/
def parseHex (s : Bytes) : Except ParseError RingId :=
  match Hex.decode s with
  | .error e => .error (.badHex s e)
  | .ok b => if b.length = 20 then .ok (ofBytes b) else .error (.wrongLength s b.length)

theorem toNat_ofNat (n : Nat) : (ofNat n).toNat = n % ringSize := rfl

theorem ofNat_toNat (x : RingId) : ofNat x.toNat = x := by
  cases x with
  | mk n h => simp [ofNat, Nat.mod_eq_of_lt h]

theorem ext {a b : RingId} (h : a.toNat = b.toNat) : a = b := by
  cases a; cases b; simp_all

theorem ofBytes_toBytes (x : RingId) : ofBytes x.toBytes = x := by
  apply ext
  simp only [ofBytes, toBytes, toNat_ofNat, Bytes.toNatBE_ofNatBE]
  have : Nat.pow 256 20 = ringSize := by decide
  rw [this, Nat.mod_mod, Nat.mod_eq_of_lt x.isLt]

end RingId

end ChordSearch
