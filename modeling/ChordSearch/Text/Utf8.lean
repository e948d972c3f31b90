import ChordSearch.Bytes

/-! # Reading UTF-8

Text rules (trimming, splitting into fields, lower-casing, quoting) look at characters,
while the data they read is raw bytes. `decode` reads bytes into glyphs: a well-formed
UTF-8 sequence becomes its scalar value, and a byte that starts no well-formed sequence
becomes a stray byte on its own. The next glyph is read at the byte after a stray one, so
a truncated three-byte sequence reads as two stray bytes.

Well-formed means the shortest form of a scalar value that is not a surrogate and is at
most `0x10FFFF`: a lead byte `C2`–`DF` with one continuation byte, `E0`–`EF` with two
(second byte `A0`–`BF` after `E0`, `80`–`9F` after `ED`), `F0`–`F4` with three (second
byte `90`–`BF` after `F0`, `80`–`8F` after `F4`).
-/

namespace ChordSearch

/-- One unit of text read from bytes: a character, or a byte that starts no character. -/
inductive Glyph where
  | scalar (c : Char)
  | stray (b : UInt8)
  deriving DecidableEq, Repr

namespace Glyph

/-- The bytes a glyph was read from. -/
def bytes : Glyph → Bytes
  | .scalar c => String.utf8EncodeChar c
  | .stray b => [b]

/-- The character a glyph stands for, a stray byte standing for the replacement character. -/
def toChar : Glyph → Char
  | .scalar c => c
  | .stray _ => '�'

end Glyph

namespace Utf8

/-- A continuation byte `80`–`BF`. -/
def isCont (b : UInt8) : Bool := 0x80 ≤ b && b ≤ 0xBF

/-- The lowest and highest second byte allowed after a lead byte of three or four bytes. -/
def secondRange (b0 : UInt8) : UInt8 × UInt8 :=
  if b0 = 0xE0 then (0xA0, 0xBF)
  else if b0 = 0xED then (0x80, 0x9F)
  else if b0 = 0xF0 then (0x90, 0xBF)
  else if b0 = 0xF4 then (0x80, 0x8F)
  else (0x80, 0xBF)

/-- Whether `b1` may follow the lead byte `b0` of a sequence of three or four bytes. -/
def secondOk (b0 b1 : UInt8) : Bool :=
  (secondRange b0).1 ≤ b1 && b1 ≤ (secondRange b0).2

/-- The low six bits of a continuation byte. -/
def low (b : UInt8) : Nat := b.toNat % 64

/-- The glyph at the head of the bytes and the bytes after it. -/
def next (b0 : UInt8) (r0 : Bytes) : Glyph × Bytes :=
  if b0 < 0x80 then (.scalar (Char.ofNat b0.toNat), r0)
  else if 0xC2 ≤ b0 && b0 ≤ 0xDF then
    match r0 with
    | b1 :: r1 =>
      if isCont b1 then (.scalar (Char.ofNat ((b0.toNat % 32) * 64 + low b1)), r1)
      else (.stray b0, r0)
    | [] => (.stray b0, r0)
  else if 0xE0 ≤ b0 && b0 ≤ 0xEF then
    match r0 with
    | b1 :: b2 :: r2 =>
      if secondOk b0 b1 && isCont b2 then
        (.scalar (Char.ofNat ((b0.toNat % 16) * 4096 + low b1 * 64 + low b2)), r2)
      else (.stray b0, r0)
    | _ => (.stray b0, r0)
  else if 0xF0 ≤ b0 && b0 ≤ 0xF4 then
    match r0 with
    | b1 :: b2 :: b3 :: r3 =>
      if secondOk b0 b1 && isCont b2 && isCont b3 then
        (.scalar (Char.ofNat ((b0.toNat % 8) * 262144 + low b1 * 4096 + low b2 * 64 + low b3)),
          r3)
      else (.stray b0, r0)
    | _ => (.stray b0, r0)
  else (.stray b0, r0)

theorem next_length_lt (b0 : UInt8) (r0 : Bytes) : (next b0 r0).2.length < (b0 :: r0).length := by
  unfold next
  repeat' split
  all_goals simp_all <;> omega

/-- Read bytes into glyphs, the glyphs read so far kept in reverse. -/
def decodeOnto (acc : List Glyph) : Bytes → List Glyph
  | [] => acc.reverse
  | b0 :: r0 => decodeOnto ((next b0 r0).1 :: acc) (next b0 r0).2
termination_by b => b.length
decreasing_by
  have h := next_length_lt b0 r0
  simp only [List.length_cons] at h ⊢
  omega

/-- Read bytes into glyphs; see the module comment for which sequences are characters. -/
def decode (b : Bytes) : List Glyph := decodeOnto [] b

/-- Write glyphs back as the bytes they were read from. -/
def encode (gs : List Glyph) : Bytes := gs.flatMap Glyph.bytes

/-- The UTF-8 bytes of characters. -/
def ofChars (cs : List Char) : Bytes := cs.flatMap String.utf8EncodeChar

/-- Read bytes as characters, each stray byte becoming the replacement character. -/
def chars (b : Bytes) : List Char := (decode b).map Glyph.toChar

/-- Whether bytes are well-formed UTF-8 throughout. -/
def isValid (b : Bytes) : Bool := (decode b).all fun | .scalar _ => true | .stray _ => false

end Utf8

/-- Bytes shown as text, stray bytes as replacement characters. -/
def Bytes.show (b : Bytes) : String := String.ofList (Utf8.chars b)

end ChordSearch
