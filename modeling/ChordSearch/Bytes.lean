/-! # Byte strings

Terms, documents, ping messages and datagrams are byte strings. A term read from a file
need not be valid UTF-8 and the wire carries whatever bytes it is given, so the library
keeps text as a list of bytes and decodes it only where a rule looks at characters.

This module holds the byte-level vocabulary: UTF-8 text in and out, lowercase hex, and
big-endian numbers of a fixed width, with the laws that tie each writer to its reader.
-/

namespace ChordSearch

/-- A byte string: the unit of text in the index and on the wire. -/
abbrev Bytes := List UInt8

namespace Bytes

/-- The UTF-8 bytes of a string. -/
def ofString (s : String) : Bytes := s.toUTF8.toList

/-- The string these bytes spell, when they are valid UTF-8. -/
def toString? (b : Bytes) : Option String := String.fromUTF8? b.toByteArray

/-- The lowercase hex digit of a value below 16. -/
def hexDigit (n : Nat) : Char :=
  if n < 10 then Char.ofNat (48 + n) else Char.ofNat (87 + n)

/-- Two lowercase hex digits per byte, most significant first. -/
def toHex (b : Bytes) : String :=
  String.ofList (b.flatMap fun x => [hexDigit (x.toNat / 16), hexDigit (x.toNat % 16)])

/-- The value of one hex digit, either case. -/
def hexValue? (c : UInt8) : Option Nat :=
  if 48 ≤ c ∧ c ≤ 57 then some (c.toNat - 48)
  else if 97 ≤ c ∧ c ≤ 102 then some (c.toNat - 87)
  else if 65 ≤ c ∧ c ≤ 70 then some (c.toNat - 55)
  else none

/-- The `width` low bytes of `n`, most significant first. -/
def ofNatBE : Nat → Nat → Bytes
  | 0, _ => []
  | w + 1, n => ofNatBE w (n / 256) ++ [UInt8.ofNat (n % 256)]

/-- The number that bytes spell, most significant first. -/
def toNatBE (b : Bytes) : Nat := b.foldl (fun acc x => acc * 256 + x.toNat) 0

@[simp] theorem length_ofNatBE (w n : Nat) : (ofNatBE w n).length = w := by
  induction w generalizing n with
  | zero => rfl
  | succ w ih => simp [ofNatBE, ih]

theorem toNatBE_append (a b : Bytes) :
    toNatBE (a ++ b) = toNatBE a * Nat.pow 256 b.length + toNatBE b := by
  rw [Nat.pow_eq]
  unfold toNatBE
  rw [List.foldl_append]
  generalize List.foldl (fun acc x => acc * 256 + x.toNat) 0 a = s
  induction b generalizing s with
  | nil => simp
  | cons x r ih =>
    simp only [List.foldl_cons, List.length_cons]
    rw [ih, ih (0 * 256 + x.toNat), Nat.pow_succ, Nat.add_mul, Nat.zero_mul, Nat.zero_add,
      Nat.mul_assoc, Nat.mul_comm 256 (256 ^ r.length)]
    omega

theorem toNatBE_ofNatBE (w n : Nat) : toNatBE (ofNatBE w n) = n % Nat.pow 256 w := by
  rw [Nat.pow_eq]
  induction w generalizing n with
  | zero => simp [ofNatBE, toNatBE, Nat.mod_one]
  | succ w ih =>
    rw [ofNatBE, toNatBE_append, ih]
    have h : (n % 256) % 2 ^ 8 = n % 256 := Nat.mod_eq_of_lt (Nat.mod_lt _ (by decide))
    simp only [List.length_singleton, Nat.pow_eq, Nat.pow_one, toNatBE, List.foldl_cons, List.foldl_nil,
      Nat.zero_mul, Nat.zero_add, UInt8.toNat_ofNat', h]
    rw [Nat.pow_succ, Nat.mul_comm (256 ^ w) 256, Nat.mod_mul]
    omega

end Bytes

end ChordSearch

/-! ## Lines

Text is split into lines at each line feed; a line drops one carriage return at its end,
and a carriage return elsewhere does not split. Text after the last line feed is a last
line when it is not empty. A line of `maxLine` bytes or more, counted before the line feed
and with its carriage return, cannot be read: reading stops there, after the lines before
it.
-/

namespace ChordSearch.Lines

/-- The longest line that can be read is one byte shorter than this. -/
def maxLine : Nat := 65536

/-- Drop one carriage return at the end. -/
def dropCR (l : Bytes) : Bytes :=
  if l.getLast? = some 13 then l.dropLast else l

/-- The raw segments between line feeds, given the finished ones and the current one, both
reversed. -/
def segmentsOnto (done : List Bytes) (cur : Bytes) : Bytes → List Bytes
  | [] => (cur.reverse :: done).reverse
  | c :: rest =>
    if c = 10 then segmentsOnto (cur.reverse :: done) [] rest
    else segmentsOnto done (c :: cur) rest

/-- The raw segments between line feeds, the last one possibly empty. -/
def segments (b : Bytes) : List Bytes := segmentsOnto [] [] b

/-- The lines of a text, and whether reading stopped at a line too long to read. -/
def split (b : Bytes) : List Bytes × Bool :=
  let segs := segments b
  -- the piece after the last line feed is a line only when it is not empty
  let segs := match segs.getLast? with
    | some [] => segs.dropLast
    | _ => segs
  let readable := segs.takeWhile (·.length < maxLine)
  (readable.map dropCR, readable.length < segs.length)

end ChordSearch.Lines
