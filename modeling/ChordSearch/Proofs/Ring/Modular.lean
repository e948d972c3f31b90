import ChordSearch.Proofs.Ring.Clockwise
import ChordSearch.Proofs.Wire.Normal

/-! # Ring positions as numbers modulo `2 ^ 160`

A position is written as twenty big-endian bytes and compared byte by byte; the arcs of
`Arc` compare the numbers those bytes spell, with a branch for each way an arc can lie on
the number line. Both readings are the modular one, with `dist a b = (b - a) mod 2 ^ 160`
(`RingId.dist_eq_emod`):

* `Bytes.lexLt_iff_toNatBE_lt`: byte strings of one length compare byte-wise as the numbers
  they spell, so positions compare as their bytes do (`RingId.lexLt_toBytes`);
* `Arc.covers_iff`: the finger test holds iff its ends differ and the key lies at a positive
  distance from the start, no further than the end when the arc does not wrap and short of
  it when it does;
* `RingId.toNat_addPow2_eq`: a finger start is the position plus `2 ^ e` modulo the ring,
  for `0 ≤ e < 160`, and the position itself otherwise;
* `Arc.modular_reading`: these with `Arc.owns_iff` and `Arc.inside_iff`, the whole
  clockwise reading of the ring's tests.
-/

namespace ChordSearch

/-! ### Big-endian order -/

namespace Bytes

theorem toNatBE_cons (x : UInt8) (b : Bytes) :
    toNatBE (x :: b) = x.toNat * 256 ^ b.length + toNatBE b := by
  have h := toNatBE_append [x] b
  rw [List.singleton_append, Nat.pow_eq] at h
  rw [h]
  simp [toNatBE]

theorem mul_add_lt_mul_add_iff {x y a b p : Nat} (ha : a < p) (hb : b < p) :
    x * p + a < y * p + b ↔ x < y ∨ (x = y ∧ a < b) := by
  constructor
  · intro h
    rcases Nat.lt_trichotomy x y with hxy | rfl | hxy
    · exact .inl hxy
    · exact .inr ⟨rfl, by omega⟩
    · have : (y + 1) * p ≤ x * p := Nat.mul_le_mul_right p hxy
      rw [Nat.succ_mul] at this
      omega
  · rintro (hxy | ⟨rfl, h⟩)
    · have : (x + 1) * p ≤ y * p := Nat.mul_le_mul_right p hxy
      rw [Nat.succ_mul] at this
      omega
    · omega

theorem lexLt_iff_toNatBE_lt {a b : Bytes} (h : a.length = b.length) :
    lexLt a b = true ↔ toNatBE a < toNatBE b := by
  induction a generalizing b with
  | nil =>
    cases b with
    | nil => simp [lexLt]
    | cons y b => simp at h
  | cons x a ih =>
    cases b with
    | nil => simp at h
    | cons y b =>
      have hab : a.length = b.length := by simpa using h
      have ha := toNatBE_lt a
      have hb := toNatBE_lt b
      rw [← hab] at hb
      rw [toNatBE_cons, toNatBE_cons, ← hab, mul_add_lt_mul_add_iff ha hb, ← ih hab]
      simp only [lexLt, Bool.or_eq_true, Bool.and_eq_true, beq_iff_eq, decide_eq_true_eq,
        UInt8.lt_iff_toNat_lt, UInt8.toNat_inj]

end Bytes

namespace RingId

theorem toNatBE_toBytes (x : RingId) : Bytes.toNatBE x.toBytes = x.toNat := by
  have h : Nat.pow 256 20 = ringSize := by decide
  rw [toBytes, Bytes.toNatBE_ofNatBE, h, Nat.mod_eq_of_lt x.isLt]

theorem lexLt_toBytes (x y : RingId) :
    Bytes.lexLt x.toBytes y.toBytes = true ↔ x.toNat < y.toNat := by
  have h : x.toBytes.length = y.toBytes.length := by simp [toBytes]
  rw [Bytes.lexLt_iff_toNatBE_lt h, toNatBE_toBytes, toNatBE_toBytes]

theorem dist_eq_emod (a b : RingId) :
    (dist a b : Int) = ((b.toNat : Int) - a.toNat) % (ringSize : Int) := by
  have ha := a.isLt
  have hsum : ((b.toNat + ringSize - a.toNat : Nat) : Int) = (b.toNat : Int) - a.toNat + ringSize := by
    omega
  rw [dist, Int.natCast_emod, hsum, Int.add_emod_right]

theorem toNat_addPow2_eq (x : RingId) (e : Int) :
    (x.addPow2 e).toNat =
      if 0 ≤ e ∧ e < 160 then (x.toNat + 2 ^ e.toNat) % ringSize else x.toNat := by
  unfold addPow2
  split_ifs
  · rw [toNat_ofNat, Nat.pow_eq]
  · rfl

end RingId

open RingId

namespace Arc

theorem covers_iff (s k e : RingId) :
    covers s k e = true ↔ s ≠ e ∧ 0 < dist s k ∧
      (s.toNat < e.toNat → dist s k ≤ dist s e) ∧ (e.toNat < s.toNat → dist s k < dist s e) := by
  have hs := s.isLt
  have hk := k.isLt
  have he := e.isLt
  rw [Ne, eq_iff_toNat_eq]
  simp only [covers, RingId.dist_eq]
  split_ifs <;> simp <;> omega

theorem inside_iff_lt (s k e : RingId) :
    inside s k e = true ↔ 0 < dist s k ∧ dist s k < if s = e then ringSize else dist s e := by
  rw [inside_iff]
  by_cases h : s = e
  · simp [h, dist_lt]
  · simp [h]

/-- The ring's tests are modular arithmetic on the positions the bytes spell: ownership is
the half-open arc `(s, e]` (the whole ring when `s = e`), the stabilize test the open arc
`(s, e)` (the whole ring but `s` when `s = e`), the finger test the arc `(s, e]` cut short
by its end when it wraps, and a finger start adds a power of two modulo `2 ^ 160`. -/
theorem modular_reading :
    (∀ x : RingId, Bytes.toNatBE x.toBytes = x.toNat) ∧
    (∀ x y : RingId, Bytes.lexLt x.toBytes y.toBytes = true ↔ x.toNat < y.toNat) ∧
    (∀ a b : RingId, (dist a b : Int) = ((b.toNat : Int) - a.toNat) % (ringSize : Int)) ∧
    (∀ s k e : RingId, owns s k e = true ↔ s = e ∨ (0 < dist s k ∧ dist s k ≤ dist s e)) ∧
    (∀ s k e : RingId, inside s k e = true ↔
      0 < dist s k ∧ dist s k < if s = e then ringSize else dist s e) ∧
    (∀ s k e : RingId, covers s k e = true ↔ s ≠ e ∧ 0 < dist s k ∧
      (s.toNat < e.toNat → dist s k ≤ dist s e) ∧ (e.toNat < s.toNat → dist s k < dist s e)) ∧
    (∀ (x : RingId) (e : Int), (x.addPow2 e).toNat =
      if 0 ≤ e ∧ e < 160 then (x.toNat + 2 ^ e.toNat) % ringSize else x.toNat) :=
  ⟨toNatBE_toBytes, lexLt_toBytes, dist_eq_emod, owns_iff, inside_iff_lt, covers_iff,
    toNat_addPow2_eq⟩

end Arc

end ChordSearch
