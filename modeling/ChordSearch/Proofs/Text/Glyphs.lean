import Mathlib
import ChordSearch.Text.Fields

/-! # Reading glyphs back

Decoding reads each well-formed sequence as its character and every other byte as a stray
byte. Three facts about one step of reading (`next`) carry everything else:

* `next_bytes`: the glyph read is written back as exactly the bytes it consumed;
* `next_utf8EncodeChar`: a character's bytes read back as the character, whatever follows;
* `next_stray_of_append`: a byte read as stray stays stray when bytes after it are cut off.

From them: writing the glyphs of any bytes back gives the bytes (`encode_decode`), and a run of
glyphs that decoding produced reads back as itself (`decode_encode_of_infix`). A field of a text
is such a run of non-blank glyphs, so trimming keeps it (`Text.trim_of_mem_fields`) and its
lower-case form is not empty (`Text.lower_ne_nil`).
-/

namespace ChordSearch.Utf8

theorem toNat_ofNat_of_valid {n : Nat} (h : n.isValidChar) : (Char.ofNat n).val.toNat = n := by
  simp [Char.ofNat, h, Char.ofNatAux]

theorem isCont_iff (b : UInt8) : isCont b = true ↔ 0x80 ≤ b.toNat ∧ b.toNat ≤ 0xBF := by
  simp [isCont, UInt8.le_iff_toNat_le]

theorem secondOk_iff (b0 b1 : UInt8) : secondOk b0 b1 = true ↔
    (if b0.toNat = 0xE0 then 0xA0 else if b0.toNat = 0xF0 then 0x90 else 0x80) ≤ b1.toNat ∧
    b1.toNat ≤ (if b0.toNat = 0xED then 0x9F else if b0.toNat = 0xF4 then 0x8F else 0xBF) := by
  have e : ∀ n : UInt8, b0 = n ↔ b0.toNat = n.toNat := fun n => UInt8.toNat_inj.symm
  simp only [secondOk, secondRange, e, UInt8.reduceToNat, Bool.and_eq_true, decide_eq_true_eq,
    UInt8.le_iff_toNat_le]
  split_ifs <;> simp_all

/-! ### Writing a read character back -/

theorem utf8EncodeChar_one {b0 : UInt8} (h0 : b0.toNat < 0x80) :
    String.utf8EncodeChar (Char.ofNat b0.toNat) = [b0] := by
  have hv := toNat_ofNat_of_valid (n := b0.toNat) (by omega)
  simp only [String.utf8EncodeChar, hv, show b0.toNat ≤ 127 by omega, if_true, List.cons.injEq,
    ← UInt8.toNat_inj, UInt8.toNat_ofNat', and_true]
  omega

theorem utf8EncodeChar_two {b0 b1 : UInt8} (h0 : 0xC2 ≤ b0.toNat ∧ b0.toNat ≤ 0xDF)
    (h1 : isCont b1 = true) :
    String.utf8EncodeChar (Char.ofNat (b0.toNat % 32 * 64 + low b1)) = [b0, b1] := by
  rw [isCont_iff] at h1
  unfold low
  generalize hV : b0.toNat % 32 * 64 + b1.toNat % 64 = V
  have hv := toNat_ofNat_of_valid (n := V) (by omega)
  simp only [String.utf8EncodeChar, hv, show ¬ V ≤ 127 by omega, show V ≤ 2047 by omega,
    if_false, if_true, List.cons.injEq, ← UInt8.toNat_inj, UInt8.toNat_ofNat', and_true]
  omega

theorem utf8EncodeChar_three {b0 b1 b2 : UInt8} (h0 : 0xE0 ≤ b0.toNat ∧ b0.toNat ≤ 0xEF)
    (h1 : secondOk b0 b1 = true) (h2 : isCont b2 = true) :
    String.utf8EncodeChar (Char.ofNat (b0.toNat % 16 * 4096 + low b1 * 64 + low b2)) =
      [b0, b1, b2] := by
  rw [isCont_iff] at h2
  rw [secondOk_iff] at h1
  unfold low
  have hrange : 0x800 ≤ b0.toNat % 16 * 4096 + b1.toNat % 64 * 64 + b2.toNat % 64 ∧
      (b0.toNat % 16 * 4096 + b1.toNat % 64 * 64 + b2.toNat % 64 < 0xD800 ∨
        0xE000 ≤ b0.toNat % 16 * 4096 + b1.toNat % 64 * 64 + b2.toNat % 64) := by
    split_ifs at h1 <;> omega
  generalize hV : b0.toNat % 16 * 4096 + b1.toNat % 64 * 64 + b2.toNat % 64 = V at hrange
  have hv := toNat_ofNat_of_valid (n := V) (by omega)
  simp only [String.utf8EncodeChar, hv, show ¬ V ≤ 127 by omega, show ¬ V ≤ 2047 by omega,
    show V ≤ 65535 by omega, if_false, if_true, List.cons.injEq, ← UInt8.toNat_inj,
    UInt8.toNat_ofNat', and_true]
  split_ifs at h1 <;> omega

theorem utf8EncodeChar_four {b0 b1 b2 b3 : UInt8} (h0 : 0xF0 ≤ b0.toNat ∧ b0.toNat ≤ 0xF4)
    (h1 : secondOk b0 b1 = true) (h2 : isCont b2 = true) (h3 : isCont b3 = true) :
    String.utf8EncodeChar
        (Char.ofNat (b0.toNat % 8 * 262144 + low b1 * 4096 + low b2 * 64 + low b3)) =
      [b0, b1, b2, b3] := by
  rw [isCont_iff] at h2 h3
  rw [secondOk_iff] at h1
  unfold low
  have hrange : 0x10000 ≤ b0.toNat % 8 * 262144 + b1.toNat % 64 * 4096 + b2.toNat % 64 * 64 +
      b3.toNat % 64 ∧ b0.toNat % 8 * 262144 + b1.toNat % 64 * 4096 + b2.toNat % 64 * 64 +
      b3.toNat % 64 < 0x110000 := by
    split_ifs at h1 <;> omega
  generalize hV : b0.toNat % 8 * 262144 + b1.toNat % 64 * 4096 + b2.toNat % 64 * 64 +
    b3.toNat % 64 = V at hrange
  have hv := toNat_ofNat_of_valid (n := V) (by omega)
  simp only [String.utf8EncodeChar, hv, show ¬ V ≤ 127 by omega, show ¬ V ≤ 2047 by omega,
    show ¬ V ≤ 65535 by omega, if_false, List.cons.injEq, ← UInt8.toNat_inj,
    UInt8.toNat_ofNat', and_true]
  split_ifs at h1 <;> omega

/-! ### One step of reading -/

theorem next_bytes (b0 : UInt8) (r0 : Bytes) :
    (next b0 r0).1.bytes ++ (next b0 r0).2 = b0 :: r0 := by
  have hand : ∀ lo hi : UInt8, (lo ≤ b0 && b0 ≤ hi) = true ↔ lo.toNat ≤ b0.toNat ∧ b0.toNat ≤ hi.toNat :=
    fun lo hi => by simp [UInt8.le_iff_toNat_le]
  unfold next
  split
  · rename_i h
    rw [Glyph.bytes, utf8EncodeChar_one (UInt8.lt_iff_toNat_lt.1 h)]
    rfl
  split
  · rename_i h
    split
    · split
      · rename_i b1 r1 hc
        rw [Glyph.bytes, utf8EncodeChar_two ((hand _ _).1 h) hc]
        rfl
      · rfl
    · rfl
  split
  · rename_i h
    split
    · split
      · rename_i b1 b2 r2 hc
        rw [Bool.and_eq_true] at hc
        rw [Glyph.bytes, utf8EncodeChar_three ((hand _ _).1 h) hc.1 hc.2]
        rfl
      · rfl
    · rfl
  split
  · rename_i h
    split
    · split
      · rename_i b1 b2 b3 r3 hc
        simp only [Bool.and_eq_true] at hc
        rw [Glyph.bytes, utf8EncodeChar_four ((hand _ _).1 h) hc.1.1 hc.1.2 hc.2]
        rfl
      · rfl
    · rfl
  · rfl

theorem exists_byte (v : Nat) (hv : v < 256) : ∃ b : UInt8, UInt8.ofNat v = b ∧ b.toNat = v :=
  ⟨_, rfl, by simp; omega⟩

theorem next_utf8EncodeChar (c : Char) (u : Bytes) :
    ∃ b0 r, String.utf8EncodeChar c = b0 :: r ∧ next b0 (r ++ u) = (.scalar c, u) := by
  have hc := c.valid
  have hv : c.val.toNat = c.toNat := rfl
  simp only [UInt32.isValidChar, Nat.isValidChar, hv] at hc
  have hofNat : Char.ofNat c.toNat = c := Char.ofNat_toNat c
  by_cases h1 : c.toNat ≤ 0x7f
  · obtain ⟨b0, hb0, hn0⟩ := exists_byte c.toNat (by omega)
    refine ⟨b0, [], by simp only [String.utf8EncodeChar, hv, h1, hb0, if_true], ?_⟩
    simp only [next, UInt8.lt_iff_toNat_lt, hn0, UInt8.reduceToNat, List.nil_append,
      show c.toNat < 128 by omega, if_true, hofNat]
  by_cases h2 : c.toNat ≤ 0x7ff
  · obtain ⟨b0, hb0, hn0⟩ := exists_byte (c.toNat / 64 % 32 + 0xc0) (by omega)
    obtain ⟨b1, hb1, hn1⟩ := exists_byte (c.toNat % 64 + 0x80) (by omega)
    refine ⟨b0, [b1], by simp only [String.utf8EncodeChar, hv, h1, h2, hb0, hb1, if_false,
      if_true], ?_⟩
    have hlead : ¬ c.toNat / 64 % 32 + 192 < 128 ∧ 194 ≤ c.toNat / 64 % 32 + 192 ∧
        c.toNat / 64 % 32 + 192 ≤ 223 := by omega
    have hcont : 128 ≤ c.toNat % 64 + 128 ∧ c.toNat % 64 + 128 ≤ 191 := by omega
    have hval : (c.toNat / 64 % 32 + 192) % 32 * 64 + (c.toNat % 64 + 128) % 64 = c.toNat := by
      omega
    simp only [next, isCont, low, UInt8.lt_iff_toNat_lt, UInt8.le_iff_toNat_le, hn0, hn1,
      List.cons_append, List.nil_append, Bool.and_eq_true, decide_eq_true_eq, UInt8.reduceToNat,
      hlead, hcont, if_true, if_false, and_self, hval, hofNat]
  by_cases h3 : c.toNat ≤ 0xffff
  · obtain ⟨b0, hb0, hn0⟩ := exists_byte (c.toNat / 4096 % 16 + 0xe0) (by omega)
    obtain ⟨b1, hb1, hn1⟩ := exists_byte (c.toNat / 64 % 64 + 0x80) (by omega)
    obtain ⟨b2, hb2, hn2⟩ := exists_byte (c.toNat % 64 + 0x80) (by omega)
    refine ⟨b0, [b1, b2], by simp only [String.utf8EncodeChar, hv, h1, h2, h3, hb0, hb1, hb2,
      if_false, if_true], ?_⟩
    have hsecond : secondOk b0 b1 = true := by
      rw [secondOk_iff, hn0, hn1]
      split_ifs <;> omega
    have hlead : ¬ c.toNat / 4096 % 16 + 0xe0 < 128 ∧
        ¬ (194 ≤ c.toNat / 4096 % 16 + 0xe0 ∧ c.toNat / 4096 % 16 + 0xe0 ≤ 223) ∧
        224 ≤ c.toNat / 4096 % 16 + 0xe0 ∧ c.toNat / 4096 % 16 + 0xe0 ≤ 239 := by omega
    have hcont : 128 ≤ c.toNat % 64 + 128 ∧ c.toNat % 64 + 128 ≤ 191 := by omega
    have hval : (c.toNat / 4096 % 16 + 0xe0) % 16 * 4096 + (c.toNat / 64 % 64 + 0x80) % 64 * 64 +
        (c.toNat % 64 + 0x80) % 64 = c.toNat := by omega
    simp only [next, isCont, low, UInt8.lt_iff_toNat_lt, UInt8.le_iff_toNat_le, hn0, hn1, hn2,
      List.cons_append, List.nil_append, Bool.and_eq_true, decide_eq_true_eq, UInt8.reduceToNat,
      hlead, hcont, hsecond, if_true, if_false, and_self, hval, hofNat]
  · obtain ⟨b0, hb0, hn0⟩ := exists_byte (c.toNat / 262144 % 8 + 0xf0) (by omega)
    obtain ⟨b1, hb1, hn1⟩ := exists_byte (c.toNat / 4096 % 64 + 0x80) (by omega)
    obtain ⟨b2, hb2, hn2⟩ := exists_byte (c.toNat / 64 % 64 + 0x80) (by omega)
    obtain ⟨b3, hb3, hn3⟩ := exists_byte (c.toNat % 64 + 0x80) (by omega)
    refine ⟨b0, [b1, b2, b3], by simp only [String.utf8EncodeChar, hv, h1, h2, h3, hb0, hb1, hb2,
      hb3, if_false], ?_⟩
    have hsecond : secondOk b0 b1 = true := by
      rw [secondOk_iff, hn0, hn1]
      split_ifs <;> omega
    have hlead : ¬ c.toNat / 262144 % 8 + 0xf0 < 128 ∧
        ¬ (194 ≤ c.toNat / 262144 % 8 + 0xf0 ∧ c.toNat / 262144 % 8 + 0xf0 ≤ 223) ∧
        ¬ (224 ≤ c.toNat / 262144 % 8 + 0xf0 ∧ c.toNat / 262144 % 8 + 0xf0 ≤ 239) ∧
        240 ≤ c.toNat / 262144 % 8 + 0xf0 ∧ c.toNat / 262144 % 8 + 0xf0 ≤ 244 := by omega
    have hcont : 128 ≤ c.toNat % 64 + 128 ∧ c.toNat % 64 + 128 ≤ 191 := by omega
    have hcont' : 128 ≤ c.toNat / 64 % 64 + 128 ∧ c.toNat / 64 % 64 + 128 ≤ 191 := by omega
    have hval : (c.toNat / 262144 % 8 + 0xf0) % 8 * 262144 + (c.toNat / 4096 % 64 + 0x80) % 64 * 4096 +
        (c.toNat / 64 % 64 + 0x80) % 64 * 64 + (c.toNat % 64 + 0x80) % 64 = c.toNat := by omega
    simp only [next, isCont, low, UInt8.lt_iff_toNat_lt, UInt8.le_iff_toNat_le, hn0, hn1, hn2, hn3,
      List.cons_append, List.nil_append, Bool.and_eq_true, decide_eq_true_eq, UInt8.reduceToNat,
      hlead, hcont, hcont', hsecond, if_true, if_false, and_self, hval, hofNat]

theorem next_stray {b0 x : UInt8} {r0 : Bytes} (h : (next b0 r0).1 = .stray x) :
    x = b0 ∧ (next b0 r0).2 = r0 := by
  have hb := next_bytes b0 r0
  rw [h, Glyph.bytes, List.singleton_append, List.cons.injEq] at hb
  exact hb

theorem next_stray_of_append {b0 : UInt8} {u w : Bytes} (h : (next b0 (u ++ w)).1 = .stray b0) :
    (next b0 u).1 = .stray b0 := by
  have hb := next_bytes b0 u
  cases hg : (next b0 u).1 with
  | stray x => rw [(next_stray hg).1]
  | scalar c =>
    rw [hg, Glyph.bytes] at hb
    obtain ⟨b0', r, henc, hnext⟩ := next_utf8EncodeChar c ((next b0 u).2 ++ w)
    rw [henc, List.cons_append, List.cons.injEq] at hb
    obtain ⟨rfl, hr⟩ := hb
    rw [← hr, List.append_assoc, hnext] at h
    cases h

/-! ### Decoding -/

theorem decodeOnto_eq (acc : List Glyph) : (b : Bytes) →
    decodeOnto acc b = acc.reverse ++ decode b
  | [] => by simp [decodeOnto, decode]
  | b0 :: r0 => by
    rw [decodeOnto, decode, decodeOnto, decodeOnto_eq _ (next b0 r0).2,
      decodeOnto_eq [_] (next b0 r0).2]
    simp
termination_by b => b.length
decreasing_by
  all_goals
    have h := next_length_lt b0 r0
    simp only [List.length_cons] at h ⊢
    omega

@[simp] theorem decode_nil : decode [] = [] := by simp [decode, decodeOnto]

theorem decode_cons (b0 : UInt8) (r0 : Bytes) :
    decode (b0 :: r0) = (next b0 r0).1 :: decode (next b0 r0).2 := by
  rw [decode, decodeOnto, decodeOnto_eq]
  rfl

theorem decode_eq_nil_iff {b : Bytes} : decode b = [] ↔ b = [] := by
  cases b with
  | nil => simp
  | cons b0 r0 => simp [decode_cons]

@[simp] theorem encode_nil : encode [] = [] := rfl

@[simp] theorem encode_cons (g : Glyph) (gs : List Glyph) :
    encode (g :: gs) = g.bytes ++ encode gs := rfl

@[simp] theorem encode_append (gs gs' : List Glyph) :
    encode (gs ++ gs') = encode gs ++ encode gs' := List.flatMap_append

theorem encode_decode : (b : Bytes) → encode (decode b) = b
  | [] => by simp
  | b0 :: r0 => by
    rw [decode_cons, encode_cons, encode_decode (next b0 r0).2, next_bytes]
termination_by b => b.length
decreasing_by
  have h := next_length_lt b0 r0
  simp only [List.length_cons] at h ⊢
  omega

theorem decode_utf8EncodeChar (c : Char) (u : Bytes) :
    decode (String.utf8EncodeChar c ++ u) = .scalar c :: decode u := by
  obtain ⟨b0, r, henc, hnext⟩ := next_utf8EncodeChar c u
  rw [henc, List.cons_append, decode_cons, hnext]

theorem decode_encode_append (w w' : Bytes) (gs : List Glyph)
    (h : decode (encode gs ++ w ++ w') = gs ++ decode (w ++ w')) :
    decode (encode gs ++ w) = gs ++ decode w := by
  induction gs with
  | nil => rfl
  | cons g gs ih =>
    cases g with
    | scalar c =>
      simp only [encode_cons, Glyph.bytes, List.append_assoc, decode_utf8EncodeChar,
        List.cons_append, List.cons.injEq, true_and] at h ⊢
      exact ih (by simpa only [List.append_assoc] using h)
    | stray x =>
      simp only [encode_cons, Glyph.bytes, List.cons_append, List.nil_append,
        List.append_assoc, decode_cons, List.cons.injEq] at h ⊢
      have hcut := next_stray_of_append (u := encode gs ++ w) (w := w')
        (by rw [List.append_assoc]; exact (next_stray h.1).1 ▸ h.1)
      obtain ⟨-, hrest⟩ := next_stray h.1
      rw [hrest] at h
      refine ⟨hcut, ?_⟩
      rw [(next_stray hcut).2]
      exact ih (by simpa only [List.append_assoc] using h.2)

theorem decode_encode_of_suffix {b : Bytes} (pre post : List Glyph)
    (h : decode b = pre ++ post) : decode (encode post) = post := by
  induction pre generalizing b with
  | nil => rw [List.nil_append] at h; rw [← h, encode_decode]
  | cons g pre ih =>
    cases b with
    | nil => simp at h
    | cons b0 r0 =>
      rw [decode_cons, List.cons_append, List.cons.injEq] at h
      exact ih h.2

theorem decode_encode_of_infix {b : Bytes} {pre gs post : List Glyph}
    (h : decode b = pre ++ gs ++ post) : decode (encode gs) = gs := by
  have hall := decode_encode_of_suffix pre (gs ++ post) (by rw [h, List.append_assoc])
  have hpost := decode_encode_of_suffix (pre ++ gs) post h
  have := decode_encode_append [] (encode post) gs
    (by rw [List.append_nil, ← encode_append, hall, List.nil_append, hpost])
  simpa using this

end ChordSearch.Utf8

namespace ChordSearch.Text

theorem mem_runs {gs : List Glyph} {acc : List (List Glyph)} {cur r : List Glyph}
    (hr : r ∈ runs gs acc cur) (hcur : ∀ g ∈ cur, Glyph.isBlank g = false) :
    r ∈ acc ∨ (r ≠ [] ∧ (∀ g ∈ r, Glyph.isBlank g = false) ∧ r <:+: cur.reverse ++ gs) := by
  induction gs generalizing acc cur with
  | nil =>
    simp only [runs] at hr
    split at hr
    · exact .inl hr
    · rename_i hne
      rcases List.mem_cons.1 hr with rfl | hr
      · exact .inr ⟨by simpa using hne, fun g hg => hcur g (List.mem_reverse.1 hg), by simp⟩
      · exact .inl hr
  | cons g gs ih =>
    simp only [runs] at hr
    split at hr
    · -- a blank glyph closes the current run
      rcases ih hr (by simp) with hr | ⟨hne, hnb, hinf⟩
      · split at hr
        · exact .inl hr
        · rename_i hne
          rcases List.mem_cons.1 hr with rfl | hr
          · exact .inr ⟨by simpa using hne, fun g hg => hcur g (List.mem_reverse.1 hg),
              (List.prefix_append _ _).isInfix⟩
          · exact .inl hr
      · exact .inr ⟨hne, hnb,
          hinf.trans (by simpa using (List.suffix_append (cur.reverse ++ [g]) gs).isInfix)⟩
    · -- a non-blank glyph extends it
      rename_i hg
      rcases ih hr (by simpa [hg] using hcur) with hr | ⟨hne, hnb, hinf⟩
      · exact .inl hr
      · exact .inr ⟨hne, hnb, by simpa using hinf⟩

theorem exists_run_of_mem_fields {f b : Bytes} (hf : f ∈ fields b) :
    ∃ r, f = Utf8.encode r ∧ r ≠ [] ∧ (∀ g ∈ r, Glyph.isBlank g = false) ∧ r <:+: Utf8.decode b := by
  simp only [fields, List.mem_map, List.mem_reverse] at hf
  obtain ⟨r, hr, rfl⟩ := hf
  rcases mem_runs hr (by simp) with hr | ⟨hne, hnb, hinf⟩
  · simp at hr
  · exact ⟨r, rfl, hne, hnb, by simpa using hinf⟩

theorem decode_of_mem_fields {f b : Bytes} (hf : f ∈ fields b) :
    Utf8.decode f ≠ [] ∧ ∀ g ∈ Utf8.decode f, Glyph.isBlank g = false := by
  obtain ⟨r, rfl, hne, hnb, pre, post, h⟩ := exists_run_of_mem_fields hf
  rw [Utf8.decode_encode_of_infix h.symm]
  exact ⟨hne, hnb⟩

theorem trim_of_mem_fields {f b : Bytes} (hf : f ∈ fields b) : trim f = f := by
  have hnb := (decode_of_mem_fields hf).2
  have hdrop : ∀ gs : List Glyph, (∀ g ∈ gs, Glyph.isBlank g = false) → gs.dropWhile Glyph.isBlank = gs :=
    fun gs h => by
      cases gs with
      | nil => rfl
      | cons g gs => simp [h g List.mem_cons_self]
  simp only [trim]
  rw [hdrop _ hnb, hdrop _ (by simpa using hnb), List.reverse_reverse, Utf8.encode_decode]

theorem lower_ne_nil {b : Bytes} (h : b ≠ []) : lower b ≠ [] := by
  obtain ⟨g, gs, hd⟩ := List.exists_cons_of_ne_nil (mt Utf8.decode_eq_nil_iff.1 h)
  obtain ⟨b0, r, he⟩ := List.exists_cons_of_length_pos
    (by simpa using Char.utf8Size_pos (Lower.toLower g.toChar) : 0 < (String.utf8EncodeChar (Lower.toLower g.toChar)).length)
  simp [lower, Utf8.ofChars, Utf8.chars, hd, he]

end ChordSearch.Text
