import Mathlib
import ChordSearch.Wire.Codec

/-! # The wire grammar

The datagrams a node reads, described by their bytes alone. A payload is a sequence of
fields, each of one of five kinds (`Codec.Field.Spells`):

* a string: a two-byte big-endian length, then that many bytes (`Codec.IsStr`);
* a set: a four-byte count, then that many strings (`Codec.Strs`);
* a node reference, eight bytes; a ring position, twenty; a number, four.

Each tag announces the fields of its payload (`Codec.tagLayout`), and a datagram is a tag
that announces some, four bytes of transaction id, and exactly those fields with nothing
after them (`Codec.IsDatagram`).

The readers are described by `Codec.Scans r S`: `r` succeeds on exactly the inputs that
start with bytes satisfying `S`, and consumes just those. Scanning composes along the
readers (`Scans.bind`, `Scans.cons`), so each body reader scans its tag's layout
(`Codec.scans_body`), and reading a datagram follows the grammar:

* `Message.decode_ok_iff`: decoding succeeds exactly on the datagrams of the grammar;
* every refusal is classified by what went wrong first: fewer than five bytes, a reserved
  tag, an unknown tag, a payload followed by more bytes, or bytes no prefix of which is a
  payload (`Message.decode_classifies`).

Since a reader runs deterministically, at most one prefix of any input is a payload of a
given layout: the grammar needs no separator between datagram fields.
-/

namespace ChordSearch

namespace Codec

/-- The kinds of field a payload is made of. -/
inductive Field where
  | str | set | node | ringId | word
  deriving DecidableEq, Repr

/-- One string field: a two-byte big-endian length, then that many bytes. -/
def IsStr (p : Bytes) : Prop :=
  ∃ len s, p = len ++ s ∧ len.length = 2 ∧ Bytes.toNatBE len = s.length

/-- `n` string fields in a row. -/
inductive Strs : Nat → Bytes → Prop
  | nil : Strs 0 []
  | cons {n : Nat} {p q : Bytes} : IsStr p → Strs n q → Strs (n + 1) (p ++ q)

/-- One field of a kind: a string; a set, a four-byte count followed by that many strings;
a node reference (eight bytes); a ring position (twenty bytes); a number (four bytes). -/
def Field.Spells : Field → Bytes → Prop
  | .str, p => IsStr p
  | .set, p => ∃ count items, p = count ++ items ∧ count.length = 4 ∧
      Strs (Bytes.toNatBE count) items
  | .node, p => p.length = 8
  | .ringId, p => p.length = 20
  | .word, p => p.length = 4

/-- The given fields, in order, and nothing else. -/
inductive Layout : List Field → Bytes → Prop
  | nil : Layout [] []
  | cons {f : Field} {fs : List Field} {p q : Bytes} :
      f.Spells p → Layout fs q → Layout (f :: fs) (p ++ q)

end Codec

open Codec in
/-- The fields of the payload of each message type. Pings carry a string; joins,
departures, stabilization and ring-state walks carry node references; find-successor
messages a node, a ring position and an index; stores a term and its documents; fetches an
originator, a key and two sets; fetch answers one set. The reserved types carry nothing. -/
def Kind.layout? : Kind → Option (List Field)
  | .pingReq | .pingRsp => some [.str]
  | .joinReq | .departureReq => some [.node, .node]
  | .joinRsp => some [.node, .node, .node]
  | .stabilizeRsp | .stabilizeReq | .ringStatePing => some [.node]
  | .findSuccessorReq | .findSuccessorRsp => some [.node, .ringId, .word]
  | .lookupReq | .lookupRsp => none
  | .storeReq => some [.str, .set]
  | .fetchReq => some [.word, .str, .set, .set]
  | .fetchRsp => some [.set]

namespace Codec

/-- The fields of the payload a tag announces: those of the message type it names, if any. -/
def tagLayout (t : UInt8) : Option (List Field) := (Kind.ofTag? t).bind Kind.layout?

/-- The tags that announce a payload are 1 to 10 and 20 to 22. -/
example : (List.range 256).filter (fun n => (tagLayout (UInt8.ofNat n)).isSome) =
    [1, 2, 3, 4, 5, 6, 7, 8, 9, 10, 20, 21, 22] := by decide

/-- A datagram of the wire grammar: a tag that announces a layout, four bytes of
transaction id, and one payload of that layout with nothing after it. -/
def IsDatagram (b : Bytes) : Prop :=
  ∃ t tx p fs, b = t :: (tx ++ p) ∧ tx.length = 4 ∧ tagLayout t = some fs ∧ Layout fs p

theorem layout_nil_iff {p : Bytes} : Layout [] p ↔ p = [] :=
  ⟨fun h => by cases h; rfl, fun h => h ▸ .nil⟩

theorem layout_cons_iff {f : Field} {fs : List Field} {p : Bytes} :
    Layout (f :: fs) p ↔ ∃ p₁ p₂, p = p₁ ++ p₂ ∧ f.Spells p₁ ∧ Layout fs p₂ := by
  constructor
  · rintro (_ | ⟨h₁, h₂⟩)
    exact ⟨_, _, rfl, h₁, h₂⟩
  · rintro ⟨p₁, p₂, rfl, h₁, h₂⟩
    exact .cons h₁ h₂

theorem layout_singleton_iff {f : Field} {p : Bytes} : Layout [f] p ↔ f.Spells p := by
  rw [layout_cons_iff]
  constructor
  · rintro ⟨p₁, p₂, rfl, h₁, h₂⟩
    rw [layout_nil_iff.1 h₂, List.append_nil]
    exact h₁
  · intro h
    exact ⟨p, [], (List.append_nil p).symm, h, .nil⟩

theorem strs_succ_iff {n : Nat} {p : Bytes} :
    Strs (n + 1) p ↔ ∃ p₁ p₂, p = p₁ ++ p₂ ∧ IsStr p₁ ∧ Strs n p₂ := by
  constructor
  · rintro (_ | ⟨h₁, h₂⟩)
    exact ⟨_, _, rfl, h₁, h₂⟩
  · rintro ⟨p₁, p₂, rfl, h₁, h₂⟩
    exact .cons h₁ h₂

theorem IsStr.two_le_length {p : Bytes} (h : IsStr p) : 2 ≤ p.length := by
  obtain ⟨len, s, rfl, hlen, -⟩ := h
  simp [hlen]

theorem Strs.two_mul_le_length {n : Nat} {p : Bytes} (h : Strs n p) : 2 * n ≤ p.length := by
  induction h with
  | nil => simp
  | cons hs _ ih =>
    have := hs.two_le_length
    simp only [List.length_append]
    omega

/-! ### Readers that scan -/

/-- `r` succeeds on exactly the inputs that start with bytes satisfying `S`, and consumes
those bytes. -/
def Scans {α : Type} (r : Reader α) (S : Bytes → Prop) : Prop :=
  ∀ w rest, (∃ v, r.run w = some (v, rest)) ↔ ∃ p, w = p ++ rest ∧ S p

section Scans

variable {α β : Type} {r : Reader α} {S T : Bytes → Prop}

theorem Scans.congr (h : Scans r S) (hST : ∀ p, S p ↔ T p) : Scans r T := by
  intro w rest
  rw [h w rest]
  simp only [hST]

theorem Scans.bind {f : α → Reader β} (hr : Scans r S) (hf : ∀ a, Scans (f a) T) :
    Scans (r >>= f) fun p => ∃ p₁ p₂, p = p₁ ++ p₂ ∧ S p₁ ∧ T p₂ := by
  intro w rest
  constructor
  · rintro ⟨v, hv⟩
    rw [StateT.run_bind] at hv
    obtain ⟨⟨a, mid⟩, ha, hb⟩ := Option.bind_eq_some_iff.1 hv
    obtain ⟨p₁, rfl, hp₁⟩ := (hr w mid).1 ⟨a, ha⟩
    obtain ⟨p₂, rfl, hp₂⟩ := (hf a mid rest).1 ⟨v, hb⟩
    exact ⟨p₁ ++ p₂, (List.append_assoc ..).symm, p₁, p₂, rfl, hp₁, hp₂⟩
  · rintro ⟨_, rfl, p₁, p₂, rfl, hp₁, hp₂⟩
    obtain ⟨a, ha⟩ := (hr (p₁ ++ p₂ ++ rest) (p₂ ++ rest)).2 ⟨p₁, List.append_assoc .., hp₁⟩
    obtain ⟨v, hv⟩ := (hf a (p₂ ++ rest) rest).2 ⟨p₂, rfl, hp₂⟩
    refine ⟨v, ?_⟩
    rw [StateT.run_bind, ha]
    exact hv

theorem Scans.pure (a : α) : Scans (Pure.pure a : Reader α) (· = []) := by
  intro w rest
  constructor
  · rintro ⟨v, hv⟩
    cases hv
    exact ⟨[], rfl, rfl⟩
  · rintro ⟨p, rfl, rfl⟩
    exact ⟨a, rfl⟩

theorem Scans.map (f : α → β) (h : Scans r S) : Scans (f <$> r) S := by
  intro w rest
  rw [← h w rest, StateT.run_map]
  constructor
  · rintro ⟨v, hv⟩
    obtain ⟨⟨a, s⟩, ha, he⟩ := Option.map_eq_some_iff.1 hv
    cases he
    exact ⟨a, ha⟩
  · rintro ⟨a, ha⟩
    exact ⟨f a, by rw [ha]; rfl⟩

theorem Scans.bind_pure (f : α → β) (h : Scans r S) :
    Scans (r >>= fun a => Pure.pure (f a)) S := by
  rw [bind_pure_comp]
  exact h.map f

theorem Scans.cons {f : Field} {fs : List Field} {g : α → Reader β} (hr : Scans r f.Spells)
    (hg : ∀ a, Scans (g a) (Layout fs)) : Scans (r >>= g) (Layout (f :: fs)) :=
  (hr.bind hg).congr fun _ => layout_cons_iff.symm

theorem Scans.done (a : α) : Scans (Pure.pure a : Reader α) (Layout []) :=
  (Scans.pure a).congr fun _ => layout_nil_iff.symm

theorem Scans.single {f : Field} (g : α → β) (h : Scans r f.Spells) :
    Scans (g <$> r) (Layout [f]) :=
  (h.map g).congr fun _ => layout_singleton_iff.symm

end Scans

/-! ### The field readers -/

theorem take_run (n : Nat) (w : Bytes) :
    (take n).run w = if n ≤ w.length then some (w.take n, w.drop n) else none := by
  by_cases h : n ≤ w.length <;> simp [take, h, StateT.run_bind, StateT.run_get, StateT.run_set]

theorem number_run (n : Nat) (w : Bytes) :
    (number n).run w =
      if n ≤ w.length then some (Bytes.toNatBE (w.take n), w.drop n) else none := by
  by_cases h : n ≤ w.length <;> simp [number, take_run, h]

theorem scans_take (n : Nat) : Scans (take n) (·.length = n) := by
  intro w rest
  rw [take_run]
  constructor
  · rintro ⟨v, hv⟩
    split at hv
    · next hn =>
      cases hv
      exact ⟨w.take n, (List.take_append_drop n w).symm, List.length_take_of_le hn⟩
    · cases hv
  · rintro ⟨p, rfl, rfl⟩
    exact ⟨p, by simp⟩

theorem scans_word : Scans word Field.word.Spells :=
  ((scans_take 4).bind_pure Bytes.toNatBE).bind_pure UInt32.ofNat

theorem scans_ringId : Scans ringId Field.ringId.Spells :=
  (scans_take 20).bind_pure RingId.ofBytes

theorem scans_node : Scans node Field.node.Spells := by
  have hlast : ∀ (num : UInt32) (ip : Bytes), Scans (if num = 0 ∧ ip = [0, 0, 0, 0] then
      Pure.pure NodeRef.unset else Pure.pure (NodeRef.make num (.v4 ip)) : Reader NodeRef)
      (· = []) := by
    intro num ip
    split <;> exact Scans.pure _
  refine (scans_word.bind fun num => (scans_take 4).bind fun ip => hlast num ip).congr fun p => ?_
  simp only [Field.Spells]
  constructor
  · rintro ⟨p₁, _, rfl, h₁, p₂, p₃, rfl, h₂, rfl⟩
    simp [h₁, h₂]
  · intro h
    refine ⟨p.take 4, p.drop 4, (List.take_append_drop 4 p).symm, by simp [h], p.drop 4, [],
      (List.append_nil _).symm, by simp [h], rfl⟩

theorem str_run (w : Bytes) :
    str.run w = if 2 ≤ w.length then (take (Bytes.toNatBE (w.take 2))).run (w.drop 2) else none := by
  by_cases h : 2 ≤ w.length <;> simp [str, number_run, h, StateT.run_bind]

theorem scans_str : Scans str IsStr := by
  intro w rest
  rw [str_run]
  constructor
  · rintro ⟨v, hv⟩
    split at hv
    · next h2 =>
      obtain ⟨s, hs, hlen⟩ := (scans_take _ (w.drop 2) rest).1 ⟨v, hv⟩
      refine ⟨w.take 2 ++ s, ?_, w.take 2, s, rfl, List.length_take_of_le h2, hlen.symm⟩
      rw [List.append_assoc, ← hs, List.take_append_drop]
    · cases hv
  · rintro ⟨_, rfl, len, s, rfl, hlen, hs⟩
    have hl : 2 ≤ (len ++ s ++ rest).length := by simp [hlen]
    have ht : (len ++ s ++ rest).take 2 = len := by
      rw [List.append_assoc, List.take_left' hlen]
    have hd : (len ++ s ++ rest).drop 2 = s ++ rest := by
      rw [List.append_assoc, List.drop_left' hlen]
    rw [if_pos hl, ht, hd, hs]
    exact (scans_take _ (s ++ rest) rest).2 ⟨s, rfl, rfl⟩

theorem scans_strs : ∀ n, Scans (strs n) (Strs n)
  | 0 => (Scans.pure _).congr fun _ => ⟨fun h => h ▸ .nil, fun h => by cases h; rfl⟩
  | n + 1 => by
    refine (scans_str.bind fun _ => (scans_strs n).bind fun _ => Scans.pure _).congr fun p => ?_
    rw [strs_succ_iff]
    constructor
    · rintro ⟨p₁, _, rfl, h₁, p₂, _, rfl, h₂, rfl⟩
      exact ⟨p₁, p₂, by simp, h₁, h₂⟩
    · rintro ⟨p₁, p₂, rfl, h₁, h₂⟩
      exact ⟨p₁, p₂, rfl, h₁, p₂, [], (List.append_nil _).symm, h₂, rfl⟩

theorem set_run (w : Bytes) :
    set.run w = if 4 ≤ w.length then
      (if Bytes.toNatBE (w.take 4) * 2 > (w.drop 4).length then none
        else (strs (Bytes.toNatBE (w.take 4))).run (w.drop 4))
      else none := by
  by_cases h : 4 ≤ w.length
  · simp only [set, StateT.run_bind, number_run, h, if_true, Option.bind_eq_bind,
      Option.bind_some, StateT.run_get, Option.pure_def]
    split <;> rfl
  · simp [set, number_run, h, StateT.run_bind]

theorem scans_set : Scans set Field.set.Spells := by
  intro w rest
  rw [set_run]
  constructor
  · rintro ⟨v, hv⟩
    split at hv
    · next h4 =>
      split at hv
      · cases hv
      · obtain ⟨items, hitems, hs⟩ := (scans_strs _ (w.drop 4) rest).1 ⟨v, hv⟩
        refine ⟨w.take 4 ++ items, ?_, w.take 4, items, rfl, List.length_take_of_le h4, hs⟩
        rw [List.append_assoc, ← hitems, List.take_append_drop]
    · cases hv
  · rintro ⟨_, rfl, count, items, rfl, hc, hs⟩
    have hl : 4 ≤ (count ++ items ++ rest).length := by simp [hc]
    have ht : (count ++ items ++ rest).take 4 = count := by
      rw [List.append_assoc, List.take_left' hc]
    have hd : (count ++ items ++ rest).drop 4 = items ++ rest := by
      rw [List.append_assoc, List.drop_left' hc]
    have hroom : ¬ Bytes.toNatBE count * 2 > (items ++ rest).length := by
      have := hs.two_mul_le_length
      simp only [List.length_append]
      omega
    rw [if_pos hl, ht, hd, if_neg hroom]
    exact (scans_strs _ (items ++ rest) rest).2 ⟨items, rfl, hs⟩

theorem scans_body {k : Kind} {r : Reader Body} (h : Codec.body k = some r) :
    ∃ fs, k.layout? = some fs ∧ Scans r (Layout fs) := by
  cases k <;> simp only [Codec.body, Option.some.injEq, reduceCtorEq] at h <;> subst h
  · exact ⟨_, rfl, scans_str.single _⟩
  · exact ⟨_, rfl, scans_str.single _⟩
  · exact ⟨_, rfl, scans_node.cons fun _ => scans_node.cons fun _ => Scans.done _⟩
  · exact ⟨_, rfl, scans_node.cons fun _ => scans_node.cons fun _ => scans_node.cons fun _ =>
      Scans.done _⟩
  · exact ⟨_, rfl, scans_node.cons fun _ => scans_node.cons fun _ => Scans.done _⟩
  · exact ⟨_, rfl, scans_node.single _⟩
  · exact ⟨_, rfl, scans_node.single _⟩
  · exact ⟨_, rfl, scans_node.single _⟩
  · exact ⟨_, rfl, scans_node.cons fun _ => scans_ringId.cons fun _ => scans_word.cons fun _ =>
      Scans.done _⟩
  · exact ⟨_, rfl, scans_node.cons fun _ => scans_ringId.cons fun _ => scans_word.cons fun _ =>
      Scans.done _⟩
  · exact ⟨_, rfl, scans_str.cons fun _ => scans_set.cons fun _ => Scans.done _⟩
  · exact ⟨_, rfl, scans_word.cons fun _ => scans_str.cons fun _ => scans_set.cons fun _ =>
      scans_set.cons fun _ => Scans.done _⟩
  · exact ⟨_, rfl, scans_set.single _⟩

theorem body_eq_none_iff (k : Kind) : Codec.body k = none ↔ k.layout? = none := by
  cases k <;> simp [Codec.body, Kind.layout?]

end Codec

namespace Kind

theorem tag_of_ofTag? {t : UInt8} {k : Kind} (h : ofTag? t = some k) : k.tag = t := by
  simpa using List.find?_some h

theorem layout?_eq_none_iff {t : UInt8} {k : Kind} (h : ofTag? t = some k) :
    k.layout? = none ↔ t = 11 ∨ t = 12 := by
  rw [← tag_of_ofTag? h]
  cases k <;> decide

end Kind

/-! ### Reading a datagram -/

namespace Message

open Codec

section Header

variable {t : UInt8} {tx rest : Bytes} {k : Kind} {r : Reader Body}

theorem decode_unknownType (htx : tx.length = 4) (hk : Kind.ofTag? t = none) :
    decode (t :: (tx ++ rest)) = .error (.unknownType t) := by
  obtain ⟨b₁, b₂, b₃, b₄, rfl⟩ := List.length_eq_four.1 htx
  simp [decode, hk]

theorem decode_reservedType (htx : tx.length = 4) (hk : Kind.ofTag? t = some k)
    (hr : Codec.body k = none) : decode (t :: (tx ++ rest)) = .error (.reservedType k) := by
  obtain ⟨b₁, b₂, b₃, b₄, rfl⟩ := List.length_eq_four.1 htx
  simp [decode, hk, hr]

theorem decode_truncated (htx : tx.length = 4) (hk : Kind.ofTag? t = some k)
    (hr : Codec.body k = some r) (hrun : r.run rest = none) :
    decode (t :: (tx ++ rest)) = .error (.truncated k) := by
  obtain ⟨b₁, b₂, b₃, b₄, rfl⟩ := List.length_eq_four.1 htx
  simp [decode, hk, hr, hrun]

theorem decode_trailing {v : Body} {left : Bytes} (htx : tx.length = 4)
    (hk : Kind.ofTag? t = some k) (hr : Codec.body k = some r) (hrun : r.run rest = some (v, left))
    (hleft : left ≠ []) : decode (t :: (tx ++ rest)) = .error (.trailing k left.length) := by
  obtain ⟨b₁, b₂, b₃, b₄, rfl⟩ := List.length_eq_four.1 htx
  obtain ⟨x, xs, rfl⟩ := List.exists_cons_of_ne_nil hleft
  simp [decode, hk, hr, hrun]

theorem decode_whole {v : Body} (htx : tx.length = 4) (hk : Kind.ofTag? t = some k)
    (hr : Codec.body k = some r) (hrun : r.run rest = some (v, [])) :
    decode (t :: (tx ++ rest)) = .ok ⟨UInt32.ofNat (Bytes.toNatBE tx), v⟩ := by
  obtain ⟨b₁, b₂, b₃, b₄, rfl⟩ := List.length_eq_four.1 htx
  simp [decode, hk, hr, hrun]

end Header

theorem eq_of_decode_ok {b : Bytes} {m : Message} (h : decode b = .ok m) :
    ∃ t tx rest k r, b = t :: (tx ++ rest) ∧ tx.length = 4 ∧ Kind.ofTag? t = some k ∧
      Codec.body k = some r ∧ r.run rest = some (m.body, []) := by
  unfold decode at h
  split at h
  · next t b₁ b₂ b₃ b₄ rest =>
    split at h
    · cases h
    · next k hk =>
      split at h
      · cases h
      · next r hr =>
        split at h
        · cases h
        · next v hrun =>
          simp only [Except.ok.injEq] at h
          subst h
          exact ⟨t, [b₁, b₂, b₃, b₄], rest, k, r, rfl, rfl, hk, hr, hrun⟩
        · cases h
  · cases h

theorem exists_reader {t : UInt8} {fs : List Field} (hfs : tagLayout t = some fs) :
    ∃ k r, Kind.ofTag? t = some k ∧ Codec.body k = some r ∧ Scans r (Layout fs) := by
  obtain ⟨k, hk, hkfs⟩ := Option.bind_eq_some_iff.1 hfs
  obtain ⟨r, hr⟩ := Option.ne_none_iff_exists'.1 fun h =>
    absurd ((body_eq_none_iff k).1 h) (by simp [hkfs])
  obtain ⟨fs', hfs', hscan⟩ := scans_body hr
  obtain rfl : fs' = fs := Option.some.inj (hfs'.symm.trans hkfs)
  exact ⟨k, r, hk, hr, hscan⟩

theorem decode_ok_iff (b : Bytes) : (∃ m, decode b = .ok m) ↔ IsDatagram b := by
  constructor
  · rintro ⟨m, hm⟩
    obtain ⟨t, tx, rest, k, r, rfl, htx, hk, hr, hrun⟩ := eq_of_decode_ok hm
    obtain ⟨fs, hfs, hscan⟩ := scans_body hr
    obtain ⟨p, hp, hl⟩ := (hscan rest []).1 ⟨m.body, hrun⟩
    rw [List.append_nil] at hp
    subst hp
    exact ⟨t, tx, rest, fs, rfl, htx, by simp [tagLayout, hk, hfs], hl⟩
  · rintro ⟨t, tx, p, fs, rfl, htx, hfs, hl⟩
    obtain ⟨k, r, hk, hr, hscan⟩ := exists_reader hfs
    obtain ⟨v, hv⟩ := (hscan p []).2 ⟨p, (List.append_nil p).symm, hl⟩
    exact ⟨_, decode_whole htx hk hr hv⟩

theorem decode_short {b : Bytes} (h : b.length < 5) :
    decode b = .error (.shortHeader b.length) := by
  match b, h with
  | [], _ | [_], _ | [_, _], _ | [_, _, _], _ | [_, _, _, _], _ => rfl

section Refusals

variable {t : UInt8} {tx p : Bytes}

theorem decode_reserved (htx : tx.length = 4) (ht : t = 11 ∨ t = 12) :
    ∃ k, decode (t :: (tx ++ p)) = .error (.reservedType k) := by
  rcases ht with rfl | rfl
  · exact ⟨.lookupReq, decode_reservedType htx rfl rfl⟩
  · exact ⟨.lookupRsp, decode_reservedType htx rfl rfl⟩

theorem decode_unknown (htx : tx.length = 4) (hfs : tagLayout t = none) (h11 : t ≠ 11)
    (h12 : t ≠ 12) : decode (t :: (tx ++ p)) = .error (.unknownType t) := by
  cases hk : Kind.ofTag? t with
  | none => exact decode_unknownType htx hk
  | some k =>
    have hnone : k.layout? = none := by simpa [tagLayout, hk] using hfs
    exact absurd ((Kind.layout?_eq_none_iff hk).1 hnone) (by simp [h11, h12])

theorem decode_trailing_payload {fs : List Field} {q left : Bytes} (htx : tx.length = 4)
    (hfs : tagLayout t = some fs) (hp : p = q ++ left) (hleft : left ≠ []) (hq : Layout fs q) :
    ∃ k, decode (t :: (tx ++ p)) = .error (.trailing k left.length) := by
  obtain ⟨k, r, hk, hr, hscan⟩ := exists_reader hfs
  obtain ⟨v, hv⟩ := (hscan p left).2 ⟨q, hp, hq⟩
  exact ⟨k, decode_trailing htx hk hr hv hleft⟩

theorem decode_truncated_payload {fs : List Field} (htx : tx.length = 4)
    (hfs : tagLayout t = some fs) (hno : ∀ q left, p = q ++ left → ¬ Layout fs q) :
    ∃ k, decode (t :: (tx ++ p)) = .error (.truncated k) := by
  obtain ⟨k, r, hk, hr, hscan⟩ := exists_reader hfs
  refine ⟨k, decode_truncated htx hk hr ?_⟩
  cases hrun : r.run p with
  | none => rfl
  | some res =>
    obtain ⟨q, hq, hl⟩ := (hscan p res.2).1 ⟨res.1, hrun⟩
    exact absurd hl (hno q res.2 hq)

end Refusals

/-- Decoding accepts exactly the wire grammar and says why it refuses anything else:
fewer than five bytes are a truncated header; tags 11 and 12 are reserved; another tag that
announces no payload is unknown; a payload followed by more bytes leaves trailing bytes; and
bytes no prefix of which is a payload are truncated. -/
theorem decode_classifies (b : Bytes) :
    ((∃ m, decode b = .ok m) ↔ IsDatagram b) ∧
    (b.length < 5 → ∃ e, decode b = .error e ∧ e.cause = .truncated) ∧
    ∀ t tx p, b = t :: (tx ++ p) → tx.length = 4 →
      ((t = 11 ∨ t = 12) → ∃ e, decode b = .error e ∧ e.cause = .reservedMessageType) ∧
      (tagLayout t = none → t ≠ 11 → t ≠ 12 →
        ∃ e, decode b = .error e ∧ e.cause = .unknownMessageType) ∧
      ∀ fs, tagLayout t = some fs →
        ((∃ q left, p = q ++ left ∧ left ≠ [] ∧ Layout fs q) →
          ∃ e, decode b = .error e ∧ e.cause = .trailingBytes) ∧
        ((∀ q left, p = q ++ left → ¬ Layout fs q) →
          ∃ e, decode b = .error e ∧ e.cause = .truncated) := by
  refine ⟨decode_ok_iff b, fun h => ⟨_, decode_short h, rfl⟩, ?_⟩
  rintro t tx p rfl htx
  refine ⟨fun ht => ?_, fun hfs h11 h12 => ⟨_, decode_unknown htx hfs h11 h12, rfl⟩,
    fun fs hfs => ⟨?_, fun hno => ?_⟩⟩
  · obtain ⟨k, hk⟩ := @decode_reserved t tx p htx ht
    exact ⟨_, hk, rfl⟩
  · rintro ⟨q, left, hp, hleft, hq⟩
    obtain ⟨k, hk⟩ := decode_trailing_payload htx hfs hp hleft hq
    exact ⟨_, hk, rfl⟩
  · obtain ⟨k, hk⟩ := decode_truncated_payload htx hfs hno
    exact ⟨_, hk, rfl⟩

end Message

end ChordSearch
