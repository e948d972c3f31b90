import ChordSearch.Proofs.Ring.Clockwise
import ChordSearch.Proofs.Index.TermMap

/-! # Ownership arcs partition the ring

Let the members of a ring sit at `m₀ < m₁ < … < m_{k-1}`, in numeric order. Member `mᵢ` has
the member before it going clockwise, `m_{(i-1) mod k}` (`Ring.before`), as predecessor, and
owns the keys of the arc from there to itself (`Arc.owns`): `(m_{i-1}, mᵢ]`, the arc
`(m_{k-1}, m₀]` that wraps past zero for the smallest member, and the whole ring for a member
alone.

* `Ring.follows_before`: `mᵢ` is the member after `m_{(i-1) mod k}` going clockwise, so the
  clockwise theory of `Ring.Follows` applies to the listed order.
* `Ring.firstFrom_sorted`: the first member at or after a key is the first `m_j ≥ key`, or
  `m₀` when the key is past every member.
* `Ring.owns_iff_first`: the owns test at `mᵢ` passes exactly when `mᵢ` is that member, so
  one member passes it (`Ring.exists_unique_owner`).
* `Ring.arcs_partition`: hence exactly one member owns each key, and a node that hands on
  what it does not own (`Store.extractNotOwned`), done at every member, leaves each term at
  exactly one of them.
-/

namespace ChordSearch.Ring

/-- The member before `ms[i]` going clockwise round a ring listed in ascending order: the
member listed before it, and the last for the first. -/
def before (ms : List RingId) (i : Fin ms.length) : RingId :=
  ms.get ⟨(i.val + ms.length - 1) % ms.length, Nat.mod_lt _ (Nat.zero_lt_of_lt i.isLt)⟩

variable {ms : List RingId}

theorem before_mem (i : Fin ms.length) : before ms i ∈ ms := List.get_mem _ _

section Ascending

variable (hs : ms.Pairwise (· < ·))
include hs

theorem toNat_lt_iff {a b : Nat} (ha : a < ms.length) (hb : b < ms.length) :
    ms[a].toNat < ms[b].toNat ↔ a < b := by
  constructor
  · intro h
    by_contra hba
    rcases Nat.lt_or_eq_of_le (Nat.not_lt.1 hba) with hlt | rfl
    · have hgt : ms[b].toNat < ms[a].toNat := List.pairwise_iff_getElem.1 hs b a hb ha hlt
      omega
    · exact lt_irrefl _ h
  · exact List.pairwise_iff_getElem.1 hs a b ha hb

theorem follows_before (i : Fin ms.length) : Follows ms (before ms i) ms[i] := by
  refine ⟨List.getElem_mem _, fun m hm => ?_⟩
  obtain ⟨l, hl, rfl⟩ := List.getElem_of_mem hm
  have hi := i.isLt
  simp only [before, List.get_eq_getElem, Arc.inside]
  by_cases h0 : i.val = 0
  · -- the first member follows the last, across zero
    have hj : (i.val + ms.length - 1) % ms.length = ms.length - 1 := by
      rw [h0, Nat.zero_add, Nat.mod_eq_of_lt (by omega)]
    simp only [hj]
    by_cases h1 : ms.length = 1
    · -- alone, the member follows itself
      have hl0 : l = ms.length - 1 := by omega
      subst hl0
      have hi0 : (i : Nat) = ms.length - 1 := by omega
      simp [hi0]
    · have hlast := (toNat_lt_iff hs (a := i.val) (b := ms.length - 1) hi (by omega)).2 (by omega)
      have hup : ¬ ms[ms.length - 1].toNat < ms[l].toNat :=
        fun h => absurd ((toNat_lt_iff hs (by omega) hl).1 h) (by omega)
      have hdown : ¬ ms[l].toNat < ms[i.val].toNat :=
        fun h => absurd ((toNat_lt_iff hs hl hi).1 h) (by omega)
      simp only [Fin.getElem_fin] at hlast hdown ⊢
      simp [hlast, Nat.not_lt.2 hlast.le, hup, hdown]
  · -- any other member follows the one listed before it
    have hj : (i.val + ms.length - 1) % ms.length = i.val - 1 := by
      rw [show i.val + ms.length - 1 = i.val - 1 + ms.length by omega, Nat.add_mod_right,
        Nat.mod_eq_of_lt (by omega)]
    simp only [hj]
    have hprev := (toNat_lt_iff hs (a := i.val - 1) (b := i.val) (by omega) hi).2 (by omega)
    have hbetween : ¬ (ms[i.val - 1].toNat < ms[l].toNat ∧ ms[l].toNat < ms[i.val].toNat) :=
      fun h => by
        have := (toNat_lt_iff hs (by omega) hl).1 h.1
        have := (toNat_lt_iff hs hl hi).1 h.2
        omega
    simp only [Fin.getElem_fin] at hprev ⊢
    simpa [hprev] using hbetween

theorem firstFrom_sorted (hne : ms ≠ []) (key : RingId) :
    FirstFrom ms key ((ms.find? (key ≤ ·)).getD (ms.head hne)) := by
  cases hf : ms.find? (key ≤ ·) with
  | some o =>
    obtain ⟨hko, i, hi, rfl, hearlier⟩ := List.find?_eq_some_iff_getElem.1 hf
    refine ⟨List.getElem_mem _, .inl ⟨of_decide_eq_true hko, fun m hm hkm => ?_⟩⟩
    obtain ⟨l, hl, rfl⟩ := List.getElem_of_mem hm
    have hil : i ≤ l := Nat.not_lt.1 fun hli => by simpa [hkm] using hearlier l hli
    rcases Nat.lt_or_eq_of_le hil with h | rfl
    · exact Nat.le_of_lt ((toNat_lt_iff hs hi hl).2 h)
    · exact Nat.le_refl _
  | none =>
    have hall := List.find?_eq_none.1 hf
    refine ⟨List.head_mem hne, .inr ⟨fun m hm => ?_, fun m hm => ?_⟩⟩
    · exact Nat.lt_of_not_le fun h => hall m hm (decide_eq_true h)
    · -- the first member listed is the smallest
      obtain ⟨l, hl, rfl⟩ := List.getElem_of_mem hm
      rw [List.head_eq_getElem]
      rcases Nat.eq_zero_or_pos l with rfl | h
      · exact Nat.le_refl _
      · exact Nat.le_of_lt ((toNat_lt_iff hs _ hl).2 h)

theorem owns_iff_first (hne : ms ≠ []) (key : RingId) (i : Fin ms.length) :
    Arc.owns (before ms i) key ms[i] = true ↔ ms[i] = (ms.find? (key ≤ ·)).getD (ms.head hne) := by
  rw [owns_iff_firstFrom (before_mem i) (follows_before hs i)]
  exact ⟨fun h => h.unique (firstFrom_sorted hs hne key), fun h => h ▸ firstFrom_sorted hs hne key⟩

theorem exists_unique_owner (hne : ms ≠ []) (key : RingId) :
    ∃! i : Fin ms.length, Arc.owns (before ms i) key ms[i] = true := by
  obtain ⟨l, hl, hget⟩ := List.getElem_of_mem (firstFrom_sorted hs hne key).1
  refine ⟨⟨l, hl⟩, (owns_iff_first hs hne key _).2 hget, fun j hj => ?_⟩
  have hj' := (owns_iff_first hs hne key j).1 hj
  have hnd : ms.Nodup := hs.imp fun h heq => by subst heq; exact Nat.lt_irrefl _ h
  exact Fin.ext ((hnd.getElem_inj_iff).1 (hj'.trans hget.symm))

end Ascending

/-- The ownership arcs of a ring listed in ascending order partition the ring: exactly one
member's arc holds each key, that of the first member at or after the key (the first member
when the key is past every member); and when every member hands on the terms it does not own,
each term present at every member stays at exactly one member. -/
theorem arcs_partition (hs : ms.Pairwise (· < ·)) (hne : ms ≠ []) (key : RingId) :
    (∃! i : Fin ms.length, Arc.owns (before ms i) key ms[i] = true) ∧
    (∀ i : Fin ms.length, Arc.owns (before ms i) key ms[i] = true ↔
      ms[i] = (ms.find? (key ≤ ·)).getD (ms.head hne)) ∧
    ∀ (S : Fin ms.length → Store) (t : Bytes), (∀ i, t ∈ (S i).terms) →
      ∃! i : Fin ms.length, t ∈ ((S i).extractNotOwned (before ms i) ms[i]).1.terms := by
  refine ⟨exists_unique_owner hs hne key, owns_iff_first hs hne key, fun S t ht => ?_⟩
  -- a term stays at a member exactly when that member owns the term's key
  have hkept : ∀ i, t ∈ ((S i).extractNotOwned (before ms i) ms[i]).1.terms ↔
      Arc.owns (before ms i) (RingId.hash t) ms[i] = true := fun i => by
    rw [Store.mem_kept_terms]
    exact and_iff_right (ht i)
  simp only [hkept]
  exact exists_unique_owner hs hne (RingId.hash t)

/-- A ring of members at 3, 7 and 11, asked for key 12, past every member. -/
theorem arcs_partition_wrapped :
    ∃ (_ : [RingId.ofNat 3, RingId.ofNat 7, RingId.ofNat 11].Pairwise (· < ·))
      (hne : [RingId.ofNat 3, RingId.ofNat 7, RingId.ofNat 11] ≠ []),
      let ms := [RingId.ofNat 3, RingId.ofNat 7, RingId.ofNat 11]
      (∃! i : Fin ms.length, Arc.owns (before ms i) (RingId.ofNat 12) ms[i] = true) ∧
      (∀ i : Fin ms.length, Arc.owns (before ms i) (RingId.ofNat 12) ms[i] = true ↔
        ms[i] = (ms.find? (RingId.ofNat 12 ≤ ·)).getD (ms.head hne)) ∧
      ∀ (S : Fin ms.length → Store) (t : Bytes), (∀ i, t ∈ (S i).terms) →
        ∃! i : Fin ms.length, t ∈ ((S i).extractNotOwned (before ms i) ms[i]).1.terms :=
  have hs : [RingId.ofNat 3, RingId.ofNat 7, RingId.ofNat 11].Pairwise (· < ·) := by decide
  have hne : [RingId.ofNat 3, RingId.ofNat 7, RingId.ofNat 11] ≠ [] := by simp
  ⟨hs, hne, arcs_partition hs hne (RingId.ofNat 12)⟩

end ChordSearch.Ring
