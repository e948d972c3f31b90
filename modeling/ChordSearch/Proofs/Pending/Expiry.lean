import Mathlib.Data.List.Basic
import Mathlib.Data.List.Nodup
import Mathlib.Data.List.Perm.Basic
import ChordSearch.Pending.Tracker

/-! # Expiry and matching of requests in flight

A tracker is a table keyed by transaction id: adding under an id replaces what was there,
so no two entries share an id (`Tracker.Distinct`), and taking and expiring keep it
(`Distinct.add`, `Distinct.take`, `Distinct.expire`). In such a tracker `peek` finds the one
entry with its id (`Tracker.peek_eq_some_iff`), and the operations read as follows.

* `Tracker.expire_perm`: expiry reports exactly the entries whose deadline
  `sentAt + timeout` is not after `now`, each once, and `Tracker.expire_sorted` says in what
  order: oldest first, and by id among entries sent at the same time. Every other entry
  stays as it was (`Tracker.peek_expire`), so the number reported is the number removed
  (`Tracker.length_expire`).
* `Tracker.fst_take`, `Tracker.peek_take`: taking an id returns its entry and removes it,
  and leaves every other id as it was; so a second take of the id finds nothing.
* `Tracker.expire_and_take_exact`: all of it together.
-/

namespace ChordSearch

namespace Tracker

variable {α : Type}

/-- No two entries share a transaction id, as in a table keyed by the id. -/
def Distinct (t : Tracker α) : Prop := (t.entries.map (·.tx)).Nodup

/-! ### One entry per id -/

theorem distinct_empty : (empty : Tracker α).Distinct := List.nodup_nil

theorem Distinct.sublist {t : Tracker α} {l : List (Pending α)} (ht : t.Distinct)
    (h : l.Sublist t.entries) : (⟨l⟩ : Tracker α).Distinct :=
  (h.map _).nodup ht

theorem Distinct.add {t : Tracker α} (ht : t.Distinct) (now : Int) (tx : UInt32) (v : α) :
    (t.add now tx v).Distinct := by
  have hrest : ((t.entries.filter (·.tx != tx)).map (·.tx)).Nodup :=
    (List.filter_sublist.map _).nodup ht
  have hmap : (t.add now tx v).entries.map (·.tx) =
      (t.entries.filter (·.tx != tx)).map (·.tx) ++ [tx] := by
    simp [Tracker.add]
  rw [Distinct, hmap, List.nodup_append]
  refine ⟨hrest, List.nodup_singleton _, ?_⟩
  intro a ha b hb
  simp only [List.mem_map, List.mem_filter, bne_iff_ne, ne_eq, List.mem_singleton] at ha hb
  obtain ⟨e, ⟨-, hne⟩, rfl⟩ := ha
  rw [hb]
  exact hne

theorem Distinct.take {t : Tracker α} (ht : t.Distinct) (tx : UInt32) : (t.take tx).2.Distinct := by
  unfold Tracker.take
  split
  · exact ht.sublist List.filter_sublist
  · exact ht

theorem Distinct.expire {t : Tracker α} (ht : t.Distinct) (now d : Int) :
    (t.expire now d).2.Distinct := by
  simpa [Tracker.expire] using ht.sublist List.filter_sublist

theorem peek_eq_some_iff {t : Tracker α} (ht : t.Distinct) {tx : UInt32} {e : Pending α} :
    t.peek tx = some e ↔ e ∈ t.entries ∧ e.tx = tx := by
  constructor
  · intro h
    exact ⟨List.mem_of_find?_eq_some h, by simpa using List.find?_some h⟩
  · rintro ⟨he, rfl⟩
    obtain ⟨e', he'⟩ : ∃ e', t.peek e.tx = some e' :=
      Option.isSome_iff_exists.1 (List.find?_isSome.2 ⟨e, he, by simp⟩)
    have hm := List.mem_of_find?_eq_some he'
    have htx : e'.tx = e.tx := by simpa using List.find?_some he'
    rw [he', List.inj_on_of_nodup_map ht hm he htx]

/-! ### Taking an entry -/

theorem fst_take (t : Tracker α) (tx : UInt32) : (t.take tx).1 = t.peek tx := by
  unfold Tracker.take
  split <;> simp_all

theorem peek_take (t : Tracker α) (tx x : UInt32) :
    (t.take tx).2.peek x = if x = tx then none else t.peek x := by
  unfold Tracker.take
  split
  · -- the entries left are those with another id
    simp only [peek, List.find?_filter, bne_iff_ne, ne_eq, beq_iff_eq]
    split
    · subst x
      simp
    · congr 1
      funext e
      by_cases h : e.tx = x <;> simp_all
  · next hnone =>
    split
    · subst x
      exact hnone
    · rfl

/-! ### Expiry -/

theorem expire_perm (t : Tracker α) (now d : Int) :
    (t.expire now d).1.Perm (t.entries.filter fun e => e.sentAt + d ≤ now) := by
  simpa [Tracker.expire] using List.mergeSort_perm _ _

theorem length_expire (t : Tracker α) (now d : Int) :
    (t.expire now d).1.length + (t.expire now d).2.size = t.size := by
  rw [(t.expire_perm now d).length_eq]
  simp only [Tracker.expire, size, List.partition_eq_filter_filter]
  exact (List.length_eq_length_filter_add _).symm

theorem before_eq_true_iff (a b : Pending α) :
    Pending.before a b = true ↔
      a.sentAt < b.sentAt ∨ (a.sentAt = b.sentAt ∧ a.tx.toNat < b.tx.toNat) := by
  simp [Pending.before, UInt32.lt_iff_toNat_lt]

theorem expire_sorted {t : Tracker α} (ht : t.Distinct) (now d : Int) :
    (t.expire now d).1.Pairwise fun a b =>
      a.sentAt < b.sentAt ∨ (a.sentAt = b.sentAt ∧ a.tx < b.tx) := by
  have hle : (t.expire now d).1.Pairwise fun a b => !Pending.before b a := by
    apply List.pairwise_mergeSort
    · intro a b c hab hbc
      simp only [Bool.not_eq_eq_eq_not, Bool.not_true] at hab hbc ⊢
      rw [← Bool.not_eq_true, before_eq_true_iff] at hab hbc ⊢
      omega
    · intro a b
      rw [Bool.or_eq_true, Bool.not_eq_true', Bool.not_eq_true']
      rw [← Bool.not_eq_true, ← Bool.not_eq_true, before_eq_true_iff, before_eq_true_iff]
      omega
  have hne : (t.expire now d).1.Pairwise fun a b => a.tx ≠ b.tx := by
    have hsub := (List.filter_sublist (p := fun e : Pending α => decide (e.sentAt + d ≤ now))
      (l := t.entries)).map (·.tx)
    have hnd := ((t.expire_perm now d).map (·.tx)).nodup_iff.2 (hsub.nodup ht)
    exact List.pairwise_map.1 hnd
  refine (hle.and hne).imp fun {a b} ⟨hab, hab'⟩ => ?_
  rw [Bool.not_eq_true', ← Bool.not_eq_true, before_eq_true_iff] at hab
  have hid : a.tx.toNat ≠ b.tx.toNat := fun h => hab' (UInt32.toNat_inj.1 h)
  rw [UInt32.lt_iff_toNat_lt]
  omega

theorem peek_expire {t : Tracker α} (ht : t.Distinct) (now d : Int) (x : UInt32)
    (e : Pending α) :
    (t.expire now d).2.peek x = some e ↔ t.peek x = some e ∧ now < e.sentAt + d := by
  rw [peek_eq_some_iff (ht.expire now d), peek_eq_some_iff ht]
  simp only [Tracker.expire, List.partition_eq_filter_filter, List.mem_filter]
  constructor
  · rintro ⟨⟨he, hk⟩, hx⟩
    exact ⟨⟨he, hx⟩, by simpa using hk⟩
  · rintro ⟨⟨he, hx⟩, hk⟩
    exact ⟨⟨he, by simpa using hk⟩, hx⟩

/-- Expiry removes exactly the entries whose deadline `sentAt + d` is not after `now` and
reports each of them once, oldest first and by id among those sent together, so their
number is the number removed; every other entry stays. Taking an id returns the entry with
that id and removes it alone, so a second take of it finds nothing. -/
theorem expire_and_take_exact (t : Tracker α) (ht : t.Distinct) (now d : Int) (tx : UInt32) :
    (t.expire now d).1.Perm (t.entries.filter fun e => e.sentAt + d ≤ now) ∧
    (t.expire now d).1.Pairwise
      (fun a b => a.sentAt < b.sentAt ∨ (a.sentAt = b.sentAt ∧ a.tx < b.tx)) ∧
    (t.expire now d).1.length + (t.expire now d).2.size = t.size ∧
    (∀ x e, (t.expire now d).2.peek x = some e ↔ t.peek x = some e ∧ now < e.sentAt + d) ∧
    (∀ e, (t.take tx).1 = some e ↔ e ∈ t.entries ∧ e.tx = tx) ∧
    (t.take tx).2.peek tx = none ∧
    (∀ x, x ≠ tx → (t.take tx).2.peek x = t.peek x) ∧
    ((t.take tx).2.take tx).1 = none := by
  refine ⟨t.expire_perm now d, expire_sorted ht now d, t.length_expire now d,
    peek_expire ht now d, fun e => ?_, by simp [peek_take], fun x hx => by simp [peek_take, hx],
    by simp [fst_take, peek_take]⟩
  rw [fst_take, peek_eq_some_iff ht]

/-- Four pings: two sent at time 5 with ids 7 and 3, one at time 2, one at time 6. -/
def fourPings : Tracker Unit :=
  (((empty.add 5 7 ()).add 2 9 ()).add 5 3 ()).add 6 4 ()

/-- At time 10 with timeout 5 the first three are due, the two sent at time 5 exactly at
their deadline. -/
theorem fourPings_expire_and_take : fourPings.Distinct ∧
    (fourPings.expire 10 5).1.Perm (fourPings.entries.filter fun e => e.sentAt + 5 ≤ 10) ∧
    (fourPings.expire 10 5).1.Pairwise
      (fun a b => a.sentAt < b.sentAt ∨ (a.sentAt = b.sentAt ∧ a.tx < b.tx)) ∧
    (fourPings.expire 10 5).1.length + (fourPings.expire 10 5).2.size = fourPings.size ∧
    (∀ x e, (fourPings.expire 10 5).2.peek x = some e ↔
      fourPings.peek x = some e ∧ 10 < e.sentAt + 5) ∧
    (∀ e, (fourPings.take 3).1 = some e ↔ e ∈ fourPings.entries ∧ e.tx = 3) ∧
    (fourPings.take 3).2.peek 3 = none ∧
    (∀ x, x ≠ 3 → (fourPings.take 3).2.peek x = fourPings.peek x) ∧
    ((fourPings.take 3).2.take 3).1 = none := by
  have h : fourPings.Distinct :=
    (((distinct_empty.add 5 7 ()).add 2 9 ()).add 5 3 ()).add 6 4 ()
  exact ⟨h, expire_and_take_exact fourPings h 10 5 3⟩

end Tracker

end ChordSearch
