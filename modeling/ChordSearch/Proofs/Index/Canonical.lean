import Mathlib.Data.List.Sort
import ChordSearch.Index.DocSet

/-! # Document sets are their members

A document set keeps its members as a strictly ascending list, so the list is determined by
the members: two sets with the same members are equal (`DocSet.ext_mem`). Membership in the
sets the operations build is membership in their inputs: `mem_ofList`, `mem_insert`,
`mem_inter`. Reading a strictly ascending list as a set gives the list back
(`toList_ofList_of_sorted`), which is why a list that crossed the wire sorted reads as the
set that was sent.
-/

namespace ChordSearch.DocSet

theorem mem_insertSorted_iff {x z : Bytes} {ys : List Bytes} :
    z ∈ insertSorted x ys ↔ z = x ∨ z ∈ ys := by
  refine ⟨mem_insertSorted, fun h => ?_⟩
  induction ys with
  | nil => simpa [insertSorted] using h
  | cons y ys ih =>
    simp only [insertSorted]
    split
    · simpa using h
    · split
      · next hxy =>
        rcases h with rfl | h
        · exact hxy ▸ List.mem_cons_self
        · exact h
      · rcases h with rfl | h
        · exact List.mem_cons_of_mem y (ih (.inl rfl))
        · rcases List.mem_cons.1 h with rfl | h
          · exact List.mem_cons_self
          · exact List.mem_cons_of_mem _ (ih (.inr h))

@[simp] theorem mem_insert {x z : Bytes} {s : DocSet} :
    z ∈ (s.insert x).toList ↔ z = x ∨ z ∈ s.toList :=
  mem_insertSorted_iff

theorem mem_foldl_insert {d : Bytes} (xs : List Bytes) (s : DocSet) :
    d ∈ (xs.foldl (fun s x => s.insert x) s).toList ↔ d ∈ s.toList ∨ d ∈ xs := by
  induction xs generalizing s with
  | nil => simp
  | cons x xs ih =>
    rw [List.foldl_cons, ih, mem_insert, List.mem_cons]
    tauto

@[simp] theorem mem_ofList {d : Bytes} {xs : List Bytes} : d ∈ (ofList xs).toList ↔ d ∈ xs := by
  simp [ofList, mem_foldl_insert, empty]

@[simp] theorem contains_iff {s : DocSet} {x : Bytes} : s.contains x = true ↔ x ∈ s.toList := by
  simp [contains]

@[simp] theorem mem_inter {d : Bytes} {s t : DocSet} :
    d ∈ (s.inter t).toList ↔ d ∈ s.toList ∧ d ∈ t.toList := by
  simp [inter]

theorem ext_mem {s t : DocSet} (h : ∀ d, d ∈ s.toList ↔ d ∈ t.toList) : s = t := by
  have hirr : Std.Irrefl fun a b : Bytes => Bytes.lexLt a b = true :=
    ⟨fun a => by simp [Bytes.lexLt_irrefl]⟩
  have hanti : Std.Antisymm fun a b : Bytes => Bytes.lexLt a b = true :=
    ⟨fun a b hab hba => by simp [Bytes.lexLt_asymm hab] at hba⟩
  have hl : s.toList = t.toList := s.sorted.eq_of_mem_iff t.sorted h
  rcases s with ⟨l, hs⟩
  rcases t with ⟨l', ht⟩
  cases hl
  rfl

@[simp] theorem ofList_toList (s : DocSet) : ofList s.toList = s :=
  ext_mem fun _ => mem_ofList

theorem toList_ofList_of_sorted {xs : List Bytes}
    (h : xs.Pairwise fun a b => Bytes.lexLt a b = true) : (ofList xs).toList = xs := by
  have hs : ofList xs = ⟨xs, h⟩ := ext_mem fun _ => mem_ofList
  rw [hs]

end ChordSearch.DocSet
