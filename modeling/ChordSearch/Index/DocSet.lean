import ChordSearch.Wire.Codec

/-! # Document sets

A document set is a finite set of byte strings kept as an ascending list without
duplicates, in byte-wise order. The set carries the proof of that order, and every
operation keeps it, so two sets with the same members have the same list, and listing a set
is reading its list.
-/

namespace ChordSearch

/-- A finite set of documents: an ascending list in byte order, so without duplicates. -/
structure DocSet where
  toList : List Bytes
  sorted : toList.Pairwise fun a b => Bytes.lexLt a b = true
  deriving DecidableEq

namespace DocSet

/-- The empty set. -/
def empty : DocSet := ⟨[], .nil⟩

instance : Inhabited DocSet := ⟨empty⟩

/-- Insert into an ascending list without duplicates. -/
def insertSorted (x : Bytes) : List Bytes → List Bytes
  | [] => [x]
  | y :: ys =>
    if Bytes.lexLt x y then x :: y :: ys
    else if x = y then y :: ys
    else y :: insertSorted x ys

theorem mem_insertSorted {x z : Bytes} {ys : List Bytes} (h : z ∈ insertSorted x ys) :
    z = x ∨ z ∈ ys := by
  induction ys with
  | nil => simpa [insertSorted] using h
  | cons y ys ih =>
    simp only [insertSorted] at h
    split at h
    · simpa using h
    · split at h
      · exact .inr h
      · rcases List.mem_cons.1 h with rfl | h
        · exact .inr List.mem_cons_self
        · exact (ih h).imp id (List.mem_cons_of_mem y)

theorem sorted_insertSorted (x : Bytes) {ys : List Bytes}
    (h : ys.Pairwise fun a b => Bytes.lexLt a b = true) :
    (insertSorted x ys).Pairwise fun a b => Bytes.lexLt a b = true := by
  induction ys with
  | nil => simp [insertSorted]
  | cons y ys ih =>
    rw [List.pairwise_cons] at h
    simp only [insertSorted]
    split
    · next hxy =>
      refine List.Pairwise.cons (fun b hb => ?_) (List.Pairwise.cons h.1 h.2)
      rcases List.mem_cons.1 hb with rfl | hb
      · exact hxy
      · exact Bytes.lexLt_trans hxy (h.1 b hb)
    · next hxy =>
      split
      · exact List.Pairwise.cons h.1 h.2
      · next hxe =>
        have hyx : Bytes.lexLt y x = true := by
          rcases Bytes.lexLt_total x y with h' | h' | h'
          · exact absurd h' hxy
          · exact absurd h' hxe
          · exact h'
        refine List.Pairwise.cons (fun b hb => ?_) (ih h.2)
        rcases mem_insertSorted hb with rfl | hb
        · exact hyx
        · exact h.1 b hb

/-- Add a member. -/
def insert (x : Bytes) (s : DocSet) : DocSet := ⟨insertSorted x s.toList, sorted_insertSorted x s.sorted⟩

/-- The set of a list's members. -/
def ofList (xs : List Bytes) : DocSet := xs.foldl (fun s x => s.insert x) empty

/-- Membership. -/
def contains (s : DocSet) (x : Bytes) : Bool := s.toList.contains x

/-- The number of members. -/
def size (s : DocSet) : Nat := s.toList.length

/-- Whether the set is empty. -/
def isEmpty (s : DocSet) : Bool := s.toList.isEmpty

/-- The members of both sets. -/
def union (s t : DocSet) : DocSet := t.toList.foldl (fun acc x => acc.insert x) s

/-- The members the two sets share. -/
def inter (s t : DocSet) : DocSet := ⟨s.toList.filter t.contains, s.sorted.filter _⟩

end DocSet

end ChordSearch
