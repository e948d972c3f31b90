import ChordSearch.Proofs.Search.Handlers

/-! # What a conjunctive search finds

A search for several terms is a fold over them: each term's postings are narrowed to the
documents matched so far, and the fold stops at the first empty result or after the last
term. `Search.conjoin` is that fold done in one place, over any postings; the distributed
search computes it, one owner per term.

Started from no match, the fold finds exactly the documents every term's postings hold
(`mem_conjoin_nil`), in ascending order (`conjoin_sorted`), and it visits the terms up to
the shortest prefix whose postings share no document, or all of them when there is none
(`conjoin_nil_visits`).

One step of the fold is one member's decision on a fetch: `fetchStep` over the postings of
the key answers with the narrowed documents after the last term or on an empty result, and
otherwise carries them on to the next term (`fetchStep_last`, `fetchStep_cons`).
-/

namespace ChordSearch.Search

/-- A conjunctive search over postings `P`, done in one place: from the documents matched so
far (`acc`, none yet when it is empty), visit the terms in order, narrow each one's
postings to what matched so far, and stop at the first empty result or after the last
term. The number of terms visited, and the documents found. -/
def conjoin (P : Bytes → DocSet) (acc : List Bytes) : List Bytes → Nat × List Bytes
  | [] => (0, acc)
  | key :: rem =>
    let r := narrow P key acc
    if r.isEmpty || rem.isEmpty then (1, r.toList)
    else
      let v := conjoin P r.toList rem
      (v.1 + 1, v.2)

variable (P : Bytes → DocSet)

theorem mem_narrow {key : Bytes} {acc : List Bytes} {d : Bytes} :
    d ∈ (narrow P key acc).toList ↔ (acc = [] ∨ d ∈ acc) ∧ d ∈ (P key).toList := by
  by_cases ha : acc = []
  · simp [narrow, ha]
  · simp [narrow, ha, and_comm]

theorem conjoin_last (acc : List Bytes) (key : Bytes) :
    conjoin P acc [key] = (1, (narrow P key acc).toList) := by
  simp [conjoin]

theorem conjoin_cons (acc : List Bytes) (key w : Bytes) (rest : List Bytes) :
    conjoin P acc (key :: w :: rest) =
      if (narrow P key acc).toList = [] then (1, [])
      else ((conjoin P (narrow P key acc).toList (w :: rest)).1 + 1,
        (conjoin P (narrow P key acc).toList (w :: rest)).2) := by
  by_cases hr : (narrow P key acc).toList = [] <;> simp [conjoin, DocSet.isEmpty, hr]

theorem mem_conjoin (acc : List Bytes) (key : Bytes) (rem : List Bytes) (d : Bytes) :
    d ∈ (conjoin P acc (key :: rem)).2 ↔
      (acc = [] ∨ d ∈ acc) ∧ ∀ t ∈ key :: rem, d ∈ (P t).toList := by
  induction rem generalizing key acc with
  | nil => simp [conjoin_last, mem_narrow]
  | cons w rest ih =>
    rw [conjoin_cons]
    split
    · next hr =>
      have hd : ¬ ((acc = [] ∨ d ∈ acc) ∧ d ∈ (P key).toList) := by
        rw [← mem_narrow, hr]
        exact List.not_mem_nil
      simp only [List.not_mem_nil, false_iff, List.forall_mem_cons]
      exact fun h => hd ⟨h.1, h.2.1⟩
    · next hr =>
      rw [ih, mem_narrow]
      simp [hr]
      tauto

theorem conjoin_sorted (acc : List Bytes) (key : Bytes) (rem : List Bytes) :
    (conjoin P acc (key :: rem)).2.Pairwise fun a b => Bytes.lexLt a b = true := by
  induction rem generalizing key acc with
  | nil => simpa [conjoin_last] using (narrow P key acc).sorted
  | cons w rest ih =>
    rw [conjoin_cons]
    split
    · exact .nil
    · exact ih _ _

theorem conjoin_visits_le (acc : List Bytes) (key : Bytes) (rem : List Bytes) :
    1 ≤ (conjoin P acc (key :: rem)).1 ∧ (conjoin P acc (key :: rem)).1 ≤ rem.length + 1 := by
  induction rem generalizing key acc with
  | nil => simp [conjoin_last]
  | cons w rest ih =>
    rw [conjoin_cons]
    split
    · simp
    · have := ih (narrow P key acc).toList w
      simp only [List.length_cons]
      omega

theorem exists_or_mem (acc : List Bytes) : ∃ d, acc = [] ∨ d ∈ acc := by
  cases acc with
  | nil => exact ⟨[], .inl rfl⟩
  | cons a _ => exact ⟨a, .inr List.mem_cons_self⟩

theorem conjoin_meets_before (acc : List Bytes) (key : Bytes) (rem : List Bytes) :
    ∀ k < (conjoin P acc (key :: rem)).1, ∃ d, (acc = [] ∨ d ∈ acc) ∧
      ∀ t ∈ (key :: rem).take k, d ∈ (P t).toList := by
  induction rem generalizing key acc with
  | nil =>
    intro k hk
    rw [conjoin_last] at hk
    obtain ⟨d, hd⟩ := exists_or_mem acc
    exact ⟨d, hd, by simp [show k = 0 by omega]⟩
  | cons w rest ih =>
    intro k hk
    rw [conjoin_cons] at hk
    split at hk
    · obtain ⟨d, hd⟩ := exists_or_mem acc
      exact ⟨d, hd, by simp [show k = 0 by omega]⟩
    · next hr =>
      cases k with
      | zero =>
        obtain ⟨d, hd⟩ := exists_or_mem acc
        exact ⟨d, hd, by simp⟩
      | succ k =>
        obtain ⟨d, hd, hall⟩ := ih (narrow P key acc).toList w k (by omega)
        have hdr : d ∈ (narrow P key acc).toList := hd.resolve_left hr
        rw [mem_narrow] at hdr
        refine ⟨d, hdr.1, ?_⟩
        simp only [List.take_succ_cons, List.forall_mem_cons]
        exact ⟨hdr.2, hall⟩

theorem conjoin_stops (acc : List Bytes) (key : Bytes) (rem : List Bytes) :
    (conjoin P acc (key :: rem)).1 < rem.length + 1 → ∀ d, (acc = [] ∨ d ∈ acc) →
      ∃ t ∈ (key :: rem).take (conjoin P acc (key :: rem)).1, d ∉ (P t).toList := by
  induction rem generalizing key acc with
  | nil =>
    intro h
    rw [conjoin_last] at h
    simp at h
  | cons w rest ih =>
    intro h d hd
    rw [conjoin_cons] at h ⊢
    split at h
    · next hr =>
      rw [if_pos hr]
      have hnot : d ∉ (narrow P key acc).toList := by
        rw [hr]
        exact List.not_mem_nil
      rw [mem_narrow] at hnot
      exact ⟨key, by simp, fun hk => hnot ⟨hd, hk⟩⟩
    · next hr =>
      rw [if_neg hr]
      by_cases hk : d ∈ (P key).toList
      · -- the document is matched here, so a later term drops it
        have hdr : d ∈ (narrow P key acc).toList := (mem_narrow P).2 ⟨hd, hk⟩
        obtain ⟨t, ht, hnt⟩ := ih (narrow P key acc).toList w (by simp at h ⊢; omega) d (.inr hdr)
        exact ⟨t, by simp only [List.take_succ_cons]; exact List.mem_cons_of_mem _ ht, hnt⟩
      · exact ⟨key, by simp, hk⟩

theorem mem_conjoin_nil (Q : List Bytes) (d : Bytes) :
    d ∈ (conjoin P [] Q).2 ↔ Q ≠ [] ∧ ∀ t ∈ Q, d ∈ (P t).toList := by
  cases Q with
  | nil => simp [conjoin]
  | cons key rem => simp [mem_conjoin]

theorem conjoin_nil_sorted (Q : List Bytes) :
    (conjoin P [] Q).2.Pairwise fun a b => Bytes.lexLt a b = true := by
  cases Q with
  | nil => exact List.Pairwise.nil
  | cons key rem => exact conjoin_sorted P [] key rem

theorem conjoin_nil_visits (Q : List Bytes) :
    (conjoin P [] Q).1 ≤ Q.length ∧
    (∀ k < (conjoin P [] Q).1, ∃ d, ∀ t ∈ Q.take k, d ∈ (P t).toList) ∧
    ((conjoin P [] Q).1 < Q.length → ∀ d, ∃ t ∈ Q.take (conjoin P [] Q).1, d ∉ (P t).toList) := by
  cases Q with
  | nil => simp [conjoin]
  | cons key rem =>
    refine ⟨(conjoin_visits_le P [] key rem).2, fun k hk => ?_, fun h d => ?_⟩
    · obtain ⟨d, -, hd⟩ := conjoin_meets_before P [] key rem k hk
      exact ⟨d, hd⟩
    · exact conjoin_stops P [] key rem h d (.inl rfl)


/-! ### A fetch is one step of the fold -/

theorem fetchStep_congr {P₁ P₂ : Bytes → DocSet} {key : Bytes} (h : key ≠ [] → P₁ key = P₂ key)
    (rem acc : List Bytes) : fetchStep P₁ key rem acc = fetchStep P₂ key rem acc := by
  by_cases hk : key = []
  · simp [fetchStep, hk]
  · simp [fetchStep, narrow, h hk]

theorem popTerm_sorted {w : Bytes} {rest : List Bytes}
    (h : (w :: rest).Pairwise fun a b => Bytes.lexLt a b = true) :
    popTerm (w :: rest) = (w, rest) := by
  simp [popTerm, DocSet.toList_ofList_of_sorted h]

theorem fetchStep_last {key : Bytes} (hkey : key ≠ []) (acc : List Bytes) :
    fetchStep P key [] acc = .answer (narrow P key acc).toList := by
  simp [fetchStep, hkey]

theorem fetchStep_cons {key w : Bytes} {rest : List Bytes} (hkey : key ≠ [])
    (hs : (w :: rest).Pairwise fun a b => Bytes.lexLt a b = true) (acc : List Bytes) :
    fetchStep P key (w :: rest) acc =
      if (narrow P key acc).toList = [] then .answer []
      else .carry w rest (narrow P key acc).toList := by
  by_cases hr : (narrow P key acc).toList = [] <;>
    simp [fetchStep, hkey, DocSet.isEmpty, hr, popTerm_sorted hs]

theorem fetchStep_entry_nil (acc : List Bytes) : fetchStep P [] [] acc = .answer [] := by
  simp [fetchStep]

theorem fetchStep_entry_cons {w : Bytes} {rest : List Bytes}
    (hs : (w :: rest).Pairwise fun a b => Bytes.lexLt a b = true) (acc : List Bytes) :
    fetchStep P [] (w :: rest) acc = .carry w rest [] := by
  simp [fetchStep, popTerm_sorted hs]

end ChordSearch.Search
