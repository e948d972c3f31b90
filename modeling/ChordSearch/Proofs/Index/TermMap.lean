import ChordSearch.Index.TermMap
import ChordSearch.Index.Listing
import ChordSearch.Proofs.Index.Canonical

/-! # What a term map holds

A term map holds a posting `(term, doc)` when one of its entries for `term` has `doc`
(`TermMap.Holds`). Adding documents keeps every posting and adds the new ones, erasing a term
drops exactly that term's postings, splitting a map shares its postings between the two
parts, and merging holds the postings of both maps.

The map's terms are kept strictly ascending (`TermMap.Ascending`); every operation keeps that
order, so a term has one entry, and what `find?` and `postings` read for a term is all the
map holds for it (`holds_iff_postings`).
-/

namespace ChordSearch

namespace DocSet

@[simp] theorem mem_union {d : Bytes} {s t : DocSet} :
    d ∈ (s.union t).toList ↔ d ∈ s.toList ∨ d ∈ t.toList := by
  simp [union, mem_foldl_insert]

theorem nodup (s : DocSet) : s.toList.Nodup :=
  s.sorted.imp fun h heq => by subst heq; simp [Bytes.lexLt_irrefl] at h

end DocSet

namespace TermMap

/-- `term` has `doc` among the postings of one of its entries. -/
def Holds (m : TermMap) (term doc : Bytes) : Prop :=
  ∃ d, (term, d) ∈ m.entries ∧ doc ∈ d.toList

/-- The terms are strictly ascending. -/
def Ascending (m : TermMap) : Prop :=
  (m.entries.map (·.1)).Pairwise fun a b => Bytes.lexLt a b = true

variable {term t : Bytes} {doc x : Bytes} {docs : DocSet}

/-! ### Adding documents -/

theorem holds_addTo (l : List (Bytes × DocSet)) :
    (⟨addTo term docs l⟩ : TermMap).Holds t x ↔
      (⟨l⟩ : TermMap).Holds t x ∨ (t = term ∧ x ∈ docs.toList) := by
  induction l with
  | nil => simp [addTo, Holds]
  | cons e l ih =>
    obtain ⟨t₀, d₀⟩ := e
    simp only [Holds] at ih
    simp only [addTo]
    split
    · simp only [Holds, List.mem_cons, Prod.mk.injEq]
      constructor
      · rintro ⟨d, (⟨rfl, rfl⟩ | ⟨rfl, rfl⟩ | hd), hx⟩
        · exact .inr ⟨rfl, hx⟩
        · exact .inl ⟨d, .inl ⟨rfl, rfl⟩, hx⟩
        · exact .inl ⟨d, .inr hd, hx⟩
      · rintro (⟨d, (⟨rfl, rfl⟩ | hd), hx⟩ | ⟨rfl, hx⟩)
        · exact ⟨d, .inr (.inl ⟨rfl, rfl⟩), hx⟩
        · exact ⟨d, .inr (.inr hd), hx⟩
        · exact ⟨docs, .inl ⟨rfl, rfl⟩, hx⟩
    · split
      · -- the term's entry takes the union
        next heq =>
        subst heq
        simp only [Holds, List.mem_cons, Prod.mk.injEq]
        constructor
        · rintro ⟨d, (⟨rfl, rfl⟩ | hd), hx⟩
          · rcases DocSet.mem_union.1 hx with hx | hx
            · exact .inl ⟨d₀, .inl ⟨rfl, rfl⟩, hx⟩
            · exact .inr ⟨rfl, hx⟩
          · exact .inl ⟨d, .inr hd, hx⟩
        · rintro (⟨d, (⟨rfl, rfl⟩ | hd), hx⟩ | ⟨rfl, hx⟩)
          · exact ⟨_, .inl ⟨rfl, rfl⟩, DocSet.mem_union.2 (.inl hx)⟩
          · exact ⟨d, .inr hd, hx⟩
          · exact ⟨_, .inl ⟨rfl, rfl⟩, DocSet.mem_union.2 (.inr hx)⟩
      · simp only [Holds, List.mem_cons, Prod.mk.injEq]
        constructor
        · rintro ⟨d, (⟨rfl, rfl⟩ | hd), hx⟩
          · exact .inl ⟨d, .inl ⟨rfl, rfl⟩, hx⟩
          · exact (ih.1 ⟨d, hd, hx⟩).imp (fun ⟨d, hd, hx⟩ => ⟨d, .inr hd, hx⟩) id
        · rintro (⟨d, (⟨rfl, rfl⟩ | hd), hx⟩ | h)
          · exact ⟨d, .inl ⟨rfl, rfl⟩, hx⟩
          · obtain ⟨d', hd', hx'⟩ := ih.2 (.inl ⟨d, hd, hx⟩)
            exact ⟨d', .inr hd', hx'⟩
          · obtain ⟨d', hd', hx'⟩ := ih.2 (.inr h)
            exact ⟨d', .inr hd', hx'⟩

@[simp] theorem holds_add (m : TermMap) :
    (m.add term docs).Holds t x ↔ m.Holds t x ∨ (t = term ∧ x ∈ docs.toList) :=
  holds_addTo m.entries

theorem mem_addTo {e : Bytes × DocSet} {l : List (Bytes × DocSet)} (h : e ∈ addTo term docs l) :
    e ∈ l ∨ e = (term, docs) ∨ ∃ d, (term, d) ∈ l ∧ e = (term, d.union docs) := by
  induction l with
  | nil => simpa [addTo] using h
  | cons e₀ l ih =>
    obtain ⟨t₀, d₀⟩ := e₀
    simp only [addTo] at h
    split at h
    · rcases List.mem_cons.1 h with rfl | h
      · exact .inr (.inl rfl)
      · exact .inl h
    · split at h
      · next heq =>
        subst heq
        rcases List.mem_cons.1 h with rfl | h
        · exact .inr (.inr ⟨d₀, List.mem_cons_self, rfl⟩)
        · exact .inl (List.mem_cons_of_mem _ h)
      · rcases List.mem_cons.1 h with rfl | h
        · exact .inl List.mem_cons_self
        · rcases ih h with h | h | ⟨d, hd, rfl⟩
          · exact .inl (List.mem_cons_of_mem _ h)
          · exact .inr (.inl h)
          · exact .inr (.inr ⟨d, List.mem_cons_of_mem _ hd, rfl⟩)

theorem mem_keys_addTo {k : Bytes} {l : List (Bytes × DocSet)}
    (h : k ∈ (addTo term docs l).map (·.1)) : k = term ∨ k ∈ l.map (·.1) := by
  obtain ⟨e, he, rfl⟩ := List.mem_map.1 h
  rcases mem_addTo he with he | rfl | ⟨d, -, rfl⟩
  · exact .inr (List.mem_map_of_mem he)
  · exact .inl rfl
  · exact .inl rfl

theorem ascending_addTo {l : List (Bytes × DocSet)} (h : (⟨l⟩ : TermMap).Ascending) :
    (⟨addTo term docs l⟩ : TermMap).Ascending := by
  unfold Ascending at h ⊢
  induction l with
  | nil => simp [addTo]
  | cons e l ih =>
    obtain ⟨t₀, d₀⟩ := e
    simp only [List.map_cons, List.pairwise_cons] at h
    simp only [addTo]
    split
    · next hlt =>
      simp only [List.map_cons, List.pairwise_cons, List.mem_cons]
      refine ⟨?_, h.1, h.2⟩
      rintro k (rfl | hk)
      · exact hlt
      · exact Bytes.lexLt_trans hlt (h.1 k hk)
    · next hlt =>
      split
      · next heq =>
        subst heq
        simpa using h
      · next hne =>
        have hgt : Bytes.lexLt t₀ term = true := by
          rcases Bytes.lexLt_total term t₀ with h' | h' | h'
          · exact absurd h' hlt
          · exact absurd h' hne
          · exact h'
        simp only [List.map_cons, List.pairwise_cons]
        refine ⟨fun k hk => ?_, ih h.2⟩
        rcases mem_keys_addTo hk with rfl | hk
        · exact hgt
        · exact h.1 k hk

theorem Ascending.add {m : TermMap} (h : m.Ascending) : (m.add term docs).Ascending :=
  ascending_addTo h

/-! ### Erasing, splitting and merging -/

@[simp] theorem holds_erase (m : TermMap) :
    (m.erase term).Holds t x ↔ t ≠ term ∧ m.Holds t x := by
  simp only [Holds, erase, List.mem_filter, bne_iff_ne, ne_eq]
  constructor
  · rintro ⟨d, ⟨hd, hne⟩, hx⟩
    exact ⟨hne, d, hd, hx⟩
  · rintro ⟨hne, d, hd, hx⟩
    exact ⟨d, ⟨hd, hne⟩, hx⟩

theorem Ascending.erase {m : TermMap} (h : m.Ascending) : (m.erase term).Ascending :=
  h.sublist ((List.filter_sublist ..).map _)

theorem partition_eq (m : TermMap) (keep : Bytes → Bool) :
    m.partition keep =
      (⟨m.entries.filter (keep ·.1)⟩, ⟨m.entries.filter fun e => !keep e.1⟩) := by
  simp [partition, List.partition_eq_filter_filter, Function.comp_def]

theorem Holds.partition {m : TermMap} (h : m.Holds t x) (keep : Bytes → Bool) :
    (m.partition keep).1.Holds t x ∨ (m.partition keep).2.Holds t x := by
  obtain ⟨d, hd, hx⟩ := h
  rw [partition_eq]
  cases hk : keep t
  · exact .inr ⟨d, List.mem_filter.2 ⟨hd, by simp [hk]⟩, hx⟩
  · exact .inl ⟨d, List.mem_filter.2 ⟨hd, hk⟩, hx⟩

theorem Ascending.partition {m : TermMap} (h : m.Ascending) (keep : Bytes → Bool) :
    (m.partition keep).1.Ascending ∧ (m.partition keep).2.Ascending := by
  rw [partition_eq]
  exact ⟨h.sublist ((List.filter_sublist ..).map _), h.sublist ((List.filter_sublist ..).map _)⟩

theorem holds_merge (m o : TermMap) : (m.merge o).Holds t x ↔ m.Holds t x ∨ o.Holds t x := by
  obtain ⟨l⟩ := o
  simp only [merge]
  induction l generalizing m with
  | nil => simp [Holds]
  | cons e l ih =>
    rw [List.foldl_cons, ih, holds_add]
    simp only [Holds, List.mem_cons]
    constructor
    · rintro ((h | ⟨rfl, hx⟩) | ⟨d, hd, hx⟩)
      · exact .inl h
      · exact .inr ⟨e.2, .inl rfl, hx⟩
      · exact .inr ⟨d, .inr hd, hx⟩
    · rintro (h | ⟨d, (he | hd), hx⟩)
      · exact .inl (.inl h)
      · subst he
        exact .inl (.inr ⟨rfl, hx⟩)
      · exact .inr ⟨d, hd, hx⟩

theorem Ascending.merge {m : TermMap} (h : m.Ascending) (o : TermMap) : (m.merge o).Ascending := by
  obtain ⟨l⟩ := o
  simp only [TermMap.merge]
  induction l generalizing m with
  | nil => exact h
  | cons e l ih => exact ih h.add

/-! ### Reading a term -/

theorem Ascending.eq_of_mem {m : TermMap} (h : m.Ascending) {d₁ d₂ : DocSet}
    (h₁ : (t, d₁) ∈ m.entries) (h₂ : (t, d₂) ∈ m.entries) : d₁ = d₂ := by
  obtain ⟨l⟩ := m
  unfold Ascending at h
  simp only at h h₁ h₂
  induction l with
  | nil => cases h₁
  | cons e l ih =>
    simp only [List.map_cons, List.pairwise_cons] at h
    have hlater : ∀ d, (t, d) ∈ l → e.1 ≠ t := fun d hd he =>
      absurd (h.1 t (List.mem_map.2 ⟨(t, d), hd, rfl⟩)) (by rw [he, Bytes.lexLt_irrefl]; simp)
    rcases List.mem_cons.1 h₁ with rfl | h₁' <;> rcases List.mem_cons.1 h₂ with he | h₂'
    · exact (Prod.mk.inj he).2.symm
    · exact absurd rfl (hlater d₂ h₂')
    · exact absurd (by rw [← he]) (hlater d₁ h₁')
    · exact ih h.2 h₁' h₂'

theorem mem_of_find? {m : TermMap} (hf : m.find? t = some docs) : (t, docs) ∈ m.entries := by
  obtain ⟨⟨t', d'⟩, he, rfl⟩ := Option.map_eq_some_iff.1 hf
  have hte : t' = t := by simpa using List.find?_some he
  subst hte
  exact List.mem_of_find?_eq_some he

theorem holds_of_find? {m : TermMap} (h : m.Ascending) (hf : m.find? t = some docs) :
    m.Holds t x ↔ x ∈ docs.toList := by
  have hmem := mem_of_find? hf
  constructor
  · rintro ⟨d, hd, hx⟩
    rwa [h.eq_of_mem hd hmem] at hx
  · exact fun hx => ⟨docs, hmem, hx⟩

theorem find?_eq_none {m : TermMap} (hf : m.find? t = none) : ¬ m.Holds t x := by
  rintro ⟨d, hd, -⟩
  have hn := List.find?_eq_none.1 (Option.map_eq_none_iff.1 hf) _ hd
  simp at hn

theorem holds_iff_postings {m : TermMap} (h : m.Ascending) :
    m.Holds t x ↔ x ∈ (m.postings t).toList := by
  unfold postings
  cases hf : m.find? t with
  | none => simp [find?_eq_none hf, DocSet.empty]
  | some d => exact holds_of_find? h hf

theorem holds_of_mem_postings {m : TermMap} (hx : x ∈ (m.postings t).toList) : m.Holds t x := by
  unfold postings at hx
  cases hf : m.find? t with
  | none => simp [hf, DocSet.empty] at hx
  | some d =>
    rw [hf] at hx
    exact ⟨d, mem_of_find? hf, hx⟩

theorem mem_terms_iff {m : TermMap} : t ∈ m.terms ↔ (m.find? t).isSome := by
  simp [terms, find?, List.find?_isSome]

theorem find?_filter_term (m : TermMap) (p : Bytes → Bool) (t : Bytes) :
    (⟨m.entries.filter (p ·.1)⟩ : TermMap).find? t = if p t then m.find? t else none := by
  simp only [find?, List.find?_filter]
  split
  · next hp =>
    congr 2
    funext e
    by_cases he : e.1 = t
    · simp [he, hp]
    · simp [he]
  · next hp =>
    rw [List.find?_eq_none.2 fun e _ => by by_cases he : e.1 = t <;> simp_all]
    rfl

theorem find?_partition_fst (m : TermMap) (keep : Bytes → Bool) (t : Bytes) :
    (m.partition keep).1.find? t = if keep t then m.find? t else none := by
  rw [partition_eq, find?_filter_term]

theorem find?_partition_snd (m : TermMap) (keep : Bytes → Bool) (t : Bytes) :
    (m.partition keep).2.find? t = if keep t then none else m.find? t := by
  rw [partition_eq]
  exact (find?_filter_term m (fun x => !keep x) t).trans (by cases keep t <;> rfl)

end TermMap

theorem Store.extractNotOwned_eq (s : Store) (pred self : RingId) :
    s.extractNotOwned pred self =
      (⟨(s.map.partition fun t => Arc.owns pred (RingId.hash t) self).1⟩,
        (s.map.partition fun t => Arc.owns pred (RingId.hash t) self).2) := rfl

namespace Store

variable (s : Store) (pred self : RingId) (t : Bytes)

/-! ### Rehoming splits the store

A node at `self` with predecessor `pred` keeps a term's entry whole when it owns the term and
hands the entry on whole otherwise; nothing else happens to the entry. -/

theorem find?_kept : (s.extractNotOwned pred self).1.map.find? t =
    if Arc.owns pred (RingId.hash t) self then s.map.find? t else none := by
  rw [extractNotOwned_eq]
  exact TermMap.find?_partition_fst s.map (fun t => Arc.owns pred (RingId.hash t) self) t

theorem find?_moved : (s.extractNotOwned pred self).2.find? t =
    if Arc.owns pred (RingId.hash t) self then none else s.map.find? t := by
  rw [extractNotOwned_eq]
  exact TermMap.find?_partition_snd s.map (fun t => Arc.owns pred (RingId.hash t) self) t

theorem mem_kept_terms : t ∈ (s.extractNotOwned pred self).1.terms ↔
    t ∈ s.terms ∧ Arc.owns pred (RingId.hash t) self = true := by
  simp only [terms, TermMap.mem_terms_iff, find?_kept]
  split <;> simp_all

theorem mem_moved_terms : t ∈ (s.extractNotOwned pred self).2.terms ↔
    t ∈ s.terms ∧ Arc.owns pred (RingId.hash t) self = false := by
  simp only [terms, TermMap.mem_terms_iff, find?_moved]
  split <;> simp_all

end Store

end ChordSearch
