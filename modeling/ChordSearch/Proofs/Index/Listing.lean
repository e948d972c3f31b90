import Mathlib.Data.List.TakeWhile
import ChordSearch.Proofs.Text.Glyphs
import ChordSearch.Proofs.Index.TermMap

/-! # Reading an index listing

A listing is read line by line. After trimming, a line that is empty or starts with `#` is
skipped; any other line is an entry (`IsEntry`). An entry with a single field names a document
without terms (`Bare`), and reading stops at the first such line with an error naming it.
Otherwise every entry lists its first field as a document under the normal form of each later
field (`Lists`).

* `normalize_of_mem_fields`: the normal form of a field is never empty, so no listed term is
  skipped.
* `Index.holds_add`, `Index.WellFormed.add`: adding a document under terms.
* `Index.addLine_ok`, `Index.addLine_bare`: one line.
* `Index.addLines_ok`, `Index.addLines_bare`: the lines, up to the first bare entry.
* `Lines.split_of_fits`: reading never stops early when every line fits the buffer.
* `Index.parse_grammar`: a listing whose lines, each counted with its carriage return, fit
  the buffer reads exactly as its entries say, or fails at its first bare entry.

The buffer holds a line with its carriage return: a line of 65535 bytes followed by a carriage
return and a line feed cannot be read (`Index.parse_refuses_line_before_cr`).
-/

namespace ChordSearch

theorem normalize_of_mem_fields {f b : Bytes} (hf : f ∈ Text.fields b) : normalize f ≠ [] := by
  rw [normalize, Text.trim_of_mem_fields hf]
  refine Text.lower_ne_nil fun hnil => ?_
  have hne := (Text.decode_of_mem_fields hf).1
  rw [hnil, Utf8.decode_nil] at hne
  exact hne rfl

namespace TermMap

/-- No term of the map has empty postings. -/
def Occupied (m : TermMap) : Prop := ∀ e ∈ m.entries, e.2.toList ≠ []

theorem Occupied.add {m : TermMap} (h : m.Occupied) {term : Bytes} {docs : DocSet}
    (hd : docs.toList ≠ []) : (m.add term docs).Occupied := by
  intro e he
  rcases mem_addTo he with he | rfl | ⟨d, -, rfl⟩
  · exact h e he
  · exact hd
  · obtain ⟨x, hx⟩ := List.exists_mem_of_ne_nil _ hd
    exact List.ne_nil_of_mem (DocSet.mem_union.2 (.inr hx))

theorem Occupied.holds_of_mem_terms {m : TermMap} (h : m.Occupied) {t : Bytes}
    (ht : t ∈ m.terms) : ∃ x, m.Holds t x := by
  obtain ⟨⟨t', d⟩, he, rfl⟩ := List.mem_map.1 ht
  obtain ⟨x, hx⟩ := List.exists_mem_of_ne_nil _ (h _ he)
  exact ⟨x, d, he, hx⟩

end TermMap

namespace Index

/-- An index whose terms ascend and none of whose terms has empty postings. -/
structure WellFormed (ix : Index) : Prop where
  ascending : ix.map.Ascending
  occupied : ix.map.Occupied

theorem wellFormed_empty : empty.WellFormed := ⟨List.Pairwise.nil, nofun⟩

theorem add_cons (ix : Index) (doc f : Bytes) (fs : List Bytes) :
    ix.add doc (f :: fs) =
      (if (normalize f).isEmpty then ix
        else ⟨ix.map.add (normalize f) (DocSet.empty.insert doc)⟩).add doc fs := rfl

theorem holds_add (ix : Index) (doc : Bytes) (terms : List Bytes) {t x : Bytes} :
    (ix.add doc terms).map.Holds t x ↔
      ix.map.Holds t x ∨ (x = doc ∧ t ≠ [] ∧ ∃ f ∈ terms, normalize f = t) := by
  induction terms generalizing ix with
  | nil => simp [add]
  | cons f fs ih =>
    rw [add_cons, ih]
    split
    · rename_i hempty
      have hnil : normalize f = [] := List.isEmpty_iff.1 hempty
      constructor
      · rintro (h | ⟨rfl, hne, g, hg, rfl⟩)
        · exact .inl h
        · exact .inr ⟨rfl, hne, g, List.mem_cons_of_mem _ hg, rfl⟩
      · rintro (h | ⟨rfl, hne, g, hg, rfl⟩)
        · exact .inl h
        · rcases List.mem_cons.1 hg with rfl | hg
          · exact absurd hnil hne
          · exact .inr ⟨rfl, hne, g, hg, rfl⟩
    · rename_i hne
      have hne : normalize f ≠ [] := fun h => hne (List.isEmpty_iff.2 h)
      simp only [TermMap.add, TermMap.holds_addTo, DocSet.mem_insert, DocSet.empty,
        List.not_mem_nil, or_false, List.mem_cons]
      constructor
      · rintro ((h | ⟨rfl, rfl⟩) | ⟨rfl, hne', g, hg, rfl⟩)
        · exact .inl h
        · exact .inr ⟨rfl, hne, f, .inl rfl, rfl⟩
        · exact .inr ⟨rfl, hne', g, .inr hg, rfl⟩
      · rintro (h | ⟨rfl, hne', g, rfl | hg, rfl⟩)
        · exact .inl (.inl h)
        · exact .inl (.inr ⟨rfl, rfl⟩)
        · exact .inr ⟨rfl, hne', g, hg, rfl⟩

theorem WellFormed.add {ix : Index} (h : ix.WellFormed) (doc : Bytes) (terms : List Bytes) :
    (ix.add doc terms).WellFormed := by
  induction terms generalizing ix with
  | nil => exact h
  | cons f fs ih =>
    rw [add_cons]
    apply ih
    split
    · exact h
    · exact ⟨h.ascending.add, h.occupied.add (List.ne_nil_of_mem (DocSet.mem_insert.2 (.inl rfl)))⟩

/-! ### The grammar of a line -/

/-- A line read as an entry: once trimmed, neither empty nor a comment. -/
def IsEntry (line : Bytes) : Prop := Text.trim line ≠ [] ∧ (Text.trim line).head? ≠ some 35

/-- An entry naming a document and no term. -/
def Bare (line : Bytes) : Prop := IsEntry line ∧ (Text.fields (Text.trim line)).length = 1

/-- The line lists document `d` under term `t`: an entry whose first field is `d` and one of
whose later fields has normal form `t`. -/
def Lists (line d t : Bytes) : Prop :=
  IsEntry line ∧ ∃ fs, Text.fields (Text.trim line) = d :: fs ∧ ∃ f ∈ fs, normalize f = t

instance (line : Bytes) : Decidable (IsEntry line) := inferInstanceAs (Decidable (_ ∧ _))

instance (line : Bytes) : Decidable (Bare line) := inferInstanceAs (Decidable (_ ∧ _))

theorem isEntry_iff_not_skipped (line : Bytes) :
    IsEntry line ↔ ¬ ((Text.trim line).isEmpty = true ∨ (Text.trim line).head? = some 35) := by
  simp [IsEntry, List.isEmpty_iff]

theorem lists_iff {line d0 x t : Bytes} {fs : List Bytes} (hl : IsEntry line)
    (hf : Text.fields (Text.trim line) = d0 :: fs) :
    Lists line x t ↔ x = d0 ∧ ∃ f ∈ fs, normalize f = t := by
  simp only [Lists, hl, hf, List.cons.injEq, true_and]
  constructor
  · rintro ⟨fs', ⟨rfl, rfl⟩, h⟩
    exact ⟨rfl, h⟩
  · rintro ⟨rfl, h⟩
    exact ⟨fs, ⟨rfl, rfl⟩, h⟩

theorem addLine_bare {ix : Index} {n : Nat} {line doc : Bytes} (hl : IsEntry line)
    (hf : Text.fields (Text.trim line) = [doc]) : ix.addLine n line = .error (.noTerms n doc) := by
  simp only [addLine, if_neg ((isEntry_iff_not_skipped line).1 hl), hf]

theorem addLine_ok (ix : Index) (n : Nat) {line : Bytes} (hb : ¬ Bare line) :
    ∃ ix', ix.addLine n line = .ok ix' ∧ (ix.WellFormed → ix'.WellFormed) ∧
      ∀ t x, ix'.map.Holds t x ↔ ix.map.Holds t x ∨ Lists line x t := by
  dsimp only [addLine]
  split
  · -- skipped: it lists nothing
    rename_i hskip
    have hl : ¬ IsEntry line := fun hl => (isEntry_iff_not_skipped line).1 hl hskip
    exact ⟨ix, rfl, id, fun t x => by simp [Lists, hl]⟩
  · rename_i hentry
    have hl : IsEntry line := (isEntry_iff_not_skipped line).2 hentry
    split
    · rename_i doc f fs hf
      refine ⟨ix.add doc (f :: fs), rfl, fun h => h.add _ _, fun t x => ?_⟩
      have hne : ∀ g ∈ f :: fs, normalize g ≠ [] := fun g hg =>
        normalize_of_mem_fields (hf ▸ List.mem_cons_of_mem doc hg)
      rw [holds_add, lists_iff hl hf]
      constructor
      · rintro (h | ⟨rfl, -, g, hg, rfl⟩)
        · exact .inl h
        · exact .inr ⟨rfl, g, hg, rfl⟩
      · rintro (h | ⟨rfl, g, hg, rfl⟩)
        · exact .inl h
        · exact .inr ⟨rfl, hne g hg, g, hg, rfl⟩
    · rename_i doc hf
      exact absurd ⟨hl, by simp [hf]⟩ hb
    · rename_i hf
      exact ⟨ix, rfl, id, fun t x => by simp [Lists, hf]⟩

/-! ### The lines of a listing -/

theorem addLines_bare {ix : Index} {n : Nat} {pre : List Bytes} {line doc : Bytes}
    (post : List Bytes) (hpre : ∀ l ∈ pre, ¬ Bare l) (hl : IsEntry line)
    (hf : Text.fields (Text.trim line) = [doc]) :
    addLines ix n (pre ++ line :: post) = .error (.noTerms (n + pre.length) doc) := by
  induction pre generalizing ix n with
  | nil => simp [addLines, addLine_bare hl hf, bind, Except.bind]
  | cons l pre ih =>
    obtain ⟨ix', hix', -, -⟩ := addLine_ok ix n (hpre l List.mem_cons_self)
    simp only [List.cons_append, addLines, hix', bind, Except.bind]
    rw [ih fun l hl => hpre l (List.mem_cons_of_mem _ hl)]
    simp only [List.length_cons, Except.error.injEq, ListingError.noTerms.injEq, and_true]
    omega

theorem addLines_ok (ix : Index) (n : Nat) {ls : List Bytes} (hls : ∀ l ∈ ls, ¬ Bare l) :
    ∃ ix', addLines ix n ls = .ok ix' ∧ (ix.WellFormed → ix'.WellFormed) ∧
      ∀ t x, ix'.map.Holds t x ↔ ix.map.Holds t x ∨ ∃ l ∈ ls, Lists l x t := by
  induction ls generalizing ix n with
  | nil => exact ⟨ix, rfl, id, by simp⟩
  | cons l ls ih =>
    obtain ⟨ix₁, h₁, hw₁, hh₁⟩ := addLine_ok ix n (hls l List.mem_cons_self)
    obtain ⟨ix₂, h₂, hw₂, hh₂⟩ :=
      ih ix₁ (n + 1) fun l' hl' => hls l' (List.mem_cons_of_mem _ hl')
    refine ⟨ix₂, by simp [addLines, h₁, h₂, bind, Except.bind], hw₂ ∘ hw₁, fun t x => ?_⟩
    rw [hh₂, hh₁]
    simp [or_assoc]

theorem exists_first_bare {ls : List Bytes} (h : ∃ l ∈ ls, Bare l) :
    ∃ pre line post, ls = pre ++ line :: post ∧ (∀ l ∈ pre, ¬ Bare l) ∧ Bare line := by
  obtain ⟨l, hl, hb⟩ := h
  obtain ⟨line, hf⟩ := Option.isSome_iff_exists.1
    (List.find?_isSome.2 ⟨l, hl, decide_eq_true hb⟩ : (ls.find? fun l => decide (Bare l)).isSome)
  obtain ⟨hline, pre, post, rfl, hpre⟩ := List.find?_eq_some_iff_append.1 hf
  exact ⟨pre, line, post, rfl, fun l hl => by simpa using hpre l hl, of_decide_eq_true hline⟩

end Index

namespace Lines

theorem split_of_fits {text : Bytes} (h : ∀ s ∈ segments text, s.length < maxLine) :
    (split text).2 = false := by
  have hall : ∀ segs : List Bytes, (∀ s ∈ segs, s.length < maxLine) →
      decide ((segs.takeWhile (·.length < maxLine)).length < segs.length) = false := by
    intro segs hs
    rw [List.takeWhile_eq_self_iff.2 fun s hs' => decide_eq_true (hs s hs')]
    simp
  simp only [split]
  split
  · exact hall _ fun s hs => h s (List.dropLast_subset _ hs)
  · exact hall _ h

theorem segmentsOnto_append {done : List Bytes} {cur b : Bytes} (rest : Bytes) (h : 10 ∉ b) :
    segmentsOnto done cur (b ++ rest) = segmentsOnto done (b.reverse ++ cur) rest := by
  induction b generalizing cur with
  | nil => rfl
  | cons c b ih =>
    have hc : c ≠ 10 := fun hc => h (hc ▸ List.mem_cons_self)
    rw [List.cons_append, segmentsOnto, if_neg hc, ih fun hb => h (List.mem_cons_of_mem _ hb)]
    simp

theorem segments_line {s : Bytes} (h : 10 ∉ s) : segments (s ++ [10]) = [s, []] := by
  rw [segments, segmentsOnto_append _ h]
  simp [segmentsOnto]

theorem split_line_too_long {s : Bytes} (h : 10 ∉ s) (hlong : maxLine ≤ s.length) :
    split (s ++ [10]) = ([], true) := by
  simp [split, segments_line h, Nat.not_lt.2 hlong]

end Lines

namespace Index

theorem parse_of_fits {text : Bytes} (h : ∀ s ∈ Lines.segments text, s.length < Lines.maxLine) :
    parse text = addLines empty 1 (Lines.split text).1 := by
  have hs := Lines.split_of_fits h
  rcases hsplit : Lines.split text with ⟨lines, stopped⟩
  rw [hsplit] at hs
  cases hs
  simp only [parse, hsplit, bind, Except.bind]
  cases addLines empty 1 lines <;> rfl

/-- A listing whose lines, each counted with its carriage return, fit the buffer is read
exactly by its grammar: it fails exactly when an entry is bare, naming the first bare entry's
line and document, and otherwise holds a document under a term exactly when an entry lists
it, with no empty term and no term without documents. -/
theorem parse_grammar (text : Bytes)
    (hfit : ∀ s ∈ Lines.segments text, s.length < Lines.maxLine) :
    let lines := (Lines.split text).1
    ((∃ ix, parse text = .ok ix) ↔ ∀ line ∈ lines, ¬ Bare line) ∧
    (∀ pre line post doc, lines = pre ++ line :: post → (∀ l ∈ pre, ¬ Bare l) → IsEntry line →
      Text.fields (Text.trim line) = [doc] →
      parse text = .error (.noTerms (pre.length + 1) doc)) ∧
    ∀ ix, parse text = .ok ix →
      (∀ d t, d ∈ (ix.map.postings t).toList ↔ ∃ line ∈ lines, Lists line d t) ∧
      ∀ t ∈ ix.terms, t ≠ [] ∧ (ix.map.postings t).toList ≠ [] := by
  intro lines
  rw [parse_of_fits hfit]
  have hbare : ∀ pre line post doc, lines = pre ++ line :: post → (∀ l ∈ pre, ¬ Bare l) →
      IsEntry line → Text.fields (Text.trim line) = [doc] →
      addLines empty 1 lines = .error (.noTerms (pre.length + 1) doc) := by
    rintro pre line post doc hl hpre he hf
    rw [hl, addLines_bare post hpre he hf, Nat.add_comm]
  -- a listing that is read has no bare entry: the first one would stop reading
  have hclean : ∀ ix, addLines empty 1 lines = .ok ix → ∀ line ∈ lines, ¬ Bare line := by
    intro ix hix line hl hb
    obtain ⟨pre, line', post, hsplit, hpre, he, hone⟩ := exists_first_bare ⟨line, hl, hb⟩
    obtain ⟨doc, hdoc⟩ := List.length_eq_one_iff.1 hone
    rw [hbare pre line' post doc hsplit hpre he hdoc] at hix
    cases hix
  refine ⟨⟨fun ⟨ix, hix⟩ => hclean ix hix, fun h => ?_⟩, hbare, fun ix hix => ?_⟩
  · obtain ⟨ix, hix, -⟩ := addLines_ok empty 1 h
    exact ⟨ix, hix⟩
  · obtain ⟨ix', hix', hwf, hholds⟩ := addLines_ok empty 1 (hclean ix hix)
    rw [hix] at hix'
    cases hix'
    have hwf := hwf wellFormed_empty
    -- what the index holds is exactly what the lines list
    have hlists : ∀ d t, ix.map.Holds t d ↔ ∃ line ∈ lines, Lists line d t := fun d t => by
      simpa [empty, TermMap.empty, TermMap.Holds] using hholds t d
    refine ⟨fun d t => (TermMap.holds_iff_postings hwf.ascending).symm.trans (hlists d t),
      fun t ht => ?_⟩
    obtain ⟨x, hx⟩ := hwf.occupied.holds_of_mem_terms ht
    obtain ⟨line, -, hl, fs, hf, f, hfs, rfl⟩ := (hlists x _).1 hx
    exact ⟨normalize_of_mem_fields (hf ▸ List.mem_cons_of_mem x hfs),
      List.ne_nil_of_mem ((TermMap.holds_iff_postings hwf.ascending).1 hx)⟩

/-- Two entries and a comment. -/
def fruitListing : Bytes := Bytes.ofString "d1 Apple pie\n# fruit\nd2 apple\n"

theorem parse_grammar_fruitListing :
    (∀ s ∈ Lines.segments fruitListing, s.length < Lines.maxLine) ∧
    let lines := (Lines.split fruitListing).1
    ((∃ ix, parse fruitListing = .ok ix) ↔ ∀ line ∈ lines, ¬ Bare line) ∧
    (∀ pre line post doc, lines = pre ++ line :: post → (∀ l ∈ pre, ¬ Bare l) → IsEntry line →
      Text.fields (Text.trim line) = [doc] →
      parse fruitListing = .error (.noTerms (pre.length + 1) doc)) ∧
    ∀ ix, parse fruitListing = .ok ix →
      (∀ d t, d ∈ (ix.map.postings t).toList ↔ ∃ line ∈ lines, Lists line d t) ∧
      ∀ t ∈ ix.terms, t ≠ [] ∧ (ix.map.postings t).toList ≠ [] := by
  have hfit : ∀ s ∈ Lines.segments fruitListing, s.length < Lines.maxLine := by decide +kernel
  exact ⟨hfit, parse_grammar fruitListing hfit⟩

/-- A listing of one line of 65535 bytes and a carriage return before its line feed: the
line fits, counted without its carriage return, but the buffer fills before the line feed
and reading stops. -/
theorem parse_refuses_line_before_cr :
    let text : Bytes := [100] ++ (List.replicate 32767 [32, 116]).flatten ++ [13, 10]
    (∀ s ∈ Lines.segments text, (Lines.dropCR s).length ≤ 65535) ∧
      parse text = .error .lineTooLong := by
  intro text
  -- the 32767 pairs stay folded: only their length and their bytes matter
  obtain ⟨F, hF⟩ : ∃ F : Bytes, (List.replicate 32767 [32, 116]).flatten = F := ⟨_, rfl⟩
  have hpairs : ∀ n, ((List.replicate n [(32 : UInt8), 116]).flatten).length = 2 * n := by
    intro n
    induction n with
    | zero => rfl
    | succ n ih =>
      rw [List.replicate_succ, List.flatten_cons, List.length_append, ih]
      simp only [List.length_cons, List.length_nil]
      omega
  have hFlen : F.length = 65534 := by rw [← hF, hpairs]
  have hFlf : 10 ∉ F := by
    rw [← hF]
    simp only [List.mem_flatten, List.mem_replicate]
    rintro ⟨l, ⟨-, rfl⟩, hl⟩
    simp at hl
  have htext : text = ([100] ++ F ++ [13]) ++ [10] := by
    simp only [text, hF, List.append_assoc, List.cons_append, List.nil_append]
  have hlf : 10 ∉ [100] ++ F ++ [13] := by simp [hFlf]
  have hlen : ([100] ++ F ++ [13]).length = 65536 := by simp [hFlen]
  refine ⟨?_, ?_⟩
  · rw [htext, Lines.segments_line hlf]
    have hcr : Lines.dropCR ([100] ++ F ++ [13]) = [100] ++ F := by
      rw [Lines.dropCR, List.getLast?_concat, if_pos rfl, List.dropLast_concat]
    intro seg hseg
    rcases List.mem_pair.1 hseg with rfl | rfl
    · rw [hcr, List.length_append, hFlen]
      decide
    · decide
  · rw [htext]
    simp only [parse, Lines.split_line_too_long hlf (by rw [hlen]; decide), addLines, bind,
      Except.bind, if_true]

end Index

end ChordSearch
