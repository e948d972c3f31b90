import Mathlib.Data.List.Perm.Basic
import Mathlib.Data.List.Nodup
import ChordSearch.Net.Directory

/-! # Building the directory from a table

A table lists decimal keys with address texts. Building the directory reads every entry
(`readEntries`), inserts the entries by number, a later entry for a number replacing an earlier
one (`insertEntry`), and then refuses an address that is not IPv4 or that two numbers share.

Two keys can name one number (`1` and `01`), and then the entry that survives depends on the
order the table is read in; so may the refusal of a shared address. When no two keys name one
number, the order does not matter and nothing is lost:

* `readEntries_ok_iff`: reading succeeds with `es` exactly when `es` is the table read entry
  by entry (`Reads`), so reading a reordered table gives the same entries reordered.
* `insertEntry_perm`, `sorted_insertEntry`, `foldl_insertEntry_perm`: inserting entries whose
  numbers are new sorts them by number and keeps every one.
* `firstShared_eq_none`: no refusal for a shared address means the addresses are distinct.
* `Directory.ofTable_exact`: for a table whose keys name distinct numbers, reading it in any
  order gives the same outcome, and a directory built from it lists one entry per key,
  ascending by number, resolving a number to an address exactly when it looks the address
  up to the number, exactly when the table maps a key for the number to a text of the
  address.
-/

namespace ChordSearch.Directory

/-- What a table entry reads as: its key as a number and its text as an address. -/
def Reads (e : Bytes × Bytes) (x : UInt32 × Address) : Prop :=
  Decimal.parseU32 e.1 = .ok x.1 ∧ Address.parse e.2 = .ok x.2

/-- No two entries of a table have keys that read as the same number. -/
def DistinctNumbers (table : List (Bytes × Bytes)) : Prop :=
  table.Pairwise fun e e' => ∀ n, Decimal.parseU32 e.1 = .ok n → Decimal.parseU32 e'.1 ≠ .ok n

/-! ### Reading the entries -/

theorem readEntries_cons_ok_iff {k v : Bytes} {table : List (Bytes × Bytes)}
    {es : List (UInt32 × Address)} :
    readEntries ((k, v) :: table) = .ok es ↔
      ∃ x rest, Reads (k, v) x ∧ readEntries table = .ok rest ∧ es = x :: rest := by
  simp only [readEntries, Reads]
  cases Decimal.parseU32 k <;> cases Address.parse v <;> cases readEntries table <;>
    simp [Except.mapError, bind, Except.bind, pure, Except.pure, eq_comm]

theorem readEntries_ok_iff {table : List (Bytes × Bytes)} {es : List (UInt32 × Address)} :
    readEntries table = .ok es ↔ List.Forall₂ Reads table es := by
  induction table generalizing es with
  | nil => cases es <;> simp [readEntries]
  | cons e table ih =>
    obtain ⟨k, v⟩ := e
    rw [readEntries_cons_ok_iff]
    cases es <;> simp [ih]

theorem mem_of_readEntries {table : List (Bytes × Bytes)} {es : List (UInt32 × Address)}
    (h : List.Forall₂ Reads table es) {x : UInt32 × Address} :
    x ∈ es ↔ ∃ e ∈ table, Reads e x := by
  induction h with
  | nil => simp
  | @cons e y table es hy _ ih =>
    simp only [List.mem_cons, exists_eq_or_imp, ih]
    refine or_congr_left ⟨fun hx => hx ▸ hy, fun hx => ?_⟩
    obtain ⟨hn, ha⟩ := hx
    obtain ⟨hn', ha'⟩ := hy
    exact Prod.ext (Except.ok.inj (hn.symm.trans hn')) (Except.ok.inj (ha.symm.trans ha'))

theorem nodup_numbers_of_readEntries {table : List (Bytes × Bytes)} {es : List (UInt32 × Address)}
    (h : List.Forall₂ Reads table es) (hd : DistinctNumbers table) : (es.map Prod.fst).Nodup := by
  induction h with
  | nil => simp
  | @cons e x table es hx hrest ih =>
    rw [DistinctNumbers, List.pairwise_cons] at hd
    refine List.nodup_cons.2 ⟨fun hmem => ?_, ih hd.2⟩
    obtain ⟨y, hy, hyx⟩ := List.mem_map.1 hmem
    obtain ⟨e', he', hr⟩ := (mem_of_readEntries hrest).1 hy
    exact hd.1 e' he' x.1 hx.1 (hyx ▸ hr.1)

/-! ### Inserting by number -/

section Insert

variable (e : UInt32 × Address)

theorem insertEntry_perm (l : List (UInt32 × Address)) (hnew : ∀ y ∈ l, y.1 ≠ e.1) :
    (insertEntry e l).Perm (e :: l) := by
  induction l with
  | nil => rfl
  | cons x xs ih =>
    have hx : x.1 ≠ e.1 := hnew x (List.mem_cons_self ..)
    simp only [insertEntry, if_neg (Ne.symm hx)]
    split
    · rfl
    · exact ((ih fun y hy => hnew y (List.mem_cons_of_mem _ hy)).cons x).trans (.swap e x xs)

theorem mem_insertEntry {l : List (UInt32 × Address)} {y : UInt32 × Address}
    (hy : y ∈ insertEntry e l) : y = e ∨ y ∈ l := by
  induction l with
  | nil => simpa [insertEntry] using hy
  | cons x xs ih =>
    simp only [insertEntry] at hy
    split_ifs at hy <;> simp only [List.mem_cons] at hy ⊢
    · exact hy
    · tauto
    · rcases hy with rfl | hy
      · exact .inr (.inl rfl)
      · rcases ih hy with h | h <;> simp [h]

theorem sorted_insertEntry {l : List (UInt32 × Address)} (hl : l.Pairwise (·.1 < ·.1)) :
    (insertEntry e l).Pairwise (·.1 < ·.1) := by
  induction l with
  | nil => simp [insertEntry]
  | cons x xs ih =>
    rw [List.pairwise_cons] at hl
    simp only [insertEntry]
    split_ifs with hlt heq
    · -- before the head: below every entry through the head
      exact List.pairwise_cons.2
        ⟨fun y hy => (List.mem_cons.1 hy).elim (· ▸ hlt) (UInt32.lt_trans hlt <| hl.1 y ·),
          List.pairwise_cons.2 hl⟩
    · -- replaces the head, whose number it has
      exact List.pairwise_cons.2 ⟨fun y hy => heq ▸ hl.1 y hy, hl.2⟩
    · -- past the head, which is then below it
      have hxe : x.1 < e.1 := (UInt32.lt_or_lt_of_ne heq).resolve_left hlt
      refine List.pairwise_cons.2 ⟨fun y hy => ?_, ih hl.2⟩
      rcases mem_insertEntry e hy with rfl | hy
      · exact hxe
      · exact hl.1 y hy

end Insert

/-- The entries sorted the way the directory sorts them. -/
abbrev sortEntries (es : List (UInt32 × Address)) : List (UInt32 × Address) :=
  es.foldl (fun acc e => insertEntry e acc) []

theorem foldl_insertEntry_sorted (acc es : List (UInt32 × Address))
    (hacc : acc.Pairwise (·.1 < ·.1)) :
    (es.foldl (fun acc e => insertEntry e acc) acc).Pairwise (·.1 < ·.1) := by
  induction es generalizing acc with
  | nil => exact hacc
  | cons e es ih => exact ih _ (sorted_insertEntry e hacc)

theorem foldl_insertEntry_perm (acc es : List (UInt32 × Address))
    (hd : ((acc ++ es).map Prod.fst).Nodup) :
    (es.foldl (fun acc e => insertEntry e acc) acc).Perm (acc ++ es) := by
  induction es generalizing acc with
  | nil => simp
  | cons e es ih =>
    have hnew : ∀ y ∈ acc, y.1 ≠ e.1 := by
      intro y hy hye
      simp only [List.map_append, List.map_cons, List.nodup_append, List.nodup_cons] at hd
      exact hd.2.2 _ (List.mem_map_of_mem hy) _ (List.mem_cons_self ..) hye
    have hperm : (insertEntry e acc ++ es).Perm (acc ++ e :: es) :=
      ((insertEntry_perm e acc hnew).append_right es).trans List.perm_middle.symm
    exact (ih _ ((hperm.map Prod.fst).nodup_iff.2 hd)).trans hperm

theorem sortEntries_sorted (es : List (UInt32 × Address)) :
    (sortEntries es).Pairwise (·.1 < ·.1) :=
  foldl_insertEntry_sorted [] es .nil

theorem sortEntries_perm {es : List (UInt32 × Address)} (hd : (es.map Prod.fst).Nodup) :
    (sortEntries es).Perm es :=
  foldl_insertEntry_perm [] es hd

theorem sortEntries_eq_of_perm {es es' : List (UInt32 × Address)}
    (hd : (es.map Prod.fst).Nodup) (hp : es'.Perm es) : sortEntries es' = sortEntries es := by
  have hd' : (es'.map Prod.fst).Nodup := (hp.map Prod.fst).nodup_iff.2 hd
  refine List.Perm.eq_of_pairwise (fun a b _ _ hab hba => absurd (UInt32.lt_trans hab hba)
    (UInt32.lt_irrefl _)) (sortEntries_sorted es') (sortEntries_sorted es) ?_
  exact (sortEntries_perm hd').trans (hp.trans (sortEntries_perm hd).symm)

/-! ### Refusing shared addresses -/

theorem firstShared_eq_none_iff {seen l : List (UInt32 × Address)} :
    firstShared seen l = none ↔ (l.map Prod.snd).Nodup ∧ ∀ x ∈ l, ∀ y ∈ seen, y.2 ≠ x.2 := by
  induction l generalizing seen with
  | nil => simp [firstShared]
  | cons x l ih =>
    obtain ⟨n, a⟩ := x
    simp only [firstShared]
    cases hf : seen.find? (·.2 = a) with
    | some y =>
      obtain ⟨y, hy, hya⟩ : ∃ y', y' ∈ seen ∧ y'.2 = a :=
        ⟨y, List.mem_of_find?_eq_some hf, by simpa using List.find?_some hf⟩
      simp only [reduceCtorEq, false_iff, not_and]
      exact fun _ h => h (n, a) (List.mem_cons_self ..) y hy hya
    | none =>
      have hseen : ∀ y ∈ seen, y.2 ≠ a := by simpa using List.find?_eq_none.1 hf
      simp only [ih, List.map_cons, List.nodup_cons, List.mem_cons, List.mem_map,
        forall_eq_or_imp]
      constructor
      · rintro ⟨hnd, hne⟩
        refine ⟨⟨?_, hnd⟩, hseen, fun x hx => (hne x hx).2⟩
        rintro ⟨y, hy, hya⟩
        exact (hne y hy).1 hya.symm
      · rintro ⟨⟨hnew, hnd⟩, -, hrest⟩
        exact ⟨hnd, fun x hx => ⟨fun h => hnew ⟨x, hx, h.symm⟩, hrest x hx⟩⟩

/-! ### Look-ups -/

theorem find?_key_eq_some {α β : Type} [DecidableEq β] (f : α → β) {l : List α}
    (hl : (l.map f).Nodup) {k : β} {x : α} :
    l.find? (fun y => decide (f y = k)) = some x ↔ x ∈ l ∧ f x = k := by
  constructor
  · intro h
    exact ⟨List.mem_of_find?_eq_some h, by simpa using List.find?_some h⟩
  · rintro ⟨hx, rfl⟩
    have hsome : (l.find? fun y => decide (f y = f x)).isSome := List.find?_isSome.2 ⟨x, hx, by simp⟩
    obtain ⟨y, hy⟩ := Option.isSome_iff_exists.1 hsome
    have hyx : f y = f x := by simpa using List.find?_some hy
    rw [hy, List.inj_on_of_nodup_map hl (List.mem_of_find?_eq_some hy) hx hyx]

theorem resolve_eq_ok_iff {d : Directory} (hd : (d.entries.map Prod.fst).Nodup) {n : UInt32}
    {a : Address} : d.resolve n = .ok a ↔ (n, a) ∈ d.entries := by
  unfold resolve
  split
  · rename_i m b hf
    obtain ⟨hmem, rfl⟩ := (find?_key_eq_some Prod.fst hd).1 hf
    refine ⟨fun h => Except.ok.inj h ▸ hmem, fun h => ?_⟩
    exact congrArg (Except.ok ·.2) (List.inj_on_of_nodup_map hd hmem h rfl)
  · rename_i hf
    simp only [reduceCtorEq, false_iff]
    exact fun h => by simpa using List.find?_eq_none.1 hf _ h

theorem reverseLookup_eq_ok_iff {d : Directory} (hd : (d.entries.map Prod.snd).Nodup)
    {n : UInt32} {a : Address} : d.reverseLookup a = .ok n ↔ (n, a) ∈ d.entries := by
  unfold reverseLookup
  split
  · rename_i m b hf
    obtain ⟨hmem, rfl⟩ := (find?_key_eq_some Prod.snd hd).1 hf
    refine ⟨fun h => Except.ok.inj h ▸ hmem, fun h => ?_⟩
    exact congrArg (Except.ok ·.1) (List.inj_on_of_nodup_map hd hmem h rfl)
  · rename_i hf
    simp only [reduceCtorEq, false_iff]
    exact fun h => by simpa using List.find?_eq_none.1 hf _ h

/-! ### Building the directory -/

theorem ofTable_of_readEntries {table table' : List (Bytes × Bytes)}
    {es es' : List (UInt32 × Address)} (h : readEntries table = .ok es)
    (h' : readEntries table' = .ok es') (hs : sortEntries es = sortEntries es') :
    ofTable table = ofTable table' := by
  have hs' : es.foldl (fun acc e => insertEntry e acc) [] =
      es'.foldl (fun acc e => insertEntry e acc) [] := hs
  simp only [ofTable, h, h', bind, Except.bind, hs']

theorem ofTable_eq_ok_iff {table : List (Bytes × Bytes)} {d : Directory} :
    ofTable table = .ok d ↔ ∃ es, readEntries table = .ok es ∧
      (∀ x ∈ sortEntries es, x.2.isV4 = true) ∧ ((sortEntries es).map Prod.snd).Nodup ∧
      d = ⟨sortEntries es⟩ := by
  cases h : readEntries table with
  | error _ => simp [ofTable, h, bind, Except.bind]
  | ok es =>
    simp only [ofTable, h, bind, Except.bind, Except.ok.injEq, exists_eq_left']
    split
    · rename_i n a hf
      have hbad : (n, a) ∈ sortEntries es ∧ a.isV4 = false := by
        simpa using And.intro (List.mem_of_find?_eq_some hf) (List.find?_some hf)
      simp only [reduceCtorEq, false_iff, not_and]
      exact fun hv => absurd (hv _ hbad.1) (by simp [hbad.2])
    · rename_i hf
      have hv : ∀ x ∈ sortEntries es, x.2.isV4 = true := by
        simpa using List.find?_eq_none.1 hf
      split
      · rename_i e hs
        simp only [reduceCtorEq, false_iff, not_and]
        intro _ hnd
        have hnone : firstShared [] (sortEntries es) = none :=
          firstShared_eq_none_iff.2 ⟨hnd, by simp⟩
        exact absurd (hnone.symm.trans hs) (by simp)
      · rename_i hs
        simp only [Except.ok.injEq]
        exact ⟨fun h => ⟨hv, (firstShared_eq_none_iff.1 hs).1, h.symm⟩, fun h => h.2.2.symm⟩

theorem readEntries_perm {table table' : List (Bytes × Bytes)} {es : List (UInt32 × Address)}
    (hp : table'.Perm table) (h : readEntries table = .ok es) :
    ∃ es', readEntries table' = .ok es' ∧ es'.Perm es := by
  obtain ⟨es', hr, hes⟩ := List.perm_comp_forall₂ hp (readEntries_ok_iff.1 h)
  exact ⟨es', readEntries_ok_iff.2 hr, hes⟩

theorem readEntries_ok_of_reads {table : List (Bytes × Bytes)} (h : ∀ e ∈ table, ∃ x, Reads e x) :
    ∃ es, readEntries table = .ok es := by
  induction table with
  | nil => exact ⟨[], rfl⟩
  | cons e table ih =>
    obtain ⟨x, hx⟩ := h e (List.mem_cons_self ..)
    obtain ⟨es, hes⟩ := ih fun e' he' => h e' (List.mem_cons_of_mem _ he')
    exact ⟨x :: es, readEntries_ok_iff.2 (.cons hx (readEntries_ok_iff.1 hes))⟩

theorem ofTable_perm {table table' : List (Bytes × Bytes)} {es : List (UInt32 × Address)}
    (hd : DistinctNumbers table) (hp : table'.Perm table) (h : readEntries table = .ok es) :
    ofTable table' = ofTable table := by
  obtain ⟨es', h', hes⟩ := readEntries_perm hp h
  have hnd := nodup_numbers_of_readEntries (readEntries_ok_iff.1 h) hd
  exact ofTable_of_readEntries h' h (sortEntries_eq_of_perm hnd hes)

/-- A table whose keys name distinct numbers builds its directory whatever order it is read
in, and the directory holds one entry per key, ascending by number, resolving a number to an
address exactly when it looks the address up to the number, exactly when the table maps a key
for the number to a text of the address. -/
theorem ofTable_exact {table : List (Bytes × Bytes)} (hd : DistinctNumbers table) :
    (∀ table', table'.Perm table →
      (∀ d, ofTable table' = .ok d ↔ ofTable table = .ok d) ∧
      ((∀ e ∈ table, ∃ x, Reads e x) → ofTable table' = ofTable table)) ∧
    ∀ d, ofTable table = .ok d →
      d.nodes.length = table.length ∧ d.nodes.Pairwise (·.1 < ·.1) ∧
      ∀ n a, (d.resolve n = .ok a ↔ d.reverseLookup a = .ok n) ∧
        (d.reverseLookup a = .ok n ↔
          ∃ k v, (k, v) ∈ table ∧ Decimal.parseU32 k = .ok n ∧ Address.parse v = .ok a) := by
  refine ⟨fun table' hp => ⟨fun d => ?_, fun hr => ?_⟩, fun d hok => ?_⟩
  · -- a table that builds reads, and then both orders build the same
    constructor
    · intro h'
      obtain ⟨es', hr', -⟩ := ofTable_eq_ok_iff.1 h'
      obtain ⟨es, hr, -⟩ := readEntries_perm hp.symm hr'
      rwa [← ofTable_perm hd hp hr]
    · intro h
      obtain ⟨es, hr, -⟩ := ofTable_eq_ok_iff.1 h
      rwa [ofTable_perm hd hp hr]
  · obtain ⟨es, hr⟩ := readEntries_ok_of_reads hr
    exact ofTable_perm hd hp hr
  · obtain ⟨es, hr, -, hsnd, rfl⟩ := ofTable_eq_ok_iff.1 hok
    have hreads := readEntries_ok_iff.1 hr
    have hfst := nodup_numbers_of_readEntries hreads hd
    have hsorted := sortEntries_sorted es
    have hfst' : ((sortEntries es).map Prod.fst).Nodup :=
      List.pairwise_map.2 (hsorted.imp fun {x y} hlt (heq : x.1 = y.1) =>
        UInt32.lt_irrefl _ (heq ▸ hlt))
    refine ⟨(sortEntries_perm hfst).length_eq.trans hreads.length_eq.symm, hsorted,
      fun n a => ?_⟩
    -- both look-ups find the entry `(n, a)`, which the table reads from one of its entries
    rw [resolve_eq_ok_iff hfst', reverseLookup_eq_ok_iff hsnd, (sortEntries_perm hfst).mem_iff,
      mem_of_readEntries hreads]
    simp [Reads]

/-- Two nodes, numbered 1 and 2. -/
def twoNodes : List (Bytes × Bytes) :=
  [(Bytes.ofString "1", Bytes.ofString "10.0.0.1"), (Bytes.ofString "2", Bytes.ofString "10.0.0.2")]

theorem twoNodes_distinct : DistinctNumbers twoNodes := by
  have h1 : Decimal.parseU32 (Bytes.ofString "1") = .ok 1 := by decide +kernel
  have h2 : Decimal.parseU32 (Bytes.ofString "2") = .ok 2 := by decide +kernel
  simp only [DistinctNumbers, twoNodes, List.pairwise_pair, h1, h2, ne_eq, Except.ok.injEq]
  rintro n rfl
  decide

theorem ofTable_exact_twoNodes : DistinctNumbers twoNodes ∧
    (∀ table', table'.Perm twoNodes →
      (∀ d, ofTable table' = .ok d ↔ ofTable twoNodes = .ok d) ∧
      ((∀ e ∈ twoNodes, ∃ x, Reads e x) → ofTable table' = ofTable twoNodes)) ∧
    ∀ d, ofTable twoNodes = .ok d →
      d.nodes.length = twoNodes.length ∧ d.nodes.Pairwise (·.1 < ·.1) ∧
      ∀ n a, (d.resolve n = .ok a ↔ d.reverseLookup a = .ok n) ∧
        (d.reverseLookup a = .ok n ↔
          ∃ k v, (k, v) ∈ twoNodes ∧ Decimal.parseU32 k = .ok n ∧ Address.parse v = .ok a) :=
  ⟨twoNodes_distinct, ofTable_exact twoNodes_distinct⟩

/-- Without distinct numbers neither holds: keys `1` and `01` at one address leave one entry
for two keys, and with a third key at that address, whether the table builds depends on
which of `1` and `01` is read last. -/
theorem ofTable_merges_equal_numbers :
    ofTable [(Bytes.ofString "1", Bytes.ofString "10.0.0.1"),
      (Bytes.ofString "01", Bytes.ofString "10.0.0.1")] = .ok ⟨[(1, .v4 [10, 0, 0, 1])]⟩ ∧
    ofTable [(Bytes.ofString "01", Bytes.ofString "10.0.0.2"),
      (Bytes.ofString "1", Bytes.ofString "10.0.0.1"),
      (Bytes.ofString "2", Bytes.ofString "10.0.0.1")] = .error (.shared 1 2 (.v4 [10, 0, 0, 1])) ∧
    ofTable [(Bytes.ofString "1", Bytes.ofString "10.0.0.1"),
      (Bytes.ofString "01", Bytes.ofString "10.0.0.2"),
      (Bytes.ofString "2", Bytes.ofString "10.0.0.1")] =
      .ok ⟨[(1, .v4 [10, 0, 0, 2]), (2, .v4 [10, 0, 0, 1])]⟩ :=
  ⟨by decide +kernel, by decide +kernel, by decide +kernel⟩

end ChordSearch.Directory
