import Mathlib.Data.List.Count
import Mathlib.Data.List.MinMax
import Mathlib.Data.List.Nodup
import ChordSearch.Ring.Arc

/-! # Clockwise order on the ring

The arcs of `Arc` compare positions numerically, with a branch for each way the arc can lie
on the number line. Going round the ring they are one notion: the clockwise distance
`dist a b = (b - a) mod 2^160`.

* `Arc.owns_iff`: `owns p k s` holds iff `p = s`, or `k` lies at a positive distance from
  `p` no further than `s`.
* `Arc.inside_iff`: `inside a k b` holds iff `k` lies at a positive distance from `a`
  short of `b` (anywhere but `a` itself when `a = b`).

On a ring whose members sit at the positions `ids`:

* `Follows ids x y`: `y` is the member after `x` going clockwise (no member strictly
  between them; `x` itself when it is alone).
* `FirstFrom ids key o`: `o` is the first member at or after `key` (the smallest member
  when `key` is past every member); `firstFrom_iff_dist` says it is the member closest to
  `key` clockwise, so it exists (`exists_firstFrom`) and is unique (`FirstFrom.unique`).
* `owns_iff_firstFrom`: a member `x` whose successor `y` follows it owns-tests `key` true
  iff `y` is the first member from `key`. This is the step every lookup takes.
* `arcCount ids a b` counts the members strictly between `a` and `b`; moving from `x` to
  the member after it, while that member is not the key's owner, lowers the count of
  members before the owner by one (`arcCount_follows`), and the count is below the number
  of members (`arcCount_lt_length`). Together they bound every walk along successors.
  More generally, moving to any member strictly between `x` and a position lowers the
  count of members before that position (`arcCount_lt_of_inside`), whatever order the
  successor pointers are in.
-/

namespace ChordSearch

namespace RingId

/-- How far `b` lies clockwise past `a`: `(b - a) mod 2^160`. -/
def dist (a b : RingId) : Nat := (b.toNat + ringSize - a.toNat) % ringSize

theorem eq_iff_toNat_eq {a b : RingId} : a = b ↔ a.toNat = b.toNat :=
  ⟨fun h => h ▸ rfl, ext⟩

theorem dist_eq (a b : RingId) :
    dist a b = if a.toNat ≤ b.toNat then b.toNat - a.toNat else b.toNat + ringSize - a.toNat := by
  have ha := a.isLt
  have hb := b.isLt
  unfold dist
  split
  · have h : b.toNat + ringSize - a.toNat = (b.toNat - a.toNat) + ringSize := by omega
    rw [h, Nat.add_mod_right, Nat.mod_eq_of_lt (by omega)]
  · exact Nat.mod_eq_of_lt (by omega)

theorem dist_lt (a b : RingId) : dist a b < ringSize := Nat.mod_lt _ ringSize_pos

@[simp] theorem dist_self (a : RingId) : dist a a = 0 := by
  simp [dist_eq]

theorem dist_eq_zero {a b : RingId} : dist a b = 0 ↔ a = b := by
  have ha := a.isLt
  have hb := b.isLt
  rw [dist_eq, eq_iff_toNat_eq]
  split <;> omega

theorem dist_pos {a b : RingId} : 0 < dist a b ↔ a ≠ b := by
  rw [Nat.pos_iff_ne_zero, Ne, dist_eq_zero]

theorem dist_add_of_le {a b c : RingId} (h : dist a b ≤ dist a c) :
    dist a b + dist b c = dist a c := by
  have ha := a.isLt
  have hb := b.isLt
  have hc := c.isLt
  simp only [dist_eq] at h ⊢
  split_ifs at h ⊢ <;> omega

theorem dist_add_of_lt {a b c : RingId} (h : dist a c < dist a b) :
    dist a b + dist b c = dist a c + ringSize := by
  have ha := a.isLt
  have hb := b.isLt
  have hc := c.isLt
  simp only [dist_eq] at h ⊢
  split_ifs at h ⊢ <;> omega

theorem dist_add_dist_comm {a b : RingId} (h : a ≠ b) : dist a b + dist b a = ringSize := by
  have h' : dist a a < dist a b := by rw [dist_self]; exact dist_pos.2 h
  simpa using dist_add_of_lt h'

theorem dist_inj {a b c : RingId} (h : dist a b = dist a c) : b = c := by
  have := dist_add_of_le h.le
  rw [h, Nat.add_eq_left, dist_eq_zero] at this
  exact this

end RingId

open RingId

namespace Arc

theorem owns_iff (p k s : RingId) :
    owns p k s = true ↔ p = s ∨ (0 < dist p k ∧ dist p k ≤ dist p s) := by
  have hp := p.isLt
  have hk := k.isLt
  have hs := s.isLt
  rw [eq_iff_toNat_eq]
  simp only [owns, RingId.dist_eq]
  split_ifs <;> simp <;> omega

theorem inside_iff (a k b : RingId) :
    inside a k b = true ↔ 0 < dist a k ∧ (a = b ∨ dist a k < dist a b) := by
  have ha := a.isLt
  have hk := k.isLt
  have hb := b.isLt
  rw [eq_iff_toNat_eq]
  simp only [inside, RingId.dist_eq]
  split_ifs <;> simp <;> omega

theorem inside_of_not_owns {p k s : RingId} (h : owns p k s = false) : inside p s k = true := by
  rw [← Bool.not_eq_true, owns_iff] at h
  simp only [not_or, not_and, Nat.not_le] at h
  rw [inside_iff]
  refine ⟨dist_pos.2 h.1, ?_⟩
  by_cases hk : p = k
  · exact .inl hk
  · exact .inr (h.2 (dist_pos.2 hk))

theorem inside_trans {a b c k : RingId} (hb : inside a b k = true) (hc : inside b c k = true) :
    inside a c k = true := by
  rw [inside_iff] at hb hc ⊢
  obtain ⟨hab, hbk⟩ := hb
  obtain ⟨hbc, hck⟩ := hc
  have hbk' : b ≠ k := by
    rintro rfl
    rcases hbk with rfl | h
    · simp at hab
    · exact absurd h (lt_irrefl _)
  have hck' : dist b c < dist b k := hck.resolve_left hbk'
  rcases hbk with rfl | hlt
  · -- `a = k`: `c` falls short of `k`, so it is not `a`
    refine ⟨dist_pos.2 fun hac => ?_, .inl rfl⟩
    subst hac
    exact lt_irrefl _ hck'
  · -- going from `a` to `c` passes `b` without going round
    have hsum := dist_add_of_le hlt.le
    have hk := dist_lt a k
    have hac : dist a b + dist b c = dist a c := by
      rcases Nat.lt_or_ge (dist a c) (dist a b) with h | h
      · have := dist_add_of_lt h
        omega
      · exact dist_add_of_le h
    exact ⟨by omega, .inr (by omega)⟩

end Arc

namespace Ring

variable {ids : List RingId}

/-- `y` is the member after `x` going clockwise among the members at `ids`: no member lies
strictly between them, and `y = x` when `x` is the only member. -/
def Follows (ids : List RingId) (x y : RingId) : Prop :=
  y ∈ ids ∧ ∀ m ∈ ids, Arc.inside x m y = false

/-- `o` is the first member at or after `key`: the smallest member not below `key`, or the
smallest member of all when `key` is past every member. -/
def FirstFrom (ids : List RingId) (key o : RingId) : Prop :=
  o ∈ ids ∧ ((key ≤ o ∧ ∀ m ∈ ids, key ≤ m → o ≤ m) ∨ ((∀ m ∈ ids, m < key) ∧ ∀ m ∈ ids, o ≤ m))

theorem firstFrom_iff_dist {key o : RingId} :
    FirstFrom ids key o ↔ o ∈ ids ∧ ∀ m ∈ ids, dist key o ≤ dist key m := by
  have hk := key.isLt
  have ho := o.isLt
  unfold FirstFrom
  refine and_congr_right fun _ => ?_
  show ((key.toNat ≤ o.toNat ∧ ∀ m ∈ ids, key.toNat ≤ m.toNat → o.toNat ≤ m.toNat) ∨
      ((∀ m ∈ ids, m.toNat < key.toNat) ∧ ∀ m ∈ ids, o.toNat ≤ m.toNat)) ↔ _
  constructor
  · rintro (⟨hko, hmin⟩ | ⟨hall, hmin⟩) m hm
    · have := hmin m hm
      have := m.isLt
      simp only [RingId.dist_eq]
      split_ifs <;> omega
    · have := hmin m hm
      have := hall m hm
      simp only [RingId.dist_eq]
      split_ifs <;> omega
  · intro hmin
    by_cases hko : key.toNat ≤ o.toNat
    · refine .inl ⟨hko, fun m hm hkm => ?_⟩
      have := hmin m hm
      simp only [RingId.dist_eq, if_pos hko, if_pos hkm] at this
      omega
    · -- no member can sit at or after `key`: it would be closer than `o`
      have hall : ∀ m ∈ ids, m.toNat < key.toNat := by
        intro m hm
        have hm' := hmin m hm
        have := m.isLt
        simp only [RingId.dist_eq, if_neg hko] at hm'
        split_ifs at hm' <;> omega
      refine .inr ⟨hall, fun m hm => ?_⟩
      have := hmin m hm
      have := hall m hm
      simp only [RingId.dist_eq, if_neg hko, if_neg (Nat.not_le.2 this)] at *
      omega

theorem FirstFrom.unique {key o o' : RingId} (h : FirstFrom ids key o) (h' : FirstFrom ids key o') :
    o = o' := by
  rw [firstFrom_iff_dist] at h h'
  exact RingId.dist_inj (Nat.le_antisymm (h.2 o' h'.1) (h'.2 o h.1))

theorem exists_firstFrom (h : ids ≠ []) (key : RingId) : ∃ o, FirstFrom ids key o := by
  obtain ⟨o, ho⟩ : ∃ o, ids.argmin (dist key) = some o :=
    Option.ne_none_iff_exists'.1 (mt List.argmin_eq_none.1 h)
  refine ⟨o, firstFrom_iff_dist.2 ⟨List.argmin_mem ho, fun m hm => ?_⟩⟩
  exact Nat.not_lt.1 (List.not_lt_of_mem_argmin hm ho)

theorem Follows.ne_of_mem {x y m : RingId} (h : Follows ids x y) (hm : m ∈ ids) (hxm : m ≠ x) :
    x ≠ y ∧ dist x y ≤ dist x m := by
  have hin := h.2 m hm
  rw [← Bool.not_eq_true, Arc.inside_iff] at hin
  have hpos : 0 < dist x m := RingId.dist_pos.2 (Ne.symm hxm)
  by_cases hxy : x = y
  · exact absurd (.inl hxy) (fun h' => hin ⟨hpos, h'⟩)
  · exact ⟨hxy, Nat.not_lt.1 fun hlt => hin ⟨hpos, .inr hlt⟩⟩

theorem Follows.self_iff {x y : RingId} (h : Follows ids x y) :
    x = y ↔ ∀ m ∈ ids, m = x := by
  constructor
  · rintro rfl m hm
    by_contra hmx
    exact (h.ne_of_mem hm hmx).1 rfl
  · intro hall
    exact (hall y h.1).symm

theorem Follows.right_unique {x y y' : RingId} (h : Follows ids x y) (h' : Follows ids x y') :
    y = y' := by
  by_cases hy : y = x
  · rw [hy, (h.self_iff.1 hy.symm) y' h'.1]
  by_cases hy' : y' = x
  · rw [hy', (h'.self_iff.1 hy'.symm) y h.1]
  exact RingId.dist_inj (Nat.le_antisymm (h.ne_of_mem h'.1 hy').2 (h'.ne_of_mem h.1 hy).2)

theorem owns_iff_firstFrom {x y key : RingId} (hx : x ∈ ids) (h : Follows ids x y) :
    Arc.owns x key y = true ↔ FirstFrom ids key y := by
  rw [Arc.owns_iff, firstFrom_iff_dist]
  by_cases hxy : x = y
  · subst hxy
    have hall := (h.self_iff).1 rfl
    refine iff_of_true (.inl rfl) ⟨hx, fun m hm => ?_⟩
    rw [hall m hm]
  · simp only [hxy, false_or]
    constructor
    · rintro ⟨hk, hky⟩
      refine ⟨h.1, fun m hm => ?_⟩
      have hxk : dist x key + dist key y = dist x y := RingId.dist_add_of_le hky
      by_cases hmx : m = x
      · -- the key lies past `x`, so going on to `x` takes longer than to `y`
        subst hmx
        have := RingId.dist_add_dist_comm (RingId.dist_pos.1 hk)
        have := RingId.dist_lt m y
        omega
      · have hym := (h.ne_of_mem hm hmx).2
        have := RingId.dist_add_of_le (hky.trans hym)
        omega
    · rintro ⟨-, hmin⟩
      have hxmin := hmin x hx
      by_cases hkx : key = x
      · subst hkx
        simp only [RingId.dist_self, Nat.le_zero, RingId.dist_eq_zero] at hxmin
        exact absurd hxmin hxy
      · refine ⟨RingId.dist_pos.2 (Ne.symm hkx), Nat.not_lt.1 fun hlt => ?_⟩
        have h1 := RingId.dist_add_of_lt hlt
        have h2 := RingId.dist_add_dist_comm (Ne.symm hkx)
        have := RingId.dist_pos.2 hxy
        omega

private theorem countP_eq_or {α : Type} [DecidableEq α] (p : α → Bool) (y : α) (hy : p y = false) (l : List α) :
    l.countP (fun m => decide (m = y ∨ p m = true)) = l.countP p + l.count y := by
  induction l with
  | nil => rfl
  | cons a l ih =>
    rw [List.countP_cons, List.countP_cons, List.count_cons, ih]
    by_cases hay : a = y
    · subst hay
      simp [hy]
      omega
    · simp [hay]
      omega

/-- The number of members strictly between `a` and `b` going clockwise. -/
def arcCount (ids : List RingId) (a b : RingId) : Nat := ids.countP fun m => Arc.inside a m b

theorem arcCount_lt_length {a : RingId} (ha : a ∈ ids) (b : RingId) : arcCount ids a b < ids.length := by
  unfold arcCount
  refine List.countP_lt_length_iff.2 ⟨a, ha, ?_⟩
  rw [← Bool.not_eq_true, Arc.inside_iff]
  simp

theorem follows_singleton (x : RingId) : Follows [x] x x := by
  refine ⟨List.mem_singleton_self x, fun m hm => ?_⟩
  rw [List.mem_singleton.1 hm, ← Bool.not_eq_true, Arc.inside_iff]
  simp

theorem firstFrom_singleton (x key : RingId) : FirstFrom [x] key x := by
  obtain ⟨o, ho⟩ := exists_firstFrom (List.cons_ne_nil x []) key
  rwa [List.mem_singleton.1 ho.1] at ho

theorem Follows.arcCount_eq_zero {x y : RingId} (h : Follows ids x y) : arcCount ids x y = 0 :=
  List.countP_eq_zero.2 fun m hm => by simp [h.2 m hm]

theorem arcCount_follows (hnd : ids.Nodup) {x y o : RingId} (hx : x ∈ ids) (h : Follows ids x y)
    (ho : o ∈ ids) (hyo : y ≠ o) : arcCount ids y o + 1 = arcCount ids x o := by
  have hxy : x ≠ y := fun hxy => hyo ((h.self_iff).1 hxy o ho ▸ hxy.symm)
  have hdy : 0 < dist x y := RingId.dist_pos.2 hxy
  have hdo : x ≠ o → dist x y < dist x o := fun hxo =>
    Nat.lt_of_le_of_ne (h.ne_of_mem ho (Ne.symm hxo)).2 fun e => hyo (RingId.dist_inj e)
  have hsplit : ∀ m ∈ ids, (Arc.inside x m o = true ↔ decide (m = y ∨ Arc.inside y m o = true) = true) := by
    intro m hm
    rw [decide_eq_true_iff, Arc.inside_iff, Arc.inside_iff]
    have hyo' : ¬ y = o := hyo
    simp only [hyo', false_or]
    rcases eq_or_ne m x with rfl | hmx
    · -- `x` itself is in neither arc
      have hcomm := RingId.dist_add_dist_comm hxy
      have := RingId.dist_lt m o
      simp only [RingId.dist_self, lt_self_iff_false, false_and, false_iff, not_or]
      refine ⟨hxy, fun ⟨_, hlt⟩ => ?_⟩
      by_cases hmo : m = o
      · subst hmo
        omega
      · have := RingId.dist_add_of_le (hdo hmo).le
        omega
    · have hdm := RingId.dist_add_of_le (h.ne_of_mem hm hmx).2
      rcases eq_or_ne m y with rfl | hmy
      · simp only [true_or, iff_true]
        exact ⟨hdy, (em (x = o)).imp id hdo⟩
      · have hpos := RingId.dist_pos.2 (Ne.symm hmy)
        simp only [hmy, false_or]
        by_cases hxo : x = o
        · subst hxo
          have := RingId.dist_add_dist_comm hxy
          have := RingId.dist_lt x m
          simp only [true_or, and_true]
          omega
        · have := hdo hxo
          have := RingId.dist_add_of_le this.le
          simp only [hxo, false_or]
          omega
  have hyy : Arc.inside y y o = false := by
    rw [← Bool.not_eq_true, Arc.inside_iff]
    simp
  unfold arcCount
  rw [List.countP_congr hsplit, countP_eq_or _ y hyy, List.count_eq_one_of_mem hnd h.1]

theorem arcCount_lt_of_inside {a s b : RingId} (hs : s ∈ ids) (h : Arc.inside a s b = true) :
    arcCount ids s b < arcCount ids a b := by
  have hss : Arc.inside s s b = false := by
    rw [← Bool.not_eq_true, Arc.inside_iff]
    simp
  have hle : ids.countP (fun m => decide (m = s ∨ Arc.inside s m b = true)) ≤ arcCount ids a b :=
    List.countP_mono_left fun m _ hm => by
      rcases of_decide_eq_true hm with rfl | hm'
      · exact h
      · exact Arc.inside_trans h hm'
  rw [countP_eq_or _ s hss] at hle
  have hcount := List.count_pos_iff.2 hs
  unfold arcCount at hle ⊢
  omega

/-! ### Taking a member out

When a member leaves, the members at `ids'` are those of `ids` but the leaving member `l`. The
other members keep their successors and the keys they own; the member before `l` is followed
by the member after it, which takes over the keys `l` owned. -/

section Out

variable {ids' : List RingId}

theorem Follows.mono {x y : RingId} (h : Follows ids x y) (hsub : ∀ m ∈ ids', m ∈ ids)
    (hy : y ∈ ids') : Follows ids' x y :=
  ⟨hy, fun m hm => h.2 m (hsub m hm)⟩

theorem FirstFrom.mono {key o : RingId} (h : FirstFrom ids key o) (hsub : ∀ m ∈ ids', m ∈ ids)
    (ho : o ∈ ids') : FirstFrom ids' key o := by
  rw [firstFrom_iff_dist] at h ⊢
  exact ⟨ho, fun m hm => h.2 m (hsub m hm)⟩

theorem Follows.bridge {p l s : RingId} (hp : Follows ids p l) (hs : Follows ids l s)
    (hsub : ∀ m ∈ ids', m ∈ ids ∧ m ≠ l) (hs' : s ∈ ids') : Follows ids' p s := by
  refine ⟨hs', fun m hm => ?_⟩
  obtain ⟨hm, hml⟩ := hsub m hm
  rw [← Bool.not_eq_true, Arc.inside_iff]
  rintro ⟨hpos, hps⟩
  have hmp : m ≠ p := fun e => by simp [e] at hpos
  obtain ⟨hpl, hle⟩ := hp.ne_of_mem hm hmp
  have hlt : dist p l < dist p m := Nat.lt_of_le_of_ne hle fun e => hml (RingId.dist_inj e).symm
  have h₁ := RingId.dist_add_of_le hle
  have h₂ := (hs.ne_of_mem hm hml).2
  rcases hps with rfl | hps
  · -- `p` is `s`: from `l` on, `m` would come before going round to `p`
    have := RingId.dist_add_dist_comm hpl
    have := RingId.dist_lt p m
    omega
  · have := RingId.dist_add_of_le (hle.trans hps.le)
    omega

theorem FirstFrom.bridge {key l s : RingId} (h : FirstFrom ids key l) (hs : Follows ids l s)
    (hsub : ∀ m ∈ ids', m ∈ ids ∧ m ≠ l) (hs' : s ∈ ids') : FirstFrom ids' key s := by
  rw [firstFrom_iff_dist] at h ⊢
  refine ⟨hs', fun m hm => ?_⟩
  obtain ⟨hm, hml⟩ := hsub m hm
  have h₁ := RingId.dist_add_of_le (h.2 m hm)
  have h₂ := RingId.dist_add_of_le (h.2 s hs.1)
  have h₃ := (hs.ne_of_mem hm hml).2
  omega

end Out

end Ring

end ChordSearch
