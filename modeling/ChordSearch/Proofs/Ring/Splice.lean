import ChordSearch.Proofs.Ring.Healing
import ChordSearch.Proofs.Search.Chain

/-! # A node let into a correct ring

A node `X` that joins a correct ring goes between the member `S` that owned its position and
the member `P` before `S`. It gets there in four phases, each the work of one stabilize
exchange: at first only `X` points at `S` (phase 0); `S` takes `X` as its predecessor and
hands it the terms of `(P, X]` (phase 1); `P` takes `X` as its successor (phase 2); `X` takes
`P` as its predecessor (phase 3), and the ring is correct again with `X` in it.

* `Ring.Follows.splice_left`, `splice_right`, `splice_other`, `Ring.FirstFrom.splice_keep`,
  `splice_new`: the order of the ring with one position let in.
* `Arrival`: the joiner, `P` and `S` as they stood before; `Arrival.Member` and `Arrival.Joiner`
  say what a member and the joiner hold in a phase, and `Arrival.Spliced` what the whole
  cluster does, with the store requests to the joiner still on their way.
* `Arrival.Setting`: what the ring and the joiner are before the join.
* `Arrival.Spliced.correct`, `placed`, `ringMembers_perm`, `pairs_perm`: once the ring is
  settled and no store request is on its way, the ring is correct with the joiner in it,
  every term is with its owner, and the pairs the stores hold are the pairs held before.
-/

namespace ChordSearch

/-! ### The ring with one position let in -/

namespace Arc

theorem inside_of_inside_left {a m x b : RingId} (hm : inside a m x = true)
    (hx : inside a x b = true) : inside a m b = true := by
  rw [inside_iff] at hm hx ⊢
  obtain ⟨hpos, hmx⟩ := hm
  obtain ⟨hxpos, hxb⟩ := hx
  have hax : a ≠ x := RingId.dist_pos.1 hxpos
  refine ⟨hpos, hxb.imp id fun hlt => ?_⟩
  exact (hmx.resolve_left hax).trans hlt

end Arc

namespace Ring

variable {ids ids' : List RingId}

theorem Follows.firstFrom_of_inside {a b x : RingId} (h : Follows ids a b)
    (hx : Arc.inside a x b = true) : FirstFrom ids x b := by
  rw [firstFrom_iff_dist]
  refine ⟨h.1, fun m hm => ?_⟩
  rw [Arc.inside_iff] at hx
  obtain ⟨hax, hxb⟩ := hx
  by_cases hab : a = b
  · -- alone in the ring, the member is every member
    subst hab
    rw [(h.self_iff.1 rfl) m hm]
  have hxb' : RingId.dist a x < RingId.dist a b := hxb.resolve_left hab
  have hx := RingId.dist_add_of_le hxb'.le
  by_cases hma : m = a
  · -- going from `x` round to `a` passes `b`
    subst hma
    have hround := RingId.dist_add_dist_comm (RingId.dist_pos.1 hax)
    have := RingId.dist_lt m b
    omega
  · have hbm := (h.ne_of_mem hm hma).2
    have := RingId.dist_add_of_le (hxb'.le.trans hbm)
    omega

theorem Follows.inside_of_firstFrom {p s x : RingId} (h : Follows ids p s) (hp : p ∈ ids)
    (hs : FirstFrom ids x s) (hx : x ∉ ids) : Arc.inside p x s = true := by
  have ho := (owns_iff_firstFrom hp h).2 hs
  rw [Arc.owns_iff] at ho
  rw [Arc.inside_iff]
  have hxp : x ≠ p := fun e => hx (e ▸ hp)
  have hxs : x ≠ s := fun e => hx (e ▸ hs.1)
  refine ⟨RingId.dist_pos.2 (Ne.symm hxp), ?_⟩
  rcases ho with hps | ⟨-, hle⟩
  · exact .inl hps
  · exact .inr (Nat.lt_of_le_of_ne hle fun e => hxs (RingId.dist_inj e))

section In

variable {p s x : RingId} (hsub : ∀ m ∈ ids', m ∈ ids ∨ m = x)
include hsub

theorem Follows.splice_left (h : Follows ids p s) (hx : Arc.inside p x s = true)
    (hx' : x ∈ ids') : Follows ids' p x := by
  refine ⟨hx', fun m hm => ?_⟩
  rcases hsub m hm with hm | rfl
  · -- a member short of `x` would be a member short of `s`
    rw [← Bool.not_eq_true]
    intro hin
    have := Arc.inside_of_inside_left hin hx
    rw [h.2 m hm] at this
    exact Bool.false_ne_true this
  · rw [← Bool.not_eq_true, Arc.inside_iff]
    rintro ⟨hpos, hpx | hlt⟩
    · exact RingId.dist_pos.1 hpos hpx
    · exact lt_irrefl _ hlt

theorem Follows.splice_right (h : Follows ids p s) (hx : Arc.inside p x s = true)
    (hs' : s ∈ ids') : Follows ids' x s := by
  refine ⟨hs', fun m hm => ?_⟩
  rcases hsub m hm with hm | rfl
  · -- a member between `x` and `s` would be a member between `p` and `s`
    rw [← Bool.not_eq_true]
    intro hin
    have := Arc.inside_trans hx hin
    rw [h.2 m hm] at this
    exact Bool.false_ne_true this
  · rw [← Bool.not_eq_true, Arc.inside_iff]
    simp

theorem Follows.splice_other {a b : RingId} (h : Follows ids a b) (hx : Arc.inside a x b = false)
    (hb' : b ∈ ids') : Follows ids' a b := by
  refine ⟨hb', fun m hm => ?_⟩
  rcases hsub m hm with hm | rfl
  · exact h.2 m hm
  · exact hx

theorem FirstFrom.splice_keep {key o : RingId} (h : FirstFrom ids key o)
    (hle : RingId.dist key o ≤ RingId.dist key x) (ho : o ∈ ids') : FirstFrom ids' key o := by
  rw [firstFrom_iff_dist] at h ⊢
  refine ⟨ho, fun m hm => ?_⟩
  rcases hsub m hm with hm | rfl
  · exact h.2 m hm
  · exact hle

theorem FirstFrom.splice_new {key o : RingId} (h : FirstFrom ids key o)
    (hle : RingId.dist key x ≤ RingId.dist key o) (hx' : x ∈ ids') : FirstFrom ids' key x := by
  rw [firstFrom_iff_dist] at h ⊢
  refine ⟨hx', fun m hm => ?_⟩
  rcases hsub m hm with hm | rfl
  · exact hle.trans (h.2 m hm)
  · exact le_rfl

end In

theorem FirstFrom.of_dist_lt {key o x : RingId} (h : FirstFrom ids key o)
    (hlt : RingId.dist key x < RingId.dist key o) : FirstFrom ids x o := by
  rw [firstFrom_iff_dist] at h ⊢
  refine ⟨h.1, fun m hm => ?_⟩
  have hom := h.2 m hm
  have h₁ := RingId.dist_add_of_le hlt.le
  have h₂ := RingId.dist_add_of_le (hlt.le.trans hom)
  omega

theorem dist_le_of_owns {x s key : RingId} (hxs : x ≠ s) (h : Arc.owns x key s = true) :
    RingId.dist key s ≤ RingId.dist key x := by
  rw [Arc.owns_iff] at h
  obtain ⟨hpos, hle⟩ := h.resolve_left hxs
  have h₁ := RingId.dist_add_of_le hle
  have h₂ := RingId.dist_add_dist_comm (RingId.dist_pos.1 hpos)
  have := RingId.dist_lt x s
  omega

theorem dist_le_of_not_owns {x s key : RingId} (h : Arc.owns x key s = false) :
    RingId.dist key x ≤ RingId.dist key s := by
  rw [← Bool.not_eq_true, Arc.owns_iff] at h
  simp only [not_or, not_and, Nat.not_le] at h
  obtain ⟨-, hfar⟩ := h
  by_cases hkx : key = x
  · subst hkx
    simp
  have hfar' := hfar (RingId.dist_pos.2 (Ne.symm hkx))
  have hks : key ≠ s := fun e => by
    subst e
    exact lt_irrefl _ hfar'
  have h₁ := RingId.dist_add_of_le hfar'.le
  have h₂ := RingId.dist_add_dist_comm (Ne.symm hkx)
  have h₃ := RingId.dist_add_dist_comm hks
  omega

end Ring

/-! ### The entry, phase by phase -/

/-- A node entering the ring at index `x`, and the two members it enters between, at indices
`p` and `s`, as they all stood before: it goes after `pred` and before `succ`, the member
after `pred`. In a ring of one, `pred` and `succ` are the same member. -/
structure Arrival where
  x : Nat
  joiner : Node
  p : Nat
  pred : Node
  s : Nat
  succ : Node

namespace Arrival

variable (E : Arrival)

/-- `succ`'s store split by its new predecessor, the joiner: what it keeps, and what it hands
the joiner. -/
def split : Store × TermMap :=
  E.succ.search.store.extractNotOwned E.joiner.self.id E.succ.self.id

/-- The successor of member `j`, which was `n₀`, in phase `ph`: from phase 2 on, `pred`
points at the joiner. -/
def successorAt (ph j : Nat) (n₀ : Node) : NodeRef :=
  if j = E.p ∧ 2 ≤ ph then E.joiner.self else n₀.ring.successor

/-- The predecessor of member `j` in phase `ph`: from phase 1 on, `succ` has the joiner. -/
def predecessorAt (ph j : Nat) (n₀ : Node) : NodeRef :=
  if j = E.s ∧ 1 ≤ ph then E.joiner.self else n₀.ring.predecessor

/-- The store of member `j` in phase `ph`: from phase 1 on, `succ` keeps only its part. -/
def storeAt (ph j : Nat) (n₀ : Node) : Store :=
  if j = E.s ∧ 1 ≤ ph then E.split.1 else n₀.search.store

/-- The joiner's predecessor in phase `ph`: `pred` once the ring is settled. -/
def joinerPredecessor (ph : Nat) : NodeRef :=
  if 3 ≤ ph then E.pred.self else E.joiner.ring.predecessor

/-- The entries handed to the joiner by phase `ph`. -/
def handedAt (ph : Nat) : List (Bytes × DocSet) :=
  if 1 ≤ ph then E.split.2.entries else []

/-- Member `j`, which was `n₀`, is `n` in phase `ph`: in its place, with the neighbours and the
store the phase gives it, and a table with the same entries, whatever their owners. -/
structure Member (ph j : Nat) (n₀ n : Node) : Prop where
  self : n.self = n₀.self
  inRing : n.ring.inRing = n₀.ring.inRing
  successor : n.ring.successor = E.successorAt ph j n₀
  predecessor : n.ring.predecessor = E.predecessorAt ph j n₀
  store : n.search.store = E.storeAt ph j n₀
  places : n.ring.fingers.map Finger.place = n₀.ring.fingers.map Finger.place

/-- The joiner is `n` in phase `ph`, with the store requests `R` to it still on their way: in
the ring after `succ`, with a complete table as the node builds it, and holding the handed
entries that arrived. -/
structure Joiner (ph : Nat) (R : List ((Bytes × DocSet) × UInt32)) (n : Node) : Prop where
  self : n.self = E.joiner.self
  inRing : n.ring.inRing = true
  successor : n.ring.successor = E.succ.self
  predecessor : n.ring.predecessor = E.joinerPredecessor ph
  ascending : n.search.store.map.Ascending
  store : (n.search.store.map.entries ++ R.map Prod.fst).Perm (E.handedAt ph)
  shaped : n.Shaped
  complete : n.ring.fingers.size = idBits

/-- The cluster `c` in phase `ph` of the entry into the ring of `c₀`, with the store requests
`R` on their way to the joiner: every other member as `Member` says, the joiner as `Joiner`
says, behind the same endpoints and cuts. -/
structure Spliced (c₀ : Cluster) (ph : Nat) (R : List ((Bytes × DocSet) × UInt32))
    (c : Cluster) : Prop where
  size : c.members.size = c₀.members.size
  endpoints : c.endpoints = c₀.endpoints
  cut : c.cut = c₀.cut
  member : ∀ j n₀, j ≠ E.x → c₀.members[j]? = some n₀ →
    ∃ n, c.members[j]? = some n ∧ E.Member ph j n₀ n
  joiner : ∃ n, c.members[E.x]? = some n ∧ E.Joiner ph R n

/-- The join of member `x` of `c₀` between two of its ring members: the ring is correct and
quiescent, with every term at its owner and every store within the corpus `K`, its members and
the joiner carried by the wire and their tables as nodes build them; the joiner is outside the
ring with no predecessor, at an address the network reaches and at a position no member holds;
`succ` is the first member from that position and `pred` the member before it. -/
structure Setting (c₀ : Cluster) (K : Corpus) : Prop where
  correct : c₀.Correct
  placed : c₀.Placed
  wire : c₀.MembersOnWire
  uncut : ∀ n ∈ c₀.members, n.ring.inRing = true → n.self.addr ∉ c₀.cut
  quiet : c₀.queue.toList = []
  tidy : ∀ n ∈ c₀.members, n.search.store.map.Tidy K
  shaped : ∀ n ∈ c₀.members, n.Shaped
  joiner : c₀.members[E.x]? = some E.joiner
  outside : E.joiner.ring.inRing = false
  unlinked : E.joiner.ring.predecessor.isUnset = true
  joinerWire : E.joiner.self.OnWire
  joinerHandled : c₀.handlerOf E.joiner.self.addr = some E.x
  joinerUncut : E.joiner.self.addr ∉ c₀.cut
  fresh : E.joiner.self.id ∉ c₀.ringIds
  succ : c₀.members[E.s]? = some E.succ
  succIn : E.succ.ring.inRing = true
  first : Ring.FirstFrom c₀.ringIds E.joiner.self.id E.succ.self.id
  pred : c₀.members[E.p]? = some E.pred
  predIn : E.pred.ring.inRing = true
  before : E.succ.ring.predecessor = E.pred.self


namespace Setting

variable {E : Arrival} {c₀ : Cluster} {K : Corpus} (hs : E.Setting c₀ K)
include hs

theorem index_eq {j i : Nat} {n₀ n : Node} (hj : c₀.members[j]? = some n₀)
    (hin₀ : n₀.ring.inRing = true) (hi : c₀.members[i]? = some n) (hin : n.ring.inRing = true)
    (h : n₀.self = n.self) : j = i := by
  have h₁ := hs.correct.handler j n₀ hj hin₀
  rw [h, hs.correct.handler i n hi hin] at h₁
  exact (Option.some.inj h₁).symm

theorem x_ne_s : E.x ≠ E.s := fun h => by
  have he := hs.succ
  rw [← h, hs.joiner] at he
  have hin := hs.succIn
  rw [← Option.some.inj he, hs.outside] at hin
  exact Bool.false_ne_true hin

theorem x_ne_p : E.x ≠ E.p := fun h => by
  have he := hs.pred
  rw [← h, hs.joiner] at he
  have hin := hs.predIn
  rw [← Option.some.inj he, hs.outside] at hin
  exact Bool.false_ne_true hin

theorem succ_inRing : c₀.InRing E.succ.self :=
  ⟨E.succ, Array.mem_of_getElem? hs.succ, rfl, hs.succIn⟩

theorem pred_inRing : c₀.InRing E.pred.self :=
  ⟨E.pred, Array.mem_of_getElem? hs.pred, rfl, hs.predIn⟩

theorem pred_successor : E.pred.ring.successor = E.succ.self :=
  hs.correct.successor_eq_self hs.succ hs.succIn (Array.mem_of_getElem? hs.pred) hs.predIn
    hs.before.symm

theorem follows : Ring.Follows c₀.ringIds E.pred.self.id E.succ.self.id := by
  have h := (hs.correct.successor E.pred (Array.mem_of_getElem? hs.pred) hs.predIn).2
  rwa [hs.pred_successor] at h

theorem inside : Arc.inside E.pred.self.id E.joiner.self.id E.succ.self.id = true :=
  hs.follows.inside_of_firstFrom hs.pred_inRing.id_mem hs.first hs.fresh

theorem joiner_entries : E.joiner.search.store.map.entries = [] := by
  refine List.eq_nil_iff_forall_not_mem.2 fun e he => ?_
  have := (hs.placed E.joiner (Array.mem_of_getElem? hs.joiner) e he).1
  rw [hs.outside] at this
  exact Bool.false_ne_true this

theorem inside_successor {j : Nat} {n₀ : Node} (hj : c₀.members[j]? = some n₀)
    (hin₀ : n₀.ring.inRing = true) (hjp : j ≠ E.p) :
    Arc.inside n₀.self.id E.joiner.self.id n₀.ring.successor.id = false := by
  rw [← Bool.not_eq_true]
  intro hx
  have hn₀ := Array.mem_of_getElem? hj
  obtain ⟨hsr, hf⟩ := hs.correct.successor n₀ hn₀ hin₀
  have hid := (hf.firstFrom_of_inside hx).unique hs.first
  have hsucc := hs.correct.inRing_inj hsr hs.succ_inRing hid
  have hpred := hs.correct.eq_predecessor_of_successor hs.succ hs.succIn hn₀ hin₀ hsucc
  rw [hs.before] at hpred
  exact hjp (hs.index_eq hj hin₀ hs.pred hs.predIn hpred)

theorem inside_predecessor {j : Nat} {n₀ : Node} (hj : c₀.members[j]? = some n₀)
    (hin₀ : n₀.ring.inRing = true) (hjs : j ≠ E.s) :
    Arc.inside n₀.ring.predecessor.id E.joiner.self.id n₀.self.id = false := by
  rw [← Bool.not_eq_true]
  intro hx
  have hn₀ := Array.mem_of_getElem? hj
  have hf := (hs.correct.predecessor n₀ hn₀ hin₀).2
  have hid := (hf.firstFrom_of_inside hx).unique hs.first
  have hself := hs.correct.inRing_inj ⟨n₀, hn₀, rfl, hin₀⟩ hs.succ_inRing hid
  exact hjs (hs.index_eq hj hin₀ hs.succ hs.succIn hself)

omit hs in
theorem mem_moved {e : Bytes × DocSet} (he : e ∈ E.split.2.entries) :
    e ∈ E.succ.search.store.map.entries ∧
      Arc.owns E.joiner.self.id (RingId.hash e.1) E.succ.self.id = false := by
  simp only [split, Store.extractNotOwned_eq, TermMap.partition_eq, List.mem_filter,
    Bool.not_eq_eq_eq_not, Bool.not_true] at he
  exact he

omit hs in
theorem mem_kept {e : Bytes × DocSet} (he : e ∈ E.split.1.map.entries) :
    e ∈ E.succ.search.store.map.entries ∧
      Arc.owns E.joiner.self.id (RingId.hash e.1) E.succ.self.id = true := by
  simpa only [split, Store.extractNotOwned_eq, TermMap.partition_eq, List.mem_filter] using he

omit hs in
theorem split_perm :
    (E.split.1.map.entries ++ E.split.2.entries).Perm E.succ.search.store.map.entries := by
  simp only [split, Store.extractNotOwned_eq, TermMap.partition_eq]
  exact List.filter_append_perm _ _

end Setting

end Arrival

theorem List.filter_set_perm {α : Type} (p : α → Bool) {l : List α} {i : Nat} {a b : α}
    (hi : l[i]? = some a) (ha : p a = false) (hb : p b = true) :
    ((l.set i b).filter p).Perm (b :: l.filter p) := by
  induction l generalizing i with
  | nil => simp at hi
  | cons c l ih =>
    cases i with
    | zero =>
      simp only [List.getElem?_cons_zero, Option.some.injEq] at hi
      subst hi
      simp [ha, hb]
    | succ i =>
      simp only [List.getElem?_cons_succ] at hi
      simp only [List.set_cons_succ, List.filter_cons]
      split
      · exact ((ih hi).cons c).trans (List.Perm.swap b c _)
      · exact ih hi

theorem List.sum_eq_of_two {A B : List Nat} (hlen : A.length = B.length) {a b : Nat} (hab : a ≠ b)
    (ha : a < B.length) (hb : b < B.length) (heq : ∀ j, j ≠ a → j ≠ b → A[j]? = B[j]?)
    (hsum : A[a]?.getD 0 + A[b]?.getD 0 = B[a]?.getD 0 + B[b]?.getD 0) : A.sum = B.sum := by
  have hA : A = (B.set a (A[a]?.getD 0)).set b (A[b]?.getD 0) := by
    apply List.ext_getElem?
    intro j
    simp only [List.getElem?_set, List.length_set]
    by_cases hjb : b = j
    · subst hjb
      simp [hb, List.getElem?_eq_getElem (hlen ▸ hb : b < A.length)]
    · by_cases hja : a = j
      · subst hja
        simp [ha, hjb, List.getElem?_eq_getElem (hlen ▸ ha : a < A.length)]
      · simp only [hjb, hja, if_false]
        exact heq j (Ne.symm hja) (Ne.symm hjb)
  have h₁ := List.sum_set_add (L := B) ha (A[a]?.getD 0)
  have h₂ := List.sum_set_add (L := B.set a (A[a]?.getD 0)) (by simpa using hb) (A[b]?.getD 0)
  have hb' : b < (B.set a (A[a]?.getD 0)).length := by simpa using hb
  have h₃ : (B.set a (A[a]?.getD 0))[b] = B[b] := by
    rw [List.getElem_set, if_neg hab]
  rw [← hA, h₃] at h₂
  have hBa : B[a] = B[a]?.getD 0 := by simp [List.getElem?_eq_getElem ha]
  have hBb : B[b] = B[b]?.getD 0 := by simp [List.getElem?_eq_getElem hb]
  omega

/-- The pairs of a term and a document a map holds, entry by entry. -/
def TermMap.pairs (m : TermMap) : List (Bytes × Bytes) :=
  m.entries.flatMap fun e => e.2.toList.map (e.1, ·)

/-- The pairs of a term and a document the members' stores hold, member by member. -/
def Cluster.storedPairs (c : Cluster) : List (Bytes × Bytes) :=
  c.members.toList.flatMap fun n => n.search.store.map.pairs

theorem Cluster.ringMembers_eq_roles (c : Cluster) : c.ringMembers =
    ((c.members.toList.map fun n => (n.self, n.ring.inRing)).filter (·.2)).map (·.1) := by
  simp [Cluster.ringMembers, Cluster.peers, List.filter_map, Function.comp_def, Node.peer]

namespace Arrival

namespace Spliced

variable {E : Arrival} {c₀ c : Cluster} {K : Corpus} {ph : Nat}
  {R : List ((Bytes × DocSet) × UInt32)} (hs : E.Setting c₀ K) (h : E.Spliced c₀ ph R c)
include hs h

theorem roles : c.members.toList.map (fun n => (n.self, n.ring.inRing)) =
    (c₀.members.toList.map fun n => (n.self, n.ring.inRing)).set E.x (E.joiner.self, true) := by
  apply List.ext_getElem?
  intro j
  simp only [List.getElem?_map, Array.getElem?_toList, List.getElem?_set, List.length_map,
    Array.length_toList]
  by_cases hjx : E.x = j
  · subst hjx
    obtain ⟨n, hn, hJ⟩ := h.joiner
    have hlt : E.x < c₀.members.size := (Array.getElem?_eq_some_iff.1 hs.joiner).1
    simp [hn, hJ.self, hJ.inRing, hlt]
  · rw [if_neg hjx]
    cases hn₀ : c₀.members[j]? with
    | none =>
      have : c.members[j]? = none := by
        rw [Array.getElem?_eq_none_iff, h.size]
        exact Array.getElem?_eq_none_iff.1 hn₀
      simp [this]
    | some n₀ =>
      obtain ⟨n, hn, hM⟩ := h.member j n₀ (Ne.symm hjx) hn₀
      simp [hn, hM.self, hM.inRing]

theorem selves : c.members.toList.map (·.self) = c₀.members.toList.map (·.self) := by
  have h' := congrArg (List.map Prod.fst) (h.roles hs)
  simp only [List.map_map, Function.comp_def, List.map_set] at h'
  rw [h']
  have hlt : E.x < (c₀.members.toList.map (·.self)).length := by
    simpa using (Array.getElem?_eq_some_iff.1 hs.joiner).1
  have hx : (c₀.members.toList.map (·.self))[E.x] = E.joiner.self := by
    simp [List.getElem_map, Array.getElem_toList, (Array.getElem?_eq_some_iff.1 hs.joiner).2]
  conv_rhs => rw [← List.set_getElem_self hlt]
  rw [hx]

theorem handlerOf : c.handlerOf = c₀.handlerOf :=
  Cluster.handlerOf_of_selves (h.selves hs) h.endpoints

theorem ringMembers_perm : c.ringMembers.Perm (E.joiner.self :: c₀.ringMembers) := by
  rw [Cluster.ringMembers_eq_roles c, Cluster.ringMembers_eq_roles c₀, h.roles hs]
  have hx : (c₀.members.toList.map fun n => (n.self, n.ring.inRing))[E.x]? =
      some (E.joiner.self, false) := by
    simp [hs.joiner, hs.outside]
  simpa using (List.filter_set_perm (·.2) hx rfl rfl).map (·.1)

theorem ringIds_perm : c.ringIds.Perm (E.joiner.self.id :: c₀.ringIds) := by
  simpa [Cluster.ringIds] using (h.ringMembers_perm hs).map (·.id)

theorem mem_ringIds {m : RingId} : m ∈ c.ringIds ↔ m ∈ c₀.ringIds ∨ m = E.joiner.self.id := by
  rw [(h.ringIds_perm hs).mem_iff, List.mem_cons]
  exact Or.comm

theorem inRing_iff {r : NodeRef} : c.InRing r ↔ c₀.InRing r ∨ r = E.joiner.self := by
  rw [← Cluster.mem_ringMembers_iff, (h.ringMembers_perm hs).mem_iff, List.mem_cons,
    Cluster.mem_ringMembers_iff]
  exact Or.comm

theorem exists_self {n : Node} (hn : n ∈ c.members) : ∃ n₀ ∈ c₀.members, n₀.self = n.self := by
  have hmem : n.self ∈ c.members.toList.map (·.self) := List.mem_map_of_mem (Array.mem_toList_iff.2 hn)
  rw [h.selves hs] at hmem
  obtain ⟨n₀, hn₀, he⟩ := List.mem_map.1 hmem
  exact ⟨n₀, Array.mem_toList_iff.1 hn₀, he⟩


theorem sub_ringIds : ∀ m ∈ c.ringIds, m ∈ c₀.ringIds ∨ m = E.joiner.self.id :=
  fun _ hm => (h.mem_ringIds hs).1 hm

theorem old_mem_ringIds {m : RingId} (hm : m ∈ c₀.ringIds) : m ∈ c.ringIds :=
  (h.mem_ringIds hs).2 (.inl hm)

theorem joiner_mem_ringIds : E.joiner.self.id ∈ c.ringIds :=
  (h.mem_ringIds hs).2 (.inr rfl)

omit hs in
theorem member_of {j : Nat} (hjx : j ≠ E.x) {n : Node} (hn : c.members[j]? = some n) :
    ∃ n₀, c₀.members[j]? = some n₀ ∧ E.Member ph j n₀ n := by
  obtain ⟨n₀, hn₀⟩ : ∃ n₀, c₀.members[j]? = some n₀ := by
    have hlt := (Array.getElem?_eq_some_iff.1 hn).1
    exact ⟨_, Array.getElem?_eq_getElem (h.size ▸ hlt)⟩
  obtain ⟨n', hn', hM⟩ := h.member j n₀ hjx hn₀
  rw [hn] at hn'
  obtain rfl := Option.some.inj hn'
  exact ⟨n₀, hn₀, hM⟩

omit hs in
theorem joiner_of {n : Node} (hn : c.members[E.x]? = some n) : E.Joiner ph R n := by
  obtain ⟨n', hn', hJ⟩ := h.joiner
  rw [hn] at hn'
  rw [Option.some.inj hn']
  exact hJ

end Spliced

/-! ### The settled ring -/

namespace Spliced

variable {E : Arrival} {c₀ c : Cluster} {K : Corpus} {R : List ((Bytes × DocSet) × UInt32)}
  (hs : E.Setting c₀ K)
include hs

theorem correct (h : E.Spliced c₀ 3 R c) : c.Correct where
  nodup := (h.ringIds_perm hs).nodup_iff.2 (List.nodup_cons.2 ⟨hs.fresh, hs.correct.nodup⟩)
  addressed n hn := by
    obtain ⟨n₀, hn₀, hself⟩ := h.exists_self hs hn
    rw [← hself]
    exact hs.correct.addressed n₀ hn₀
  wired n hn hin := by
    rcases (h.inRing_iff hs).1 ⟨n, hn, rfl, hin⟩ with ⟨n₀, hn₀, hself, hin₀⟩ | hx
    · rw [← hself]
      exact hs.correct.wired n₀ hn₀ hin₀
    · obtain ⟨os, hos, hlen, -⟩ := hs.joinerWire
      exact ⟨os, hx ▸ hos, hlen⟩
  handler j n hj hin := by
    rw [h.handlerOf hs]
    by_cases hjx : j = E.x
    · subst hjx
      rw [(h.joiner_of hj).self]
      exact hs.joinerHandled
    · obtain ⟨n₀, hn₀, hM⟩ := h.member_of hjx hj
      rw [hM.self]
      exact hs.correct.handler j n₀ hn₀ (hM.inRing ▸ hin)
  successor n hn hin := by
    obtain ⟨j, hj⟩ := Array.mem_iff_getElem?.1 hn
    have hsub := h.sub_ringIds hs
    by_cases hjx : j = E.x
    · -- the joiner is followed by `succ`
      subst hjx
      have hJ := h.joiner_of hj
      rw [hJ.self, hJ.successor]
      exact ⟨(h.inRing_iff hs).2 (.inl hs.succ_inRing),
        hs.follows.splice_right hsub hs.inside (h.old_mem_ringIds hs hs.succ_inRing.id_mem)⟩
    · obtain ⟨n₀, hn₀, hM⟩ := h.member_of hjx hj
      have hin₀ : n₀.ring.inRing = true := hM.inRing ▸ hin
      rw [hM.self, hM.successor, successorAt]
      by_cases hjp : j = E.p
      · -- `pred` is followed by the joiner
        subst hjp
        rw [hs.pred] at hn₀
        obtain rfl := Option.some.inj hn₀
        rw [if_pos ⟨rfl, by omega⟩]
        exact ⟨(h.inRing_iff hs).2 (.inr rfl),
          hs.follows.splice_left hsub hs.inside (h.joiner_mem_ringIds hs)⟩
      · rw [if_neg fun hc => hjp hc.1]
        obtain ⟨hr, hf⟩ := hs.correct.successor n₀ (Array.mem_of_getElem? hn₀) hin₀
        exact ⟨(h.inRing_iff hs).2 (.inl hr),
          hf.splice_other hsub (hs.inside_successor hn₀ hin₀ hjp) (h.old_mem_ringIds hs hr.id_mem)⟩
  predecessor n hn hin := by
    obtain ⟨j, hj⟩ := Array.mem_iff_getElem?.1 hn
    have hsub := h.sub_ringIds hs
    by_cases hjx : j = E.x
    · -- the joiner follows `pred`
      subst hjx
      have hJ := h.joiner_of hj
      rw [hJ.self, hJ.predecessor, joinerPredecessor, if_pos le_rfl]
      exact ⟨(h.inRing_iff hs).2 (.inl hs.pred_inRing),
        hs.follows.splice_left hsub hs.inside (h.joiner_mem_ringIds hs)⟩
    · obtain ⟨n₀, hn₀, hM⟩ := h.member_of hjx hj
      have hin₀ : n₀.ring.inRing = true := hM.inRing ▸ hin
      rw [hM.self, hM.predecessor, predecessorAt]
      by_cases hjs : j = E.s
      · -- `succ` follows the joiner
        subst hjs
        rw [hs.succ] at hn₀
        obtain rfl := Option.some.inj hn₀
        rw [if_pos ⟨rfl, by omega⟩]
        exact ⟨(h.inRing_iff hs).2 (.inr rfl),
          hs.follows.splice_right hsub hs.inside (h.old_mem_ringIds hs hs.succ_inRing.id_mem)⟩
      · rw [if_neg fun hc => hjs hc.1]
        obtain ⟨hr, hf⟩ := hs.correct.predecessor n₀ (Array.mem_of_getElem? hn₀) hin₀
        exact ⟨(h.inRing_iff hs).2 (.inl hr),
          hf.splice_other hsub (hs.inside_predecessor hn₀ hin₀ hjs)
            (h.old_mem_ringIds hs (Cluster.InRing.id_mem ⟨n₀, Array.mem_of_getElem? hn₀, rfl, hin₀⟩))⟩


/-- Once `succ` has handed its part over and every store request has arrived, every term is
with its owner in the ring with the joiner: the joiner holds the keys of `(pred, joiner]`,
`succ` the rest of what it held, and every other member what it held. -/
theorem placed {ph : Nat} (hph : 1 ≤ ph) (h : E.Spliced c₀ ph [] c) : c.Placed := by
  intro n hn e he
  obtain ⟨j, hj⟩ := Array.mem_iff_getElem?.1 hn
  have hsub := h.sub_ringIds hs
  have hX : E.joiner.self.id ≠ E.succ.self.id := fun he => hs.fresh (he ▸ hs.succ_inRing.id_mem)
  by_cases hjx : j = E.x
  · -- the joiner holds what `succ` handed it
    subst hjx
    have hJ := h.joiner_of hj
    have hmoved : e ∈ E.split.2.entries := by
      have hp := hJ.store
      simp only [List.map_nil, List.append_nil, handedAt, if_pos hph] at hp
      exact hp.subset he
    obtain ⟨hS, hown⟩ := Setting.mem_moved hmoved
    have hfirst := (hs.placed E.succ (Array.mem_of_getElem? hs.succ) e hS).2
    rw [hJ.self]
    exact ⟨hJ.inRing, hfirst.splice_new hsub (Ring.dist_le_of_not_owns hown)
      (h.joiner_mem_ringIds hs)⟩
  · obtain ⟨n₀, hn₀, hM⟩ := h.member_of hjx hj
    rw [hM.self, hM.inRing]
    rw [hM.store, storeAt] at he
    by_cases hjs : j = E.s
    · -- `succ` keeps the keys of `(joiner, succ]`
      subst hjs
      rw [hs.succ] at hn₀
      obtain rfl := Option.some.inj hn₀
      rw [if_pos ⟨rfl, hph⟩] at he
      obtain ⟨hS, hown⟩ := Setting.mem_kept he
      obtain ⟨hin, hfirst⟩ := hs.placed E.succ (Array.mem_of_getElem? hs.succ) e hS
      exact ⟨hin, hfirst.splice_keep hsub (Ring.dist_le_of_owns hX hown)
        (h.old_mem_ringIds hs hfirst.1)⟩
    · -- any other member keeps its keys: the joiner comes after them
      rw [if_neg fun hc => hjs hc.1] at he
      obtain ⟨hin, hfirst⟩ := hs.placed n₀ (Array.mem_of_getElem? hn₀) e he
      refine ⟨hin, hfirst.splice_keep hsub (Nat.not_lt.1 fun hlt => hjs ?_)
        (h.old_mem_ringIds hs hfirst.1)⟩
      have hid := (hfirst.of_dist_lt hlt).unique hs.first
      exact hs.index_eq hn₀ hin hs.succ hs.succIn
        (hs.correct.inRing_inj ⟨n₀, Array.mem_of_getElem? hn₀, rfl, hin⟩ hs.succ_inRing hid)

theorem pairs_perm {ph : Nat} (hph : 1 ≤ ph) (h : E.Spliced c₀ ph [] c) :
    c.storedPairs.Perm c₀.storedPairs := by
  rw [List.perm_iff_count]
  intro y
  simp only [Cluster.storedPairs, List.count_flatMap]
  have hxs := hs.x_ne_s
  have hlt : ∀ {j n}, c₀.members[j]? = some n → j < (c₀.members.toList.map
      (List.count y ∘ fun n => n.search.store.map.pairs)).length := fun hj => by
    simpa using (Array.getElem?_eq_some_iff.1 hj).1
  refine List.sum_eq_of_two (by simp [h.size]) hxs (hlt hs.joiner) (hlt hs.succ) (fun j hjx hjs => ?_) ?_
  · -- every other member keeps its store
    simp only [List.getElem?_map, Array.getElem?_toList]
    cases hn₀ : c₀.members[j]? with
    | none =>
      have : c.members[j]? = none := by
        rw [Array.getElem?_eq_none_iff, h.size]
        exact Array.getElem?_eq_none_iff.1 hn₀
      simp [this]
    | some n₀ =>
      obtain ⟨n, hn, hM⟩ := h.member j n₀ hjx hn₀
      rw [hn, Option.map_some, Option.map_some, Function.comp_apply, Function.comp_apply, hM.store,
        storeAt, if_neg fun hc => hjs hc.1]
  · -- the joiner holds what `succ` no longer does
    obtain ⟨nx, hnx, hJ⟩ := h.joiner
    obtain ⟨ns, hns, hM⟩ := h.member E.s E.succ (Ne.symm hxs) hs.succ
    simp only [List.getElem?_map, Array.getElem?_toList, hnx, hns, hs.joiner, hs.succ,
      Option.map_some, Option.getD_some, Function.comp_apply]
    rw [hM.store, storeAt, if_pos ⟨rfl, hph⟩]
    have hmoved : nx.search.store.map.entries.Perm E.split.2.entries := by
      simpa [handedAt, hph] using hJ.store
    have hempty : E.joiner.search.store.map.pairs = [] := by
      simp [TermMap.pairs, hs.joiner_entries]
    rw [hempty, List.count_nil, Nat.zero_add]
    have hsplit := (Setting.split_perm (E := E)).flatMap_right fun e => e.2.toList.map (e.1, ·)
    rw [List.flatMap_append] at hsplit
    simp only [TermMap.pairs]
    rw [← hsplit.count_eq y, List.count_append, (hmoved.flatMap_right _).count_eq y]
    omega

end Spliced

end Arrival

end ChordSearch
