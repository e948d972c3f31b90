import ChordSearch.Proofs.Ring.Settling
import ChordSearch.Proofs.Search.Custody

/-! # A join, then rounds of stabilize ticks

A node outside a correct ring joins it through a ring member. Once every datagram of the join
is delivered, the cluster is in phase 0 of the entry (`Arrival.join_splices`). Then the ring
members and the joiner tick in rounds, each tick followed by the delivery of every datagram it
causes, and each tick moves the cluster to the phase `Arrival.advance` gives
(`Arrival.tick_advances`). A round therefore moves it by the fold of `advance` over the round's
order. That fold never goes back and never passes phase 3, and a round with the joiner and
`pred` in it moves any phase below 3 on by one: three rounds settle the ring.

* `Cluster.Round`: a round of ticks in a given order.
* `Arrival.round_advances`: a round of ticks by ring members exists, and moves the cluster to the
  phase of the fold.
* `Arrival.join_then_rounds_settle`: after the join and three rounds, in any order that names
  every ring member and the joiner, the ring is correct with the joiner in it, the joiner's
  table is complete, every term is with its owner, and the stores hold the pairs they held.
-/

namespace ChordSearch

namespace Cluster

/-- A round of stabilize ticks in the order `os`: member after member ticks, and every
datagram its tick causes is delivered, in whatever order, before the next member ticks. -/
inductive Round : List Nat → Cluster → Cluster → Prop
  | nil (c : Cluster) : Round [] c c
  | cons {i : Nat} {os : List Nat} {c c₁ c' : Cluster} :
      Delivering (c.turn i Node.tick).2 c₁ → c₁.queue.toList = [] → Round os c₁ c' →
      Round (i :: os) c c'

end Cluster

namespace Arrival

variable {E : Arrival}

/-! ### The phase after a round -/

theorem le_advance (ph i : Nat) : ph ≤ E.advance ph i := by
  simp only [advance, adopted]
  split_ifs <;> omega

theorem advance_le_succ (ph i : Nat) : E.advance ph i ≤ ph + 1 := by
  simp only [advance, adopted]
  split_ifs <;> omega

theorem advance_le_three {ph : Nat} (h : ph ≤ 3) (i : Nat) : E.advance ph i ≤ 3 := by
  simp only [advance, adopted]
  split_ifs <;> omega

theorem advance_mono {ph ph' : Nat} (h : ph ≤ ph') (i : Nat) : E.advance ph i ≤ E.advance ph' i := by
  rcases Nat.eq_or_lt_of_le h with rfl | hlt
  · exact le_rfl
  · exact (E.advance_le_succ ph i).trans (hlt.trans_le (E.le_advance ph' i))

theorem le_foldl_advance (os : List Nat) (ph : Nat) : ph ≤ os.foldl E.advance ph := by
  induction os generalizing ph with
  | nil => exact le_rfl
  | cons i os ih => exact (E.le_advance ph i).trans (ih _)

theorem foldl_advance_mono (os : List Nat) {ph ph' : Nat} (h : ph ≤ ph') :
    os.foldl E.advance ph ≤ os.foldl E.advance ph' := by
  induction os generalizing ph ph' with
  | nil => exact h
  | cons i os ih => exact ih (E.advance_mono h i)

theorem foldl_advance_le_three (os : List Nat) {ph : Nat} (h : ph ≤ 3) :
    os.foldl E.advance ph ≤ 3 := by
  induction os generalizing ph with
  | nil => exact h
  | cons i os ih => exact ih (E.advance_le_three h i)

theorem succ_le_foldl_advance {os : List Nat} {ph i : Nat} (hi : i ∈ os)
    (hadv : E.advance ph i = ph + 1) : ph + 1 ≤ os.foldl E.advance ph := by
  induction os with
  | nil => simp at hi
  | cons j os ih =>
    rw [List.foldl_cons]
    rcases List.mem_cons.1 hi with rfl | hi
    · rw [hadv]
      exact E.le_foldl_advance os _
    · exact (ih hi).trans (E.foldl_advance_mono os (E.le_advance ph j))

theorem three_rounds {os : List Nat} (hx : E.x ∈ os) (hp : E.p ∈ os) :
    os.foldl E.advance (os.foldl E.advance (os.foldl E.advance 0)) = 3 := by
  have h₁ : 1 ≤ os.foldl E.advance 0 := E.succ_le_foldl_advance hx (by simp [advance, adopted])
  have h₂ : 2 ≤ os.foldl E.advance (os.foldl E.advance 0) :=
    (E.succ_le_foldl_advance hp (by simp [advance])).trans (E.foldl_advance_mono os h₁)
  have h₃ : 3 ≤ os.foldl E.advance (os.foldl E.advance (os.foldl E.advance 0)) :=
    (E.succ_le_foldl_advance hp (by simp [advance, adopted])).trans (E.foldl_advance_mono os h₂)
  have hle := E.foldl_advance_le_three os (E.foldl_advance_le_three os
    (E.foldl_advance_le_three os (Nat.zero_le 3)))
  omega

/-! ### Rounds of ticks -/

/-- Member `i` ticks in the rounds: the joiner, or a member in the ring of `c₀`. -/
def Ticker (E : Arrival) (c₀ : Cluster) (i : Nat) : Prop :=
  i = E.x ∨ ∃ n₀, c₀.members[i]? = some n₀ ∧ n₀.ring.inRing = true

variable {c₀ : Cluster} {K : Corpus}

theorem Spliced.ticker (hs : E.Setting c₀ K) {ph : Nat} {R : List ((Bytes × DocSet) × UInt32)}
    {c : Cluster} (h : E.Spliced c₀ ph R c) {i : Nat} (hi : E.Ticker c₀ i) :
    ∃ m, c.members[i]? = some m ∧ m.ring.inRing = true := by
  rcases hi with rfl | ⟨n₀, hn₀, hin₀⟩
  · obtain ⟨n, hn, hJ⟩ := h.joiner
    exact ⟨n, hn, hJ.inRing⟩
  · obtain ⟨n, hn, hM⟩ := h.member i n₀ (hs.ne_x hn₀ hin₀) hn₀
    exact ⟨n, hn, hM.inRing.trans hin₀⟩

/-- A round of ticks by members that tick in the rounds, on a quiet cluster in phase `ph` of
the entry, can be run; and whatever order each tick's datagrams are delivered in, it leaves the
cluster quiet, in the phase the fold of `advance` over the round gives. -/
theorem round_advances (hs : E.Setting c₀ K) {os : List Nat} (hos : ∀ i ∈ os, E.Ticker c₀ i)
    {ph : Nat} {c : Cluster} (h : E.Spliced c₀ ph [] c) (hq : c.queue.toList = []) :
    (∃ c', c.Round os c') ∧
      ∀ c', c.Round os c' → E.Spliced c₀ (os.foldl E.advance ph) [] c' ∧ c'.queue.toList = [] := by
  induction os generalizing ph c with
  | nil =>
    refine ⟨⟨c, .nil c⟩, fun c' hr => ?_⟩
    cases hr
    exact ⟨h, hq⟩
  | cons i os ih =>
    obtain ⟨m, hi, hin⟩ := h.ticker hs (hos i List.mem_cons_self)
    have hos' : ∀ j ∈ os, E.Ticker c₀ j := fun j hj => hos j (List.mem_cons_of_mem _ hj)
    obtain ⟨⟨c₁, hrun, hq₁⟩, hafter⟩ := tick_advances hs h hq hi hin
    refine ⟨?_, fun c' hr => ?_⟩
    · obtain ⟨⟨c', hr⟩, -⟩ := ih hos' (hafter c₁ hrun hq₁) hq₁
      exact ⟨c', .cons hrun hq₁ hr⟩
    · cases hr with
      | cons hrun' hq' hr' => exact (ih hos' (hafter _ hrun' hq') hq').2 _ hr'

/-! ### The join, then three rounds -/

variable {L : NodeRef} {os : List Nat}

/-- The join and three rounds can be run: each round on the quiet cluster the one before
leaves. -/
theorem rounds_exist (hs : E.Setting c₀ K) (hL : c₀.InRing L) (hos : ∀ i, i ∈ os ↔ E.Ticker c₀ i) :
    ∃ c₁ c₂ c₃ c₄, Cluster.Delivering (c₀.turn E.x (Op.join L).act).2 c₁ ∧
      c₁.queue.toList = [] ∧ c₁.Round os c₂ ∧ c₂.Round os c₃ ∧ c₃.Round os c₄ := by
  have hround := @round_advances E c₀ K hs os fun i hi => (hos i).1 hi
  obtain ⟨⟨c₁, hrun, hq₁⟩, hjoin⟩ := join_splices hs hL
  obtain ⟨⟨c₂, hr₂⟩, hafter₂⟩ := hround (hjoin c₁ hrun hq₁) hq₁
  obtain ⟨h₂, hq₂⟩ := hafter₂ c₂ hr₂
  obtain ⟨⟨c₃, hr₃⟩, hafter₃⟩ := hround h₂ hq₂
  obtain ⟨h₃, hq₃⟩ := hafter₃ c₃ hr₃
  obtain ⟨⟨c₄, hr₄⟩, -⟩ := hround h₃ hq₃
  exact ⟨c₁, c₂, c₃, c₄, hrun, hq₁, hr₂, hr₃, hr₄⟩

/-- After the join and three rounds the entry is in phase 3, with nothing in flight. -/
theorem rounds_settle (hs : E.Setting c₀ K) (hL : c₀.InRing L) (hos : ∀ i, i ∈ os ↔ E.Ticker c₀ i)
    {c₁ c₂ c₃ c₄ : Cluster} (hrun : Cluster.Delivering (c₀.turn E.x (Op.join L).act).2 c₁)
    (hq₁ : c₁.queue.toList = []) (hr₂ : c₁.Round os c₂) (hr₃ : c₂.Round os c₃)
    (hr₄ : c₃.Round os c₄) : E.Spliced c₀ 3 [] c₄ ∧ c₄.queue.toList = [] := by
  have hround := @round_advances E c₀ K hs os fun i hi => (hos i).1 hi
  obtain ⟨-, hjoin⟩ := join_splices hs hL
  obtain ⟨h₂, hq₂⟩ := (hround (hjoin c₁ hrun hq₁) hq₁).2 c₂ hr₂
  obtain ⟨h₃, hq₃⟩ := (hround h₂ hq₂).2 c₃ hr₃
  obtain ⟨h₄, hq₄⟩ := (hround h₃ hq₃).2 c₄ hr₄
  -- the joiner and `pred` tick in every round
  rw [three_rounds ((hos _).2 (.inl rfl)) ((hos _).2 (.inr ⟨E.pred, hs.pred, hs.predIn⟩))] at h₄
  exact ⟨h₄, hq₄⟩

theorem index_lt_of_shaped {me : RingId} {r : Membership} (h : r.Shaped me) {f : Finger}
    (hf : f ∈ r.fingers) : f.index < idBits := by
  obtain ⟨j, hj, rfl⟩ := Array.mem_iff_getElem.1 hf
  rw [(h.entry j hj).1]
  exact lt_of_lt_of_le hj h.size_le

/-- In every phase each member numbers its fingers below `idBits`: the joiner builds its table
as nodes do, and every other member keeps the places of its table. -/
theorem Spliced.fingersIndexed (hs : E.Setting c₀ K) {ph : Nat}
    {R : List ((Bytes × DocSet) × UInt32)} {c : Cluster} (h : E.Spliced c₀ ph R c) :
    ∀ n ∈ c.members, n.FingersIndexed := by
  intro n hn f hf
  obtain ⟨j, hj⟩ := Array.mem_iff_getElem?.1 hn
  by_cases hjx : j = E.x
  · subst hjx
    obtain ⟨m, hm, hJ⟩ := h.joiner
    rw [hj, Option.some.injEq] at hm
    subst hm
    exact index_lt_of_shaped hJ.shaped hf
  · have hlt : j < c₀.members.size := h.size ▸ (Array.getElem?_eq_some_iff.1 hj).1
    obtain ⟨m, hm, hM⟩ := h.member j c₀.members[j] hjx (Array.getElem?_eq_getElem hlt)
    rw [hj, Option.some.injEq] at hm
    subst hm
    have hshaped : n.ring.Shaped c₀.members[j].self.id :=
      Membership.Shaped.of_places (hs.shaped _ (Array.getElem_mem hlt)) hM.places hM.inRing
    exact index_lt_of_shaped hshaped hf

/-- A node outside a correct ring joins it through a ring member `L`, and every datagram of
the join is delivered, in whatever order. Then three rounds of stabilize ticks follow, in an
order `os` that names exactly the ring members and the joiner, each tick followed by the
delivery of every datagram it causes, in whatever order. Such runs exist; and after any of
them the ring is correct, its members are those of before and the joiner, the joiner's table
has an entry for each of the 160 bits of a position, every term is held by its owner alone,
and the stores hold the pairs of a term and a document they held before, each as many times. -/
theorem join_then_rounds_settle (hs : E.Setting c₀ K) {L : NodeRef} (hL : c₀.InRing L)
    {os : List Nat} (hos : ∀ i, i ∈ os ↔ E.Ticker c₀ i) :
    (∃ c₁ c₂ c₃ c₄, Cluster.Delivering (c₀.turn E.x (Op.join L).act).2 c₁ ∧
      c₁.queue.toList = [] ∧ c₁.Round os c₂ ∧ c₂.Round os c₃ ∧ c₃.Round os c₄) ∧
    ∀ c₁ c₂ c₃ c₄, Cluster.Delivering (c₀.turn E.x (Op.join L).act).2 c₁ →
      c₁.queue.toList = [] → c₁.Round os c₂ → c₂.Round os c₃ → c₃.Round os c₄ →
      c₄.Correct ∧ c₄.ringMembers.Perm (E.joiner.self :: c₀.ringMembers) ∧
      (∃ n, c₄.members[E.x]? = some n ∧ n.ring.fingers.size = 160) ∧
      c₄.Placed ∧ c₄.storedPairs.Perm c₀.storedPairs := by
  refine ⟨rounds_exist hs hL hos, fun c₁ c₂ c₃ c₄ hrun hq₁ hr₂ hr₃ hr₄ => ?_⟩
  obtain ⟨h₄, -⟩ := rounds_settle hs hL hos hrun hq₁ hr₂ hr₃ hr₄
  obtain ⟨n, hn, hJ⟩ := h₄.joiner
  exact ⟨Spliced.correct hs h₄, Spliced.ringMembers_perm hs h₄, ⟨n, hn, hJ.complete⟩,
    Spliced.placed hs (by omega) h₄, Spliced.pairs_perm hs (by omega) h₄⟩

/-- Terms stay at their owners through a join. From a correct, quiescent ring in which every
stored term is held by its owner, a node joins through any member; once the join's datagrams
are delivered, in any order, and three rounds of stabilize ticks by the ring members and the
joiner have run, the member whose predecessor changed has handed the joiner what it no longer
owns: nothing is in flight, the ring is correct and every stored term is held by its owner
alone. Every run that then holds the ring still, publishes included, keeps every stored term
at its owner at every point. -/
theorem placed_through_join (hs : E.Setting c₀ K) (hL : c₀.InRing L)
    (hos : ∀ i, i ∈ os ↔ E.Ticker c₀ i) {c₁ c₂ c₃ c₄ : Cluster}
    (hrun : Cluster.Delivering (c₀.turn E.x (Op.join L).act).2 c₁) (hq₁ : c₁.queue.toList = [])
    (hr₂ : c₁.Round os c₂) (hr₃ : c₂.Round os c₃) (hr₄ : c₃.Round os c₄) :
    c₄.queue.toList = [] ∧ c₄.Correct ∧ c₄.Placed ∧ ∀ c, Cluster.StillRun c₄ c → c.Placed := by
  obtain ⟨h₄, hq₄⟩ := rounds_settle hs hL hos hrun hq₁ hr₂ hr₃ hr₄
  have hc : c₄.Correct := Spliced.correct hs h₄
  have hp : c₄.Placed := Spliced.placed hs (by omega) h₄
  exact ⟨hq₄, hc, hp, fun c hstill => hstill.placed hc hp hq₄ (h₄.fingersIndexed hs)⟩

end Arrival

/-! ### A node joining a ring of one -/

namespace Cluster

/-- The term `kiwi`, which node 2 owns once it is in the ring. -/
def kiwi : Bytes := [107, 105, 119, 105]

/-- Node 1 at `10.0.0.1`, alone in its ring, holding `doc1` under `kiwi`. -/
def soloOne : Node :=
  { pairedWith refOne refOne with
    search := { store := Store.mk (TermMap.mk [(kiwi, DocSet.empty.insert doc1)]) } }

/-- Node 2 at `10.0.0.2`, as set up: outside any ring, with nothing stored. -/
def freshTwo : Node :=
  { self := refTwo, config := {}, directory := ⟨[]⟩, lastTx := 0, reportsEvents := false }

/-- Node 1 alone in its ring, and node 2 about to join it, each reachable at its address. -/
def soloJoin : Cluster :=
  { members := #[soloOne, freshTwo], endpoints := [⟨refOne.addr, false⟩, ⟨refTwo.addr, false⟩] }

/-- Node 2 enters the ring of node 1, after node 1 and before it. -/
def soloEntry : Arrival := ⟨1, freshTwo, 0, soloOne, 0, soloOne⟩

theorem mem_soloJoin {n : Node} (hn : n ∈ soloJoin.members) : n = soloOne ∨ n = freshTwo := by
  simpa [soloJoin] using hn

theorem soloJoin_ringIds : soloJoin.ringIds = [refOne.id] := by decide +kernel

theorem soloJoin_inRing : soloJoin.InRing refOne := ⟨soloOne, by simp [soloJoin], rfl, rfl⟩

theorem soloJoin_correct : soloJoin.Correct where
  nodup := by
    rw [soloJoin_ringIds]
    exact List.nodup_singleton _
  addressed n hn := by rcases mem_soloJoin hn with rfl | rfl <;> rfl
  wired n hn hin := by
    rcases mem_soloJoin hn with rfl | rfl
    · exact ⟨[10, 0, 0, 1], rfl, rfl⟩
    · simp [freshTwo] at hin
  handler i n hi hin := by
    match i, hi with
    | 0, hi =>
      cases hi
      decide
    | 1, hi =>
      cases hi
      exact absurd hin Bool.false_ne_true
  successor n hn hin := by
    rcases mem_soloJoin hn with rfl | rfl
    · rw [soloJoin_ringIds]
      exact ⟨soloJoin_inRing, Ring.follows_singleton _⟩
    · simp [freshTwo] at hin
  predecessor n hn hin := by
    rcases mem_soloJoin hn with rfl | rfl
    · rw [soloJoin_ringIds]
      exact ⟨soloJoin_inRing, Ring.follows_singleton _⟩
    · simp [freshTwo] at hin

theorem soloEntry_setting : soloEntry.Setting soloJoin doc1Corpus where
  correct := soloJoin_correct
  placed n hn e he := by
    rcases mem_soloJoin hn with rfl | rfl
    · refine ⟨rfl, ?_⟩
      rw [soloJoin_ringIds]
      exact Ring.firstFrom_singleton _ _
    · simp [freshTwo, Store.empty, TermMap.empty] at he
  wire p hp _ := by
    simp only [Cluster.peers, soloJoin, List.map_cons, List.map_nil, List.mem_cons,
      List.not_mem_nil, or_false] at hp
    rcases hp with rfl | rfl
    · exact ⟨[10, 0, 0, 1], rfl, rfl, by decide⟩
    · exact ⟨[10, 0, 0, 2], rfl, rfl, by decide⟩
  uncut _ _ _ := List.not_mem_nil
  quiet := rfl
  tidy n hn := by
    rcases mem_soloJoin hn with rfl | rfl
    · exact ⟨List.pairwise_singleton _ _, by decide⟩
    · exact TermMap.tidy_empty
  shaped n hn := by rcases mem_soloJoin hn with rfl | rfl <;> exact Node.Shaped.of_empty rfl
  joiner := rfl
  outside := rfl
  unlinked := by decide
  joinerWire := ⟨[10, 0, 0, 2], rfl, rfl, by decide⟩
  joinerHandled := by decide
  joinerUncut := List.not_mem_nil
  fresh := by
    rw [soloJoin_ringIds]
    decide +kernel
  succ := rfl
  succIn := rfl
  first := by
    rw [soloJoin_ringIds]
    exact Ring.firstFrom_singleton _ _
  pred := rfl
  predIn := rfl
  before := rfl

theorem soloJoin_tickers : ∀ i, i ∈ [0, 1] ↔ soloEntry.Ticker soloJoin i := by
  intro i
  constructor
  · intro hi
    rcases List.mem_pair.1 hi with rfl | rfl
    · exact .inr ⟨soloOne, rfl, rfl⟩
    · exact .inl rfl
  · rintro (rfl | ⟨n₀, hn₀, -⟩)
    · simp [soloEntry]
    · have hlt : i < 2 := (Array.getElem?_eq_some_iff.1 hn₀).1
      rw [List.mem_pair]
      omega

/-- Node 2 joins the ring of node 1 through node 1, and both tick in three rounds; node 2
takes `kiwi` over from node 1. -/
theorem soloJoin_settles :
    soloEntry.Setting soloJoin doc1Corpus ∧ soloJoin.InRing refOne ∧
    (∀ i, i ∈ [0, 1] ↔ soloEntry.Ticker soloJoin i) ∧
    ((∃ c₁ c₂ c₃ c₄, Cluster.Delivering (soloJoin.turn 1 (Op.join refOne).act).2 c₁ ∧
      c₁.queue.toList = [] ∧ c₁.Round [0, 1] c₂ ∧ c₂.Round [0, 1] c₃ ∧ c₃.Round [0, 1] c₄) ∧
    ∀ c₁ c₂ c₃ c₄, Cluster.Delivering (soloJoin.turn 1 (Op.join refOne).act).2 c₁ →
      c₁.queue.toList = [] → c₁.Round [0, 1] c₂ → c₂.Round [0, 1] c₃ → c₃.Round [0, 1] c₄ →
      c₄.Correct ∧ c₄.ringMembers.Perm (refTwo :: soloJoin.ringMembers) ∧
      (∃ n, c₄.members[1]? = some n ∧ n.ring.fingers.size = 160) ∧
      c₄.Placed ∧ c₄.storedPairs.Perm soloJoin.storedPairs) :=
  ⟨soloEntry_setting, soloJoin_inRing, soloJoin_tickers,
    Arrival.join_then_rounds_settle soloEntry_setting soloJoin_inRing soloJoin_tickers⟩

/-- Node 2 joins the ring of node 1, which holds `kiwi`; after three rounds node 2 holds it,
and every run that holds the pair still keeps it there. -/
theorem soloJoin_placed_through_join :
    soloEntry.Setting soloJoin doc1Corpus ∧ soloJoin.InRing refOne ∧
    (∀ i, i ∈ [0, 1] ↔ soloEntry.Ticker soloJoin i) ∧
    ∃ c₁ c₂ c₃ c₄, Cluster.Delivering (soloJoin.turn 1 (Op.join refOne).act).2 c₁ ∧
      c₁.queue.toList = [] ∧ c₁.Round [0, 1] c₂ ∧ c₂.Round [0, 1] c₃ ∧ c₃.Round [0, 1] c₄ ∧
      c₄.queue.toList = [] ∧ c₄.Correct ∧ c₄.Placed ∧ ∀ c, StillRun c₄ c → c.Placed := by
  obtain ⟨c₁, c₂, c₃, c₄, hrun, hq₁, hr₂, hr₃, hr₄⟩ :=
    Arrival.rounds_exist soloEntry_setting soloJoin_inRing soloJoin_tickers
  exact ⟨soloEntry_setting, soloJoin_inRing, soloJoin_tickers, c₁, c₂, c₃, c₄, hrun, hq₁, hr₂,
    hr₃, hr₄, Arrival.placed_through_join soloEntry_setting soloJoin_inRing soloJoin_tickers hrun
      hq₁ hr₂ hr₃ hr₄⟩

end Cluster

end ChordSearch
