import ChordSearch.Proofs.Node.Matching

/-! # A ping nobody answers fails once

A ping to a set node is kept in flight under the id it drew until an answer names that id,
the node leaves the ring, or an audit finds its deadline `sentAt + pingTimeout` reached. A
run that spares the ping until then (`Node.Spares`) keeps it (`Node.Spares.keeps`): the ids
drawn meanwhile are fresh, by the books `Node.Books`, so no later ping replaces it.
The first audit at or after the deadline reports it failed (`Node.audit_reports`), and over
the whole run it is reported exactly once (`Node.ping_fails_once`).
-/

namespace ChordSearch

open NodeM

theorem Turn.pingsFailed_kinds (t : Turn) (ps : List (Pending PingRequest)) :
    ∀ e ∈ (t.pingsFailed ps).events, e ∈ t.events ∨ e.kind = .pingFailure := by
  induction ps generalizing t with
  | nil => exact fun e he => .inl he
  | cons p ps ih =>
    intro e he
    rcases ih (t.pingFailed p.value) e he with he | he
    · simp only [pingFailed, Turn.noted] at he
      split at he
      · rcases Array.mem_push.1 he with he | rfl
        · exact .inl he
        · exact .inr rfl
      · exact .inl he
    · exact .inr he

namespace Node

/-- Whether a stimulus, at node `n`, leaves ping `x` in flight until `deadline`: it is no
answer under `x`, no leave while the node is in the ring, and no audit at or after the
deadline. -/
def Stimulus.Spares (x : UInt32) (deadline : Int) (n : Node) (s : Stimulus) : Prop :=
  match s.input with
  | .act .leave => n.ring.inRing = false
  | .act .auditPings => s.now < deadline
  | .handle _ ⟨tx, .pingRsp _⟩ => tx ≠ x
  | _ => True

/-- Every turn of a run leaves ping `x` in flight until `deadline`. -/
def Spares (x : UInt32) (deadline : Int) : Node → List Stimulus → Prop
  | _, [] => True
  | n, s :: ss => s.Spares x deadline n ∧ (n.answer s).node.Spares x deadline ss

theorem answer_keeps_ping {D : Nat} {rep : Awaited → UInt32 → Nat} {n : Node} (h : n.Books D rep)
    {s : Stimulus} (hk : D + ((n.answer s).node.lastTx - n.lastTx).toNat < 2 ^ 32)
    {e : Pending PingRequest} (he : e ∈ n.ring.pings.entries)
    (hs : s.Spares e.tx (e.sentAt + n.config.pingTimeout) n) :
    e ∈ (n.answer s).node.ring.pings.entries := by
  rcases answer_pings n s with h' | ⟨hl, hin, -⟩ | ⟨dest, message, -, -, h', hlast⟩ | ⟨ha, h'⟩ |
    ⟨from_, tx, text, hin, h'⟩
  · rw [h']
    exact he
  · simp [Stimulus.Spares, hl, hin] at hs
  · -- the ping sent draws an id no ping in flight has
    have hfresh := ((h.ledger .ping).fresh (Ledger.drawn_one n.lastTx)
      (by simpa [hlast] using hk)).1
    have hne : e.tx ≠ n.lastTx + 1 := fun heq => hfresh (heq ▸ List.mem_map_of_mem he)
    rw [h', Tracker.add, List.mem_append]
    exact .inl (List.mem_filter.2 ⟨he, by simpa using hne⟩)
  · simp only [Stimulus.Spares, ha] at hs
    rw [h']
    simp only [Tracker.expire, List.partition_eq_filter_filter, List.mem_filter]
    exact ⟨he, by simpa using hs⟩
  · simp only [Stimulus.Spares, hin] at hs
    rw [h', Tracker.take_entries]
    exact List.mem_filter.2 ⟨he, by simpa using Ne.symm hs⟩

theorem Spares.keeps {D : Nat} {rep : Awaited → UInt32 → Nat} {n : Node} (h : n.Books D rep)
    {ss : List Stimulus} (hk : D + n.moves ss < 2 ^ 32) {e : Pending PingRequest}
    (he : e ∈ n.ring.pings.entries) (hs : n.Spares e.tx (e.sentAt + n.config.pingTimeout) ss) :
    e ∈ (n.after ss).ring.pings.entries := by
  induction ss generalizing n D rep with
  | nil => exact he
  | cons s ss ih =>
    simp only [moves] at hk
    have he' := answer_keeps_ping h (by omega) he hs.1
    have hs' := hs.2
    rw [← (answer_configured n s).1] at hs'
    exact ih (h.answer s (by omega)) (by omega) he' hs'

theorem audit_reports {n : Node} (hf : n.PingsFiled) (hev : n.reportsEvents = true)
    {e : Pending PingRequest} (he : e ∈ n.ring.pings.entries) {s : Stimulus}
    (ha : s.input = .act .auditPings) (hdue : e.sentAt + n.config.pingTimeout ≤ s.now) :
    ∃ ev ∈ (n.answer s).events.toList, ev.kind = .pingFailure ∧ ev.reports .ping e.tx = true := by
  obtain ⟨input, now, linkOpen⟩ := s
  subst ha
  rw [answer_eq, Input.run, Op.act, NodeM.run_discard, auditPings_run]
  set t : Turn := { node := n, now, linkOpen }
  set gone := (n.ring.pings.expire now n.config.pingTimeout).1
  have hgone : e ∈ gone :=
    (n.ring.pings.expire_perm now n.config.pingTimeout).symm.subset
      (List.mem_filter.2 ⟨he, by simpa using hdue⟩)
  have hcount := Turn.countP_pingsFailed (t.mapRing fun r =>
    { r with pings := (n.ring.pings.expire now n.config.pingTimeout).2 }) gone .ping e.tx
  have hpos : 0 < (gone.map (·.value.tx)).count e.tx :=
    List.count_pos_iff.2 (List.mem_map.2 ⟨e, hgone, hf e he⟩)
  have hpos' : 0 < (Turn.pingsFailed gone (t.mapRing fun r =>
      { r with pings := (n.ring.pings.expire now n.config.pingTimeout).2 })).events.toList.countP
      (·.reports .ping e.tx) := by
    rw [hcount]
    simp only [t, Turn.mapRing_node, hev, and_self, if_true]
    omega
  obtain ⟨ev, hev', hrep⟩ := List.countP_pos_iff.1 hpos'
  refine ⟨ev, hev', ?_, hrep⟩
  rcases Turn.pingsFailed_kinds _ gone ev (by simpa using hev') with h | h
  · simp [t] at h
  · exact h

/-- A ping sent to a set node, at time `sentAt`, that no answer names, no leave from the ring
drops and no audit before the first one at or after its deadline expires, is reported
exactly once over the run, as failed by that audit, provided the run moves the node's
transaction counter fewer than `2 ^ 32` places. -/
theorem ping_fails_once {cfg : Config} {seed : UInt32} {n₀ : Node}
    (hc : Node.create cfg seed true = .ok n₀) (ss₁ ss₂ ss₃ : List Stimulus) {dest : NodeRef}
    (hdest : dest.isUnset = false) (message : Bytes) (sentAt : Int) (linkOpen : Bool)
    {audit : Stimulus} (ha : audit.input = .act .auditPings)
    (hdue : sentAt + cfg.pingTimeout ≤ audit.now)
    (hspare : (n₀.after (ss₁ ++ [⟨.act (.ping dest message), sentAt, linkOpen⟩])).Spares
      ((n₀.after ss₁).lastTx + 1) (sentAt + cfg.pingTimeout) ss₂)
    (hk : n₀.moves (ss₁ ++ ⟨.act (.ping dest message), sentAt, linkOpen⟩ :: ss₂ ++
      audit :: ss₃) < 2 ^ 32) :
    (n₀.reported (ss₁ ++ ⟨.act (.ping dest message), sentAt, linkOpen⟩ :: ss₂ ++
      audit :: ss₃)).countP (·.reports .ping ((n₀.after ss₁).lastTx + 1)) = 1 ∧
    ∃ ev ∈ ((n₀.after (ss₁ ++ ⟨.act (.ping dest message), sentAt, linkOpen⟩ :: ss₂)).answer
      audit).events.toList, ev.kind = .pingFailure ∧
        ev.reports .ping ((n₀.after ss₁).lastTx + 1) = true := by
  set ping : Stimulus := ⟨.act (.ping dest message), sentAt, linkOpen⟩
  set n₁ := n₀.after ss₁
  set x := n₁.lastTx + 1
  set e : Pending PingRequest := ⟨x, ⟨x, dest, message, sentAt⟩, sentAt⟩
  have hrun : ss₁ ++ ping :: ss₂ ++ audit :: ss₃ = (ss₁ ++ [ping]) ++ ss₂ ++ audit :: ss₃ := by
    simp
  rw [hrun] at hk ⊢
  rw [moves_append, moves_append] at hk
  have hmove₁ := moves_append n₀ ss₁ [ping]
  have hB₂ := (Books.create hc).after (ss₁ ++ [ping]) (by omega)
  have he₂ : e ∈ (n₀.after (ss₁ ++ [ping])).ring.pings.entries := by
    rw [after_append]
    show e ∈ ((n₁.answer ping).node.after []).ring.pings.entries
    rw [Node.after, answer_eq]
    simp only [ping, Input.run, Op.act, NodeM.run_discard, sendPing_run, hdest,
      Bool.false_eq_true, if_false, Turn.sent_ring, Turn.mapRing_node, Turn.drawTx_node,
      Tracker.add, List.mem_append, List.mem_singleton]
    exact .inr rfl
  have hcfg : (n₀.after (ss₁ ++ [ping])).config = cfg := by
    rw [(after_configured _ _).1, (create_search hc).2.1]
  have he₃ := @Spares.keeps _ _ _ hB₂ ss₂ (by omega) _ he₂ (by rw [hcfg]; exact hspare)
  have hB₃ := hB₂.after ss₂ (by omega)
  have hev₃ : (n₀.after (ss₁ ++ [ping] ++ ss₂)).reportsEvents = true := by
    rw [(after_configured _ _).2, (create_search hc).2.2]
  have hcfg₃ : (n₀.after (ss₁ ++ [ping] ++ ss₂)).config = cfg := by
    rw [(after_configured _ _).1, (create_search hc).2.1]
  rw [← after_append] at he₃ hB₃
  obtain ⟨ev, hev, hkind, hrep⟩ := audit_reports hB₃.filed hev₃ he₃ ha (by rw [hcfg₃]; exact hdue)
  have hafter : n₀.after (ss₁ ++ ping :: ss₂) = n₀.after (ss₁ ++ [ping] ++ ss₂) := by simp
  refine ⟨le_antisymm (reports_once hc _ (by rw [moves_append, moves_append]; omega) .ping x) ?_,
    ⟨ev, by rw [hafter]; exact hev, hkind, hrep⟩⟩
  rw [reported_append, reported, List.countP_append, List.countP_append]
  have : 0 < ((n₀.after (ss₁ ++ [ping] ++ ss₂)).answer audit).events.toList.countP
      (·.reports .ping x) := List.countP_pos_iff.2 ⟨ev, hev, hrep⟩
  omega

end Node

end ChordSearch
