import ChordSearch.Proofs.Node.Runs
import ChordSearch.Proofs.Node.Outcome
import ChordSearch.Proofs.Pending.Expiry
import ChordSearch.Proofs.Ring.Departure

/-! # Each outcome is reported at most once

A node reports the outcome of a request it awaits (a ping, a search, a lookup of a term's
owner) by an event that names the request's id (`Event.reports`). Over any run of a node set
up from a configuration, forged, late and duplicated answers included, as long as its
transaction counter moves fewer than `2 ^ 32` places, every id of every kind is reported at
most once (`Node.reports_once`), and a lookup that hands postings on or carries a search on
sends at most one datagram once its owner is known (`Node.errand_once`).

The count is kept by `Node.Books`: per kind, a `Ledger` of the ids in flight and of how often
each id was reported. Every turn keeps the books (`Node.answer_settles`): a turn that matches
no answer only drops requests and reports nothing (`Turn.Unmatched.settles`); the turns that
do match (sending a ping, auditing pings, a ping's answer, a search, its answer, a lookup, a
lookup's answer) each take out what they report or draw the id they await, as their run
lemmas say (`Turn.Settles.of_settle`, `Turn.Settles.of_await`). A run then keeps the books
by induction (`Node.Books.after`).
-/

namespace ChordSearch

open NodeM Std.Do

set_option mvcgen.warning false


/-! ### What a turn reports -/

namespace Turn

variable (t : Turn)

@[simp] theorem mapRing_events (f : Membership → Membership) : (t.mapRing f).events = t.events :=
  rfl

@[simp] theorem mapSearch_events (f : SearchState → SearchState) :
    (t.mapSearch f).events = t.events := rfl

@[simp] theorem mapMetrics_events (f : Metrics → Metrics) : (t.mapMetrics f).events = t.events :=
  rfl

@[simp] theorem drawTx_events : t.drawTx.events = t.events := rfl

attribute [simp] transmitted_events

@[simp] theorem sent_events (dest : Address) (tx : UInt32) (b : Body) :
    (t.sent dest tx b).events = t.events := by
  unfold sent
  split
  · exact transmitted_events _ _ _
  · rfl

@[simp] theorem storeSent_events (dest : Address) (p : Bytes × DocSet) :
    (t.storeSent dest p).events = t.events := transmitted_events _ _ _

theorem noted_events (k : EventKind) (p : String) (b : Bytes) :
    (t.noted k p b).events.toList = t.events.toList ++
      if t.node.reportsEvents then [⟨t.node.self.num, t.node.self.id, k, p, b, t.now / 1000000⟩]
      else [] := by
  unfold noted
  split <;> simp [*]

end Turn

namespace Awaited

theorem not_mem_kinds {k k₀ : Awaited} {e : EventKind} (hk : e ∈ k₀.kinds) (hne : k ≠ k₀) :
    e ∉ k.kinds := by
  cases k <;> cases k₀ <;> simp only [kinds, List.mem_cons, List.not_mem_nil, or_false] at hk ⊢ <;>
    grind

end Awaited

namespace Event

theorem reports_eq {e : Event} {k₀ : Awaited} {y : UInt32} {r : Bytes} (hk : e.kind ∈ k₀.kinds)
    (hm : e.message = k₀.opening y ++ r) (k : Awaited) (x : UInt32) :
    e.reports k x = decide (k = k₀ ∧ x = y) := by
  by_cases hkk : k = k₀
  · subst hkk
    rw [reports_of_opening hk hm]
    simp
  · simp [reports, Awaited.not_mem_kinds hk hkk, hkk]

end Event

namespace Turn

variable (t : Turn)

theorem countP_noted (kind : EventKind) (k₀ : Awaited) (y : UInt32) (r : Bytes) (p : String)
    (hk : kind ∈ k₀.kinds) (k : Awaited) (x : UInt32) :
    (t.noted kind p (k₀.opening y ++ r)).events.toList.countP (·.reports k x) =
      t.events.toList.countP (·.reports k x) +
        if t.node.reportsEvents = true ∧ k = k₀ ∧ x = y then 1 else 0 := by
  rw [noted_events]
  by_cases he : t.node.reportsEvents = true
  · simp only [he, if_true, List.countP_append, List.countP_singleton, true_and]
    rw [Event.reports_eq (e := ⟨_, _, kind, p, _, _⟩) hk rfl k x]
    by_cases hkx : k = k₀ ∧ x = y <;> simp [hkx]
  · simp [he]

theorem pingFailure_message (tx : UInt32) (dest : String) :
    Bytes.ofString ("ping " ++ toString tx.toNat ++ " to " ++ dest ++ " failed") =
      Awaited.ping.opening tx ++ Bytes.ofString ("to " ++ dest ++ " failed") := by
  have h₁ : Bytes.ofString "ping " = Bytes.ofString "ping" ++ Bytes.ofString " " := by
    decide +kernel
  have h₂ : Bytes.ofString " to " = Bytes.ofString " " ++ Bytes.ofString "to " := by
    decide +kernel
  simp only [Awaited.opening, Awaited.word, Bytes.ofString_append, List.append_assoc, h₁, h₂]

theorem countP_pingFailed (p : PingRequest) (k : Awaited) (x : UInt32) :
    (t.pingFailed p).events.toList.countP (·.reports k x) =
      t.events.toList.countP (·.reports k x) +
        if t.node.reportsEvents = true ∧ k = .ping ∧ x = p.tx then 1 else 0 := by
  rw [pingFailed, pingFailure_message, countP_noted _ _ _ _ _ _ (by simp [Awaited.kinds])]
  rfl

theorem countP_pingsFailed (ps : List (Pending PingRequest)) (k : Awaited) (x : UInt32) :
    (t.pingsFailed ps).events.toList.countP (·.reports k x) =
      t.events.toList.countP (·.reports k x) +
        if t.node.reportsEvents = true ∧ k = .ping then (ps.map (·.value.tx)).count x else 0 := by
  induction ps generalizing t with
  | nil => simp [pingsFailed]
  | cons e ps ih =>
    have hn : (t.pingFailed e.value).node.reportsEvents = t.node.reportsEvents := by
      obtain ⟨ms, h⟩ := pingsFailed_node [e] t
      simp only [pingsFailed, List.foldl_cons, List.foldl_nil] at h
      rw [h]
    rw [pingsFailed, List.foldl_cons, ← pingsFailed, ih, hn, countP_pingFailed]
    by_cases hr : t.node.reportsEvents = true <;> by_cases hk : k = .ping <;>
      by_cases hx : e.value.tx = x <;> simp [hr, hk, hx] <;> grind

@[simp] theorem pingFailed_lastTx (p : PingRequest) :
    (t.pingFailed p).node.lastTx = t.node.lastTx := by
  simp [pingFailed]

@[simp] theorem pingsFailed_lastTx (ps : List (Pending PingRequest)) :
    (t.pingsFailed ps).node.lastTx = t.node.lastTx := by
  obtain ⟨ms, h⟩ := pingsFailed_node ps t
  rw [h]

theorem pingSuccess_message (tx : UInt32) (dest : String) (message : Bytes) :
    Bytes.ofString ("ping " ++ toString tx.toNat ++ " to " ++ dest ++ " answered: ") ++ message =
      Awaited.ping.opening tx ++ (Bytes.ofString ("to " ++ dest ++ " answered: ") ++ message) := by
  have h₁ : Bytes.ofString "ping " = Bytes.ofString "ping" ++ Bytes.ofString " " := by
    decide +kernel
  have h₂ : Bytes.ofString " to " = Bytes.ofString " " ++ Bytes.ofString "to " := by
    decide +kernel
  simp only [Awaited.opening, Awaited.word, Bytes.ofString_append, List.append_assoc, h₁, h₂]

theorem searchResult_message (tx : UInt32) (rest : Bytes) :
    Bytes.ofString ("search " ++ toString tx.toNat ++ " ") ++ rest =
      Awaited.search.opening tx ++ rest := by
  have h₁ : Bytes.ofString "search " = Bytes.ofString "search" ++ Bytes.ofString " " := by
    decide +kernel
  simp only [Awaited.opening, Awaited.word, Bytes.ofString_append, List.append_assoc, h₁]

theorem lookupResult_message (tx : UInt32) (term key owner : String) :
    Bytes.ofString ("lookup " ++ toString tx.toNat ++ " " ++ term ++ " (" ++ key ++
        ") is owned by " ++ owner) =
      Awaited.lookup.opening tx ++
        Bytes.ofString (term ++ " (" ++ key ++ ") is owned by " ++ owner) := by
  have h₁ : Bytes.ofString "lookup " = Bytes.ofString "lookup" ++ Bytes.ofString " " := by
    decide +kernel
  simp only [Awaited.opening, Awaited.word, Bytes.ofString_append, List.append_assoc, h₁]

theorem countP_pingAnswered (p : PingRequest) (k : Awaited) (x : UInt32) :
    (t.pingAnswered p).events.toList.countP (·.reports k x) =
      t.events.toList.countP (·.reports k x) +
        if t.node.reportsEvents = true ∧ k = .ping ∧ x = p.tx then 1 else 0 := by
  rw [pingAnswered, pingSuccess_message, countP_noted _ _ _ _ _ _ (by simp [Awaited.kinds])]
  rfl

theorem countP_searchAnswered (tx : UInt32) (docs : List Bytes) (e : Pending PendingSearch)
    (k : Awaited) (x : UInt32) :
    (t.searchAnswered tx docs e).events.toList.countP (·.reports k x) =
      t.events.toList.countP (·.reports k x) +
        if t.node.reportsEvents = true ∧ k = .search ∧ x = tx then 1 else 0 := by
  rw [searchAnswered, List.append_assoc, List.append_assoc, searchResult_message,
    countP_noted _ _ _ _ _ _ (by simp [Awaited.kinds])]
  rfl


theorem countP_lookupReported (tx : UInt32) (term key owner p : String) (k : Awaited)
    (x : UInt32) :
    (t.noted .lookupResult p (Bytes.ofString ("lookup " ++ toString tx.toNat ++ " " ++ term ++
        " (" ++ key ++ ") is owned by " ++ owner))).events.toList.countP (·.reports k x) =
      t.events.toList.countP (·.reports k x) +
        if t.node.reportsEvents = true ∧ k = .lookup ∧ x = tx then 1 else 0 := by
  rw [lookupResult_message, countP_noted _ _ _ _ _ _ (by simp [Awaited.kinds])]

end Turn


/-! ### Moves of the ledger -/

namespace Ledger

variable {D : Nat} {last : UInt32} {aw : List UInt32} {rep : UInt32 → Nat}

theorem keep (h : Ledger D last aw rep) {k : Nat} (hk : D + k < 2 ^ 32) {aw' : List UInt32}
    (hs : aw'.Sublist aw) : Ledger (D + k) (last + UInt32.ofNat k) aw' rep :=
  h.step hk (hs.nodup h.nodup) (fun _ hx => .inl (hs.subset hx)) fun _ => .inl rfl

theorem settle (h : Ledger D last aw rep) {k : Nat} (hk : D + k < 2 ^ 32)
    {gone aw' : List UInt32} (hp : aw.Perm (gone ++ aw')) {c : UInt32 → Nat}
    (hc : ∀ x, c x ≤ gone.count x) :
    Ledger (D + k) (last + UInt32.ofNat k) aw' fun x => rep x + c x := by
  have hnd : (gone ++ aw').Nodup := hp.nodup_iff.1 h.nodup
  rw [List.nodup_append] at hnd
  refine h.step hk hnd.2.1 (fun x hx => .inl (hp.symm.subset (List.mem_append_right _ hx)))
    fun x => ?_
  rcases Nat.eq_zero_or_pos (c x) with h0 | hpos
  · exact .inl (by rw [h0, Nat.add_zero])
  · -- a request reported here is one dropped here, and it was dropped once
    have hg : gone.count x ≤ 1 := List.nodup_iff_count_le_one.1 hnd.1 x
    have hcx := hc x
    have hx : x ∈ gone := List.count_pos_iff.1 (by omega)
    refine .inr ⟨by omega, fun hx' => hnd.2.2 x hx x hx' rfl, .inl ?_⟩
    exact hp.symm.subset (List.mem_append_left _ hx)

theorem drawn_one (last : UInt32) : Drawn last 1 (last + 1) := ⟨1, le_rfl, le_rfl, rfl⟩

theorem await (h : Ledger D last aw rep) (hk : D + 1 < 2 ^ 32) :
    Ledger (D + 1) (last + 1) (aw.filter (· != last + 1) ++ [last + 1]) rep := by
  refine h.step hk ?_ (fun x hx => ?_) fun _ => .inl rfl
  · rw [List.nodup_append]
    refine ⟨(h.nodup.sublist List.filter_sublist), List.nodup_singleton _, ?_⟩
    intro a ha b hb
    rw [List.mem_singleton] at hb
    subst hb
    simpa using (List.mem_filter.1 ha).2
  · rcases List.mem_append.1 hx with hx | hx
    · exact .inl (List.mem_of_mem_filter hx)
    · rw [List.mem_singleton] at hx
      exact .inr (hx ▸ drawn_one last)

theorem failNew (h : Ledger D last aw rep) (hk : D + 1 < 2 ^ 32) {c : UInt32 → Nat}
    (hc : ∀ x, c x ≤ if x = last + 1 then 1 else 0) :
    Ledger (D + 1) (last + 1) aw fun x => rep x + c x := by
  refine h.step hk h.nodup (fun x hx => .inl hx) fun x => ?_
  by_cases hx : x = last + 1
  · subst hx
    have hc' := hc (last + 1)
    rw [if_pos rfl] at hc'
    rcases Nat.lt_or_ge (c (last + 1)) 1 with h0 | h1
    · exact .inl (by omega)
    · exact .inr ⟨by omega, (h.fresh (drawn_one last) hk).1, .inr (drawn_one last)⟩
  · have hc' := hc x
    rw [if_neg hx] at hc'
    exact .inl (by omega)

end Ledger

theorem UInt32.add_ofNat_toNat_sub (a b : UInt32) : a + UInt32.ofNat (b - a).toNat = b := by
  simp


/-! ### Trackers seen through their ids -/

namespace Tracker

variable {α : Type}

theorem take_entries (tr : Tracker α) (tx : UInt32) :
    (tr.take tx).2.entries = tr.entries.filter (·.tx != tx) := by
  unfold take
  split
  · rfl
  · next hnone =>
    rw [peek, List.find?_eq_none] at hnone
    symm
    rw [List.filter_eq_self]
    intro e he
    simpa using hnone e he

theorem map_tx_add (tr : Tracker α) (now : Int) (tx : UInt32) (v : α) :
    (tr.add now tx v).entries.map (·.tx) = (tr.entries.map (·.tx)).filter (· != tx) ++ [tx] := by
  simp [add, List.filter_map, Function.comp_def]

theorem map_tx_take (tr : Tracker α) (tx : UInt32) :
    (tr.take tx).2.entries.map (·.tx) = (tr.entries.map (·.tx)).filter (· != tx) := by
  simp [take_entries, List.filter_map, Function.comp_def]

theorem map_tx_checks_add (tr : Tracker PendingLookup) (now : Int) (tx : UInt32)
    {v : PendingLookup} (hv : v.errand = .check) :
    (tr.add now tx v).checks.map (·.tx) = (tr.checks.map (·.tx)).filter (· != tx) ++ [tx] := by
  simp [checks, add, hv, List.filter_map, List.filter_filter, Function.comp_def, Bool.and_comm]

theorem map_tx_checks_take (tr : Tracker PendingLookup) (tx : UInt32) :
    (tr.take tx).2.checks.map (·.tx) = (tr.checks.map (·.tx)).filter (· != tx) := by
  simp [checks, take_entries, List.filter_map, List.filter_filter, Function.comp_def,
    Bool.and_comm]

end Tracker

theorem List.perm_singleton_filter {l : List UInt32} (hl : l.Nodup) {y : UInt32} (hy : y ∈ l) :
    l.Perm ([y] ++ l.filter (· != y)) := by
  rw [← hl.erase_eq_filter]
  exact List.perm_cons_erase hy

/-! ### One turn keeps the books -/

/-- Each ping in flight is filed under the id it was sent with. -/
def Node.PingsFiled (n : Node) : Prop := ∀ e ∈ n.ring.pings.entries, e.value.tx = e.tx

theorem Node.PingsFiled.of_sublist {n n' : Node} (h : n.PingsFiled)
    (hs : n'.ring.pings.entries.Sublist n.ring.pings.entries) : n'.PingsFiled :=
  fun e he => h e (hs.subset he)

/-- A turn from node `n` keeps the ledger of requests of kind `k`: a ledger `n` kept over a
run that moved its counter `D` places is kept over one turn more, with the turn's reports
counted. -/
def Turn.Settles (n : Node) (k : Awaited) (t : Turn) : Prop :=
  ∀ D rep, Ledger D n.lastTx (n.awaiting k) rep →
    D + (t.node.lastTx - n.lastTx).toNat < 2 ^ 32 →
    Ledger (D + (t.node.lastTx - n.lastTx).toNat) t.node.lastTx (t.node.awaiting k)
      fun x => rep x + t.events.toList.countP (·.reports k x)

namespace Turn.Settles

variable {n : Node} {k : Awaited} {t : Turn}

theorem of_sublist (hs : (t.node.awaiting k).Sublist (n.awaiting k))
    (hq : ∀ x, t.events.toList.countP (·.reports k x) = 0) : t.Settles n k := by
  intro D rep h hk
  have h' := h.keep hk hs
  rw [UInt32.add_ofNat_toNat_sub] at h'
  simpa only [hq, Nat.add_zero] using h'

theorem of_await (hl : t.node.lastTx = n.lastTx + 1)
    (ha : t.node.awaiting k = (n.awaiting k).filter (· != n.lastTx + 1) ++ [n.lastTx + 1])
    (hq : ∀ x, t.events.toList.countP (·.reports k x) = 0) : t.Settles n k := by
  intro D rep h hk
  have hδ : (t.node.lastTx - n.lastTx).toNat = 1 := by simp [hl]
  rw [hδ] at hk ⊢
  rw [hl, ha]
  simpa only [hq, Nat.add_zero] using h.await hk

theorem of_failNew (hl : t.node.lastTx = n.lastTx + 1) (ha : t.node.awaiting k = n.awaiting k)
    (hc : ∀ x, t.events.toList.countP (·.reports k x) ≤ if x = n.lastTx + 1 then 1 else 0) :
    t.Settles n k := by
  intro D rep h hk
  have hδ : (t.node.lastTx - n.lastTx).toNat = 1 := by simp [hl]
  rw [hδ] at hk ⊢
  rw [hl, ha]
  exact h.failNew hk hc

theorem of_settle (hl : t.node.lastTx = n.lastTx) {g : List UInt32}
    (hp : (n.awaiting k).Nodup → (n.awaiting k).Perm (g ++ t.node.awaiting k))
    (hc : ∀ x, t.events.toList.countP (·.reports k x) ≤ g.count x) : t.Settles n k := by
  intro D rep h hk
  have hδ : (t.node.lastTx - n.lastTx).toNat = 0 := by simp [hl]
  rw [hδ] at hk ⊢
  have hlast : n.lastTx + UInt32.ofNat 0 = t.node.lastTx := by simp [hl]
  rw [← hlast]
  exact h.settle hk (hp h.nodup) hc

theorem of_same {t' : Turn} (h : t.Settles n k) (ha : t'.node.awaiting k = t.node.awaiting k)
    (hl : t'.node.lastTx = t.node.lastTx) (he : t'.events = t.events) : t'.Settles n k := by
  unfold Turn.Settles
  rw [ha, hl, he]
  exact h

end Turn.Settles


/-! ### The turns that match answers keep the books -/

section Settling

variable {t : Turn}


theorem countP_reports_eq_zero (he : ∀ e ∈ t.events, e.kind.isOutcome = false) (k : Awaited)
    (x : UInt32) : t.events.toList.countP (·.reports k x) = 0 :=
  List.countP_eq_zero.2 fun e h => by
    simp [Event.reports_of_not_outcome (he e (by simpa using h))]

theorem Node.awaiting_congr {n n' : Node} (hp : n'.ring.pings = n.ring.pings)
    (hs : n'.search.searches = n.search.searches) (hl : n'.search.lookups = n.search.lookups)
    (k : Awaited) : n'.awaiting k = n.awaiting k := by
  cases k <;> simp [Node.awaiting, hp, hs, hl]

theorem Turn.Unmatched.settles {n : Node} {t' : Turn} {P : List (Pending PingRequest)}
    (hu : t'.Unmatched P n.search.searches.entries n.search.lookups.checks)
    (hP : P.Sublist n.ring.pings.entries) (k : Awaited) : t'.Settles n k := by
  refine .of_sublist ?_ (countP_reports_eq_zero hu.quiet k)
  cases k
  · simpa [Node.awaiting, hu.pings] using hP.map (·.tx)
  · exact hu.searches.map _
  · exact hu.checks.map _

theorem resolve_run (key : RingId) (tx : UInt32) (t : Turn) :
    (Ring.resolve key tx).run t =
      if t.node.ring.inRing then (.ok (), ((Ring.findSuccessor tx t.node.self key lookupIndex).run t).2)
      else (.error .notInRing, t) := by
  unfold Ring.resolve
  cases hin : t.node.ring.inRing
  · simp [ring, hin]
    rfl
  · simp only [ring, self, hin, Bool.not_true, Bool.false_eq_true, if_false, if_true,
      StateT.run_bind, StateT.run_get, StateT.run_pure, pure_bind]
    rfl

theorem findSuccessor_sent (tx : UInt32) (n : NodeRef) (start : RingId) (index : UInt32)
    (t : Turn) : ∃ d b, ((Ring.findSuccessor tx n start index).run t).2 = t ∨
      ((Ring.findSuccessor tx n start index).run t).2 = t.sent d tx b := by
  rw [findSuccessor_run]
  split
  · split
    · exact ⟨_, _, .inr rfl⟩
    · exact ⟨_, _, .inr rfl⟩
  · exact ⟨.unset, .pingRsp [], .inl rfl⟩

variable (he : t.events = #[])
include he

theorem countP_fresh (k : Awaited) (x : UInt32) : t.events.toList.countP (·.reports k x) = 0 := by
  simp [he]

theorem sendPing_settles (dest : NodeRef) (message : Bytes) (k : Awaited) :
    ((Ring.sendPing dest message).run t).2.Settles t.node k := by
  rw [sendPing_run]
  split
  · refine .of_failNew (by simp) (by cases k <;> simp [Node.awaiting, Turn.pingFailed]) ?_
    intro x
    rw [Turn.countP_pingFailed, Turn.drawTx_events, countP_fresh he]
    by_cases hx : x = t.node.lastTx + 1
    · simp only [hx, and_true, if_true, Nat.zero_add]
      split <;> simp
    · simp [hx]
  · cases k
    · exact .of_await (by simp) (by simp [Node.awaiting, Tracker.map_tx_add])
        fun x => by simpa using countP_fresh he .ping x
    all_goals exact .of_sublist (by simp [Node.awaiting]) fun x => by simpa using countP_fresh he _ x

theorem auditPings_settles (hf : t.node.PingsFiled) (k : Awaited) :
    (Ring.auditPings.run t).2.Settles t.node k := by
  rw [auditPings_run]
  set gone := (t.node.ring.pings.expire t.now t.node.config.pingTimeout).1
  set kept := (t.node.ring.pings.expire t.now t.node.config.pingTimeout).2
  have hgone : gone.map (·.value.tx) = gone.map (·.tx) := by
    refine List.map_congr_left fun e he' => hf e ?_
    have := (t.node.ring.pings.expire_perm t.now t.node.config.pingTimeout).subset he'
    exact List.mem_of_mem_filter this
  have hcount (x : UInt32) := Turn.countP_pingsFailed (t.mapRing fun r => { r with pings := kept })
    gone k x
  simp only [Turn.mapRing_events, Turn.mapRing_node, countP_fresh he, Nat.zero_add] at hcount
  cases k
  · refine .of_settle (g := gone.map (·.tx)) (by simp) (fun _ => ?_) fun x => ?_
    · -- the pings in flight are those failed and those kept
      have hkept : kept.entries = t.node.ring.pings.entries.filter
          fun e => !decide (e.sentAt + t.node.config.pingTimeout ≤ t.now) := by
        simp [kept, Tracker.expire, List.partition_eq_filter_filter, Function.comp_def]
      have hp : (gone ++ kept.entries).Perm t.node.ring.pings.entries := by
        rw [hkept]
        exact ((t.node.ring.pings.expire_perm t.now t.node.config.pingTimeout).append_right
          _).trans (List.filter_append_perm _ _)
      simpa [Node.awaiting] using (hp.map (·.tx)).symm
    · rw [hcount, hgone]
      by_cases hr : t.node.reportsEvents = true <;> simp [hr]
  all_goals exact .of_sublist (by simp [Node.awaiting]) fun x => by simp [hcount]

theorem pingAnswer_settles (hf : t.node.PingsFiled) (tx : UInt32) (k : Awaited) :
    ((Ring.pingAnswer tx).run t).2.Settles t.node k := by
  rw [pingAnswer_run]
  cases hp : t.node.ring.pings.peek tx with
  | none => exact .of_sublist (.refl _) (countP_fresh he k)
  | some e =>
    dsimp only
    have he' : e ∈ t.node.ring.pings.entries ∧ e.tx = tx :=
      ⟨List.mem_of_find?_eq_some hp, by simpa using List.find?_some hp⟩
    have hv : e.value.tx = tx := (hf e he'.1).trans he'.2
    have hcount (x : UInt32) := Turn.countP_pingAnswered
      (t.mapRing fun r => { r with pings := (t.node.ring.pings.take tx).2 }) e.value k x
    simp only [Turn.mapRing_events, countP_fresh he, Nat.zero_add, hv] at hcount
    cases k
    case ping =>
      refine .of_settle (g := [tx]) (by simp [Turn.pingAnswered]) (fun hnd => ?_) fun x => ?_
      · have hmem : tx ∈ t.node.ring.pings.entries.map (·.tx) := he'.2 ▸ List.mem_map_of_mem he'.1
        simpa [Node.awaiting, Turn.pingAnswered, Tracker.map_tx_take] using
          List.perm_singleton_filter hnd hmem
      · rw [hcount]
        by_cases hx : x = tx
        · by_cases hr : t.node.reportsEvents = true <;> simp [hx, hr]
        · simp [hx]
    all_goals exact .of_sublist (by simp [Node.awaiting, Turn.pingAnswered]) fun x => by simp [hcount]

theorem query_settles (via : NodeRef) (terms : List Bytes) (k : Awaited) :
    ((Search.query via terms).run t).2.Settles t.node k := by
  rw [query_run]
  split
  · exact .of_sublist (.refl _) (countP_fresh he k)
  · cases k
    case search =>
      exact .of_await (by simp [Turn.searchSent]) (by simp [Node.awaiting, Turn.searchSent,
        Tracker.map_tx_add]) fun x => by simpa [Turn.searchSent] using countP_fresh he .search x
    all_goals
      refine .of_sublist (by simp [Node.awaiting, Turn.searchSent]) fun x => ?_
      simpa [Turn.searchSent] using countP_fresh he _ x

theorem fetchReply_settles (tx : UInt32) (docs : List Bytes) (k : Awaited) :
    ((Search.fetchReply tx docs).run t).2.Settles t.node k := by
  rw [fetchReply_run]
  cases hp : t.node.search.searches.peek tx with
  | none => exact .of_sublist (.refl _) (countP_fresh he k)
  | some e =>
    dsimp only
    have he' : e ∈ t.node.search.searches.entries ∧ e.tx = tx :=
      ⟨List.mem_of_find?_eq_some hp, by simpa using List.find?_some hp⟩
    have hcount (x : UInt32) := Turn.countP_searchAnswered
      (t.mapSearch fun s => { s with searches := (t.node.search.searches.take tx).2 }) tx docs e k x
    simp only [Turn.mapSearch_events, countP_fresh he, Nat.zero_add] at hcount
    cases k
    case search =>
      refine .of_settle (g := [tx]) (by simp [Turn.searchAnswered]) (fun hnd => ?_) fun x => ?_
      · have hmem : tx ∈ t.node.search.searches.entries.map (·.tx) :=
          he'.2 ▸ List.mem_map_of_mem he'.1
        simpa [Node.awaiting, Turn.searchAnswered, Tracker.map_tx_take] using
          List.perm_singleton_filter hnd hmem
      · rw [hcount]
        by_cases hx : x = tx
        · by_cases hr : t.node.reportsEvents = true <;> simp [hx, hr]
        · simp [hx]
    all_goals
      exact .of_sublist (by simp [Node.awaiting, Turn.searchAnswered]) fun x => by simp [hcount]

theorem lookup_settles (term : Bytes) (k : Awaited) :
    ((Search.lookup term).run t).2.Settles t.node k := by
  rw [lookup_run]
  split
  · exact .of_sublist (.refl _) (countP_fresh he k)
  · split
    · next hin =>
      have hs : (t.checkStarted term).Settles t.node k := by
        cases k
        case lookup =>
          exact .of_await (by simp [Turn.checkStarted]) (by simp [Node.awaiting,
            Turn.checkStarted, Tracker.map_tx_checks_add]) fun x => by
            simpa [Turn.checkStarted] using countP_fresh he .lookup x
        all_goals
          refine .of_sublist (by simp [Node.awaiting, Turn.checkStarted]) fun x => ?_
          simpa [Turn.checkStarted] using countP_fresh he _ x
      rw [resolve_run, if_pos (by simpa [Turn.checkStarted] using hin)]
      obtain ⟨d, b, h | h⟩ := findSuccessor_sent (t.node.lastTx + 1) (t.checkStarted term).node.self
        (RingId.hash (normalize term)) lookupIndex (t.checkStarted term)
      · rw [h]
        exact hs
      · rw [h]
        exact hs.of_same (by cases k <;> simp [Node.awaiting]) (by simp) (by simp)
    · exact .of_sublist (.refl _) (countP_fresh he k)

theorem lookupResolved_settles (owner : NodeRef) (key : RingId) (tx : UInt32) (k : Awaited) :
    ((Search.lookupResolved owner key tx).run t).2.Settles t.node k := by
  rw [lookupResolved_run]
  cases hp : t.node.search.lookups.peek tx with
  | none => exact .of_sublist (.refl _) (countP_fresh he k)
  | some e =>
    dsimp only
    have he' : e ∈ t.node.search.lookups.entries ∧ e.tx = tx :=
      ⟨List.mem_of_find?_eq_some hp, by simpa using List.find?_some hp⟩
    set t₁ := t.mapSearch fun s => { s with lookups := (t.node.search.lookups.take tx).2 }
    have hs₁ : (t₁.node.awaiting k).Sublist (t.node.awaiting k) := by
      cases k
      · simp [Node.awaiting, t₁]
      · simp [Node.awaiting, t₁]
      · simp [Node.awaiting, t₁, Tracker.map_tx_checks_take]
    have hq₁ (x : UInt32) : t₁.events.toList.countP (·.reports k x) = 0 := countP_fresh he k x
    unfold Turn.lookupDone
    cases herr : e.value.errand with
    | store =>
      dsimp only
      split
      · exact .of_sublist hs₁ hq₁
      · refine .of_sublist ?_ fun x => by simp [he]
        rw [Node.awaiting_congr (n := t₁.node) (by simp [t₁]) (by simp [t₁]) (by simp [t₁])]
        exact hs₁
    | fetch o r a sid =>
      refine .of_sublist ?_ fun x => by simp [he]
      rw [Node.awaiting_congr (n := t₁.node) (by simp [t₁]) (by simp [t₁]) (by simp [t₁])]
      exact hs₁
    | check =>
      show (Turn.noted .lookupResult owner.toText _ t₁).Settles t.node k
      have hcount (x : UInt32) := Turn.countP_lookupReported t₁ tx (Quoted.quote e.value.term)
        (key.short 8) owner.toText owner.toText k x
      simp only [hq₁, Nat.zero_add] at hcount
      cases k
      case lookup =>
        refine .of_settle (g := [tx]) (by simp [t₁]) (fun hnd => ?_) fun x => ?_
        · have hmem : tx ∈ t.node.search.lookups.checks.map (·.tx) :=
            he'.2 ▸ List.mem_map_of_mem (List.mem_filter.2 ⟨he'.1, by simp [herr]⟩)
          simpa [Node.awaiting, t₁, Tracker.map_tx_checks_take] using
            List.perm_singleton_filter hnd hmem
        · rw [hcount]
          by_cases hx : x = tx
          · by_cases hr : t₁.node.reportsEvents = true <;> simp [hx, hr]
          · simp [hx]
      all_goals
        refine .of_sublist (by rw [Turn.noted_node]; exact hs₁) fun x => ?_
        rw [hcount]
        simp

end Settling


/-! ### Every turn keeps the books -/

theorem NodeM.run_discard {α : Type} (x : NodeM α) (t : Turn) :
    (x >>= fun _ => pure () : NodeM Unit).run t = ((), (x.run t).2) :=
  rfl

theorem lookup_ring (term : Bytes) (t : Turn) :
    ((Search.lookup term).run t).2.node.ring = t.node.ring := by
  rw [lookup_run]
  split
  · rfl
  · split
    · next hin =>
      rw [resolve_run, if_pos (by simpa [Turn.checkStarted] using hin)]
      obtain ⟨d, b, h | h⟩ := findSuccessor_sent (t.node.lastTx + 1)
        (t.checkStarted term).node.self (RingId.hash (normalize term)) lookupIndex
        (t.checkStarted term)
      · rw [h]
        rfl
      · rw [h, Turn.sent_ring]
        rfl
    · rfl

theorem lookupResolved_ring (owner : NodeRef) (key : RingId) (tx : UInt32) (t : Turn) :
    ((Search.lookupResolved owner key tx).run t).2.node.ring = t.node.ring := by
  rw [lookupResolved_run]
  cases t.node.search.lookups.peek tx with
  | none => rfl
  | some e =>
    dsimp only
    unfold Turn.lookupDone
    split
    · split <;> simp
    · simp
    · simp

namespace Node

theorem answer_eq (n : Node) (s : Stimulus) :
    n.answer s = (s.input.run.run { node := n, now := s.now, linkOpen := s.linkOpen }).2 := rfl

theorem Tracker.eq_of_entries {α : Type} {a b : Tracker α} (h : a.entries = b.entries) : a = b := by
  cases a
  cases b
  simp only [Tracker.mk.injEq]
  exact h

theorem leave_of_not_inRing {t : Turn} (hin : t.node.ring.inRing = false) :
    Ring.leave.run t = (.error .notInRing, t) := by
  unfold Ring.leave
  simp only [NodeM.ring, StateT.run_bind, StateT.run_get, StateT.run_pure, pure_bind, hin,
    Bool.not_false, if_true]
  rfl

/-- What a turn can do to the pings in flight: keep them; drop them all, when the node
leaves the ring; add one under the id it draws, when it pings a set node; drop those past
their deadline, at an audit; or drop the one an answer names. -/
theorem answer_pings (n : Node) (s : Stimulus) :
    (n.answer s).node.ring.pings = n.ring.pings ∨
    (s.input = .act .leave ∧ n.ring.inRing = true ∧
      (n.answer s).node.ring.pings = n.ring.pings.clear) ∨
    (∃ dest message, s.input = .act (.ping dest message) ∧ dest.isUnset = false ∧
      (n.answer s).node.ring.pings =
        n.ring.pings.add s.now (n.lastTx + 1) ⟨n.lastTx + 1, dest, message, s.now⟩ ∧
      (n.answer s).node.lastTx = n.lastTx + 1) ∨
    (s.input = .act .auditPings ∧
      (n.answer s).node.ring.pings = (n.ring.pings.expire s.now n.config.pingTimeout).2) ∨
    (∃ from_ tx text, s.input = .handle from_ ⟨tx, .pingRsp text⟩ ∧
      (n.answer s).node.ring.pings = (n.ring.pings.take tx).2) := by
  obtain ⟨input, now, linkOpen⟩ := s
  set t : Turn := { node := n, now, linkOpen }
  have hfresh : t.Unmatched n.ring.pings.entries n.search.searches.entries
      n.search.lookups.checks := ⟨rfl, .refl _, .refl _, by simp [t]⟩
  cases input with
  | act op =>
    cases op with
    | leave =>
      cases hin : n.ring.inRing
      · left
        rw [answer_eq, Input.run, Op.act, NodeM.run_discard, leave_of_not_inRing hin]
      · refine .inr (.inl ⟨rfl, rfl, ?_⟩)
        rw [answer_eq, Input.run, Op.act, NodeM.run_discard, leave_run hin]
        simp [Turn.departed]
    | ping dest message =>
      rw [answer_eq, Input.run, Op.act, NodeM.run_discard, sendPing_run]
      split
      · left
        simp
      · next hset =>
        exact .inr (.inr (.inl ⟨dest, message, rfl, by simpa using hset, by simp, by simp⟩))
    | auditPings =>
      refine .inr (.inr (.inr (.inl ⟨rfl, ?_⟩)))
      rw [answer_eq, Input.run, Op.act, NodeM.run_discard, auditPings_run]
      simp
    | lookup term =>
      left
      rw [answer_eq, Input.run, Op.act, NodeM.run_discard, lookup_ring]
    | search via terms =>
      left
      rw [answer_eq, Input.run, Op.act, NodeM.run_discard, query_run]
      split <;> simp [Turn.searchSent]
    | _ =>
      left
      exact Tracker.eq_of_entries (NodeM.run_of_triple (act_unmatched rfl (by simp)) hfresh).pings
  | handle from_ m =>
    rcases m with ⟨tx, body⟩
    cases ha : body.answers
    · left
      exact Tracker.eq_of_entries
        (NodeM.run_of_triple (handle_unmatched (m := ⟨tx, body⟩) ha) hfresh).pings
    cases body with
    | pingRsp text =>
      refine .inr (.inr (.inr (.inr ⟨from_, tx, text, rfl, ?_⟩)))
      rw [answer_eq, Input.run]
      show ((Ring.pingAnswer tx).run t).2.node.ring.pings = _
      rw [pingAnswer_run]
      cases hp : t.node.ring.pings.peek tx with
      | none => simp [Tracker.take, hp, t]
      | some e => simp [Turn.pingAnswered, t]
    | fetchRsp docs =>
      left
      rw [answer_eq, Input.run]
      show ((Search.fetchReply tx docs).run t).2.node.ring.pings = _
      rw [fetchReply_run]
      cases t.node.search.searches.peek tx with
      | none => rfl
      | some e => simp [Turn.searchAnswered, t]
    | findSuccessorRsp owner start i =>
      have hi : i = lookupIndex := by simpa [Body.answers] using ha
      subst hi
      left
      rw [answer_eq, Input.run]
      show ((Ring.foundSuccessor tx owner start lookupIndex).run t).2.node.ring.pings = _
      rw [foundSuccessor_lookup, lookupResolved_ring]
    | _ => simp [Body.answers] at ha

theorem PingsFiled.answer {n : Node} (hf : n.PingsFiled) (s : Stimulus) :
    (n.answer s).node.PingsFiled := by
  rcases answer_pings n s with h | ⟨-, -, h⟩ | ⟨dest, message, -, -, h, -⟩ | ⟨-, h⟩ | ⟨-, tx, -, -, h⟩
  · exact hf.of_sublist (by rw [h])
  · exact hf.of_sublist (by simp [h, Tracker.clear, Tracker.empty])
  · intro e he
    simp only [h, Tracker.add, List.mem_append, List.mem_filter, List.mem_singleton] at he
    rcases he with ⟨he, -⟩ | rfl
    · exact hf e he
    · rfl
  · refine hf.of_sublist ?_
    simp only [h, Tracker.expire, List.partition_eq_filter_filter]
    exact List.filter_sublist
  · refine hf.of_sublist ?_
    rw [h, Tracker.take_entries]
    exact List.filter_sublist

theorem answer_settles {n : Node} (hf : n.PingsFiled) (s : Stimulus) (k : Awaited) :
    (n.answer s).Settles n k := by
  obtain ⟨input, now, linkOpen⟩ := s
  set t : Turn := { node := n, now, linkOpen }
  have he : t.events = #[] := rfl
  have hfresh : t.Unmatched n.ring.pings.entries n.search.searches.entries
      n.search.lookups.checks := ⟨rfl, .refl _, .refl _, by simp [t]⟩
  cases input with
  | act op =>
    by_cases hl : op = .leave
    · subst hl
      rcases NodeM.run_of_triple act_leave_unmatched hfresh with hu | hu
      · exact hu.settles (.refl _) k
      · exact hu.settles (List.nil_sublist _) k
    cases hop : op.matches
    · exact (NodeM.run_of_triple (act_unmatched hop hl) hfresh).settles (.refl _) k
    cases op with
    | ping dest message => exact sendPing_settles he dest message k
    | auditPings => exact auditPings_settles he hf k
    | lookup term => exact lookup_settles he term k
    | search via terms => exact query_settles he via terms k
    | _ => simp [Op.matches] at hop
  | handle from_ m =>
    rcases m with ⟨tx, body⟩
    cases ha : body.answers
    · exact (NodeM.run_of_triple (handle_unmatched (m := ⟨tx, body⟩) ha) hfresh).settles (.refl _) k
    cases body with
    | pingRsp _ => exact pingAnswer_settles he hf tx k
    | fetchRsp docs => exact fetchReply_settles he tx docs k
    | findSuccessorRsp owner start i =>
      have hi : i = lookupIndex := by simpa [Body.answers] using ha
      subst hi
      show ((Ring.foundSuccessor tx owner start lookupIndex).run t).2.Settles n k
      rw [foundSuccessor_lookup]
      exact lookupResolved_settles he owner start tx k
    | _ => simp [Body.answers] at ha

/-- The books of a node over a run that moved its counter `D` places: its pings are filed
under their ids, and for each kind of request the ledger of the ids it awaits and of how
often it reported each (`rep`). -/
structure Books (D : Nat) (rep : Awaited → UInt32 → Nat) (n : Node) : Prop where
  filed : n.PingsFiled
  ledger : ∀ k, Ledger D n.lastTx (n.awaiting k) (rep k)

theorem Books.create {cfg : Config} {seed : UInt32} {ev : Bool} {n : Node}
    (h : Node.create cfg seed ev = .ok n) : n.Books 0 fun _ _ => 0 where
  filed e he := by simp [create_ring h, Tracker.empty] at he
  ledger k := by
    have hk : n.awaiting k = [] := by
      cases k <;> simp [Node.awaiting, create_ring h, (create_search h).1, Tracker.empty,
        Tracker.checks]
    rw [hk]
    exact Ledger.empty

theorem Books.answer {D : Nat} {rep : Awaited → UInt32 → Nat} {n : Node} (h : n.Books D rep)
    (s : Stimulus) (hk : D + ((n.answer s).node.lastTx - n.lastTx).toNat < 2 ^ 32) :
    (n.answer s).node.Books (D + ((n.answer s).node.lastTx - n.lastTx).toNat)
      fun k x => rep k x + (n.answer s).events.toList.countP (·.reports k x) :=
  ⟨h.filed.answer s, fun k => answer_settles h.filed s k D (rep k) (h.ledger k) hk⟩

theorem Books.after {D : Nat} {rep : Awaited → UInt32 → Nat} {n : Node} (h : n.Books D rep)
    (ss : List Stimulus) (hk : D + n.moves ss < 2 ^ 32) :
    (n.after ss).Books (D + n.moves ss)
      fun k x => rep k x + (n.reported ss).countP (·.reports k x) := by
  induction ss generalizing n D rep with
  | nil => simpa [Node.after, moves, reported] using h
  | cons s ss ih =>
    simp only [moves] at hk
    have h₂ := ih (h.answer s (by omega)) (by omega)
    simpa only [Node.after, moves, reported, List.countP_append, Nat.add_assoc] using h₂

/-- Over any run of a node set up from a configuration, in which its transaction counter
moves fewer than `2 ^ 32` places, the node reports the outcome of each ping, each search
and each lookup at most once. -/
theorem reports_once {cfg : Config} {seed : UInt32} {ev : Bool} {n₀ : Node}
    (hc : Node.create cfg seed ev = .ok n₀) (ss : List Stimulus) (hk : n₀.moves ss < 2 ^ 32)
    (k : Awaited) (x : UInt32) : (n₀.reported ss).countP (·.reports k x) ≤ 1 := by
  have h := (Books.create hc).after ss (by omega)
  simpa using (h.ledger k).once x

end Node

/-! ### A lookup's errand is run at most once -/

namespace Node

/-- The id of the lookup a stimulus answers, when it is the answer to a lookup. -/
def Stimulus.lookupAnswer (s : Stimulus) : Option UInt32 :=
  match s.input with
  | .handle _ ⟨tx, .findSuccessorRsp _ _ i⟩ => if i = lookupIndex then some tx else none
  | _ => none

/-- The ids of the lookups in flight whose errand is to hand postings on or to carry a
search on. -/
def errands (n : Node) : List UInt32 :=
  (n.search.lookups.entries.filter (·.value.errand != .check)).map (·.tx)

/-- The datagrams sent over a run by the turns that answer lookup `x`. -/
def sentFor (x : UInt32) : Node → List Stimulus → Nat
  | _, [] => 0
  | n, s :: ss => (if s.lookupAnswer = some x then (n.answer s).outgoing.size else 0) +
      (n.answer s).node.sentFor x ss

/-- The turns of a run that start an errand under id `x`: after them a lookup with an errand
is in flight under `x`, and before them none was. -/
def errandsStarted (x : UInt32) : Node → List Stimulus → Nat
  | _, [] => 0
  | n, s :: ss => (if x ∉ n.errands ∧ x ∈ (n.answer s).node.errands then 1 else 0) +
      (n.answer s).node.errandsStarted x ss

end Node

theorem Turn.transmitted_size (t : Turn) (dest : Address) (m : Message) :
    (t.transmitted dest m).outgoing.size ≤ t.outgoing.size + 1 := by
  unfold transmitted
  split
  · omega
  · split <;> simp

theorem lookupResolved_once (owner : NodeRef) (key : RingId) (x : UInt32) {t : Turn}
    (ho : t.outgoing = #[]) :
    ((Search.lookupResolved owner key x).run t).2.outgoing.size ≤
        (if x ∈ t.node.errands then 1 else 0) ∧
      x ∉ ((Search.lookupResolved owner key x).run t).2.node.errands := by
  rw [lookupResolved_run]
  cases hp : t.node.search.lookups.peek x with
  | none =>
    refine ⟨by simp [ho], fun hx => ?_⟩
    obtain ⟨e, he, rfl⟩ := List.mem_map.1 hx
    rw [Tracker.peek, List.find?_eq_none] at hp
    exact hp e (List.mem_of_mem_filter he) (by simp)
  | some e =>
    dsimp only
    have he : e ∈ t.node.search.lookups.entries ∧ e.tx = x :=
      ⟨List.mem_of_find?_eq_some hp, by simpa using List.find?_some hp⟩
    have hgone : ∀ {t' : Turn}, t'.node.search.lookups = (t.node.search.lookups.take x).2 →
        x ∉ t'.node.errands := by
      intro t' hl hx
      obtain ⟨e', he', hx'⟩ := List.mem_map.1 hx
      rw [hl, Tracker.take_entries] at he'
      simp [← hx'] at he'
    unfold Turn.lookupDone
    cases herr : e.value.errand with
    | store =>
      have hmem : x ∈ t.node.errands :=
        List.mem_map.2 ⟨e, List.mem_filter.2 ⟨he.1, by simp [herr]⟩, he.2⟩
      dsimp only
      split
      · exact ⟨by simp [ho], hgone (by simp)⟩
      · refine ⟨?_, hgone (by simp)⟩
        rw [if_pos hmem, Turn.storeSent]
        exact (Turn.transmitted_size _ _ _).trans (by simp [ho])
    | fetch o r a sid =>
      have hmem : x ∈ t.node.errands :=
        List.mem_map.2 ⟨e, List.mem_filter.2 ⟨he.1, by simp [herr]⟩, he.2⟩
      refine ⟨?_, hgone (by simp)⟩
      rw [if_pos hmem]
      exact (Turn.transmitted_size _ _ _).trans (by simp [ho])
    | check => exact ⟨by simp [ho], hgone (by simp)⟩

namespace Node

theorem answer_errand (n : Node) {s : Stimulus} {x : UInt32} (h : s.lookupAnswer = some x) :
    (n.answer s).outgoing.size ≤ (if x ∈ n.errands then 1 else 0) ∧
      x ∉ (n.answer s).node.errands := by
  obtain ⟨input, now, linkOpen⟩ := s
  rcases input with op | ⟨from_, tx, body⟩
  · simp [Stimulus.lookupAnswer] at h
  · cases body with
    | findSuccessorRsp owner start i =>
      simp only [Stimulus.lookupAnswer, Option.ite_none_right_eq_some, Option.some.injEq] at h
      obtain ⟨rfl, rfl⟩ := h
      show ((Ring.foundSuccessor tx owner start lookupIndex).run _).2.outgoing.size ≤ _ ∧ _
      rw [foundSuccessor_lookup]
      exact lookupResolved_once owner start tx rfl
    | _ => simp [Stimulus.lookupAnswer] at h

/-- Over any run, the datagrams sent in answering lookup `x`, and a lookup with an errand
still in flight under `x` at the end, are no more than the turns that started such a lookup
and one already in flight at the start. -/
theorem sentFor_le (x : UInt32) (n : Node) (ss : List Stimulus) :
    n.sentFor x ss + (if x ∈ (n.after ss).errands then 1 else 0) ≤
      n.errandsStarted x ss + (if x ∈ n.errands then 1 else 0) := by
  induction ss generalizing n with
  | nil =>
    simp only [sentFor, errandsStarted, Node.after, Nat.zero_add]
    exact le_rfl
  | cons s ss ih =>
    have h := ih (n.answer s).node
    rw [sentFor, errandsStarted, Node.after]
    generalize (if x ∈ ((n.answer s).node.after ss).errands then 1 else 0) = E at h ⊢
    by_cases hs : s.lookupAnswer = some x
    · -- a turn that answers `x` pays for what it sends with the lookup it drops
      obtain ⟨hsize, hgone⟩ := answer_errand n hs
      by_cases h₀ : x ∈ n.errands <;>
        simp only [hs, h₀, hgone, if_true, if_false, not_true, false_and] at hsize h ⊢ <;> omega
    · by_cases h₀ : x ∈ n.errands <;> by_cases h₁ : x ∈ (n.answer s).node.errands <;>
        simp [hs, h₀, h₁] at h ⊢ <;> omega

/-- Each lookup with an errand, handing postings on or carrying a search on, sends at most
once: over any run of a node set up from a configuration, the datagrams sent in turns that
answer lookup `x` are no more than the turns that started a lookup with an errand under
`x`. -/
theorem errand_once {cfg : Config} {seed : UInt32} {ev : Bool} {n₀ : Node}
    (hc : Node.create cfg seed ev = .ok n₀) (ss : List Stimulus) (x : UInt32) :
    n₀.sentFor x ss ≤ n₀.errandsStarted x ss := by
  have h := sentFor_le x n₀ ss
  have h₀ : x ∉ n₀.errands := by simp [errands, (create_search hc).1, Tracker.empty]
  simp only [h₀, if_false, Nat.add_zero] at h
  omega

end Node

end ChordSearch
