import ChordSearch.Proofs.Cluster.Run
import ChordSearch.Proofs.Search.Handlers

/-! # Outcomes of requests

A node awaits answers to three kinds of request, each recorded in a tracker under the
transaction id it drew for it: pings, searches and lookups of a term's owner. When a request
ends, the node reports its outcome as an event whose message opens with the request's word
and its id in decimal (`Awaited.opening`); `Event.reports k x` reads that off an event.

* `Awaited.opening_append_inj`: no outcome's message can be read as naming two ids, because
  a decimal number holds no blank (`Bytes.blank_not_mem_decimal`).
* `Ledger`: over a run that has moved the id counter `D` places, the ids of the requests of
  one kind in flight are distinct, recent and unreported, and every id is reported at most
  once and only if recent. `Ledger.step` keeps it over a turn that takes requests out,
  reports only requests it took out or ids it drew, and adds only ids it drew.
* `Turn.Unmatched`: what every handler but the three that match answers keeps: the requests
  in flight only shrink and no outcome is reported (`handle_unmatched`, `act_unmatched`).
* The turns that do match: sending a ping (`sendPing_run`), auditing pings
  (`auditPings_run`), an answer to a ping (`pingAnswer_run`), a search (`query_run`), its
  answer (`fetchReply_run`), a lookup (`lookup_run`) and a lookup's answer
  (`lookupResolved_run`).
-/

namespace ChordSearch

open NodeM Std.Do

set_option mvcgen.warning false

/-! ### The bytes of a decimal number -/

theorem ByteArray.toList_loop_eq (bs : ByteArray) (i : Nat) (r : List UInt8) :
    ByteArray.toList.loop bs i r = r.reverse ++ bs.data.toList.drop i := by
  fun_induction ByteArray.toList.loop bs i r with
  | case1 i r h ih =>
    rw [ih]
    have hi : i < bs.data.toList.length := by simpa using h
    rw [List.drop_eq_getElem_cons hi]
    simp [ByteArray.get!, h]
  | case2 i r h =>
    have hi : bs.data.toList.length ≤ i := by
      rw [Array.length_toList]
      exact Nat.le_of_not_lt h
    rw [List.drop_eq_nil_of_le hi, List.append_nil]

theorem ByteArray.toList_eq (bs : ByteArray) : bs.toList = bs.data.toList := by
  simp [ByteArray.toList, ByteArray.toList_loop_eq]

namespace Bytes

theorem ofString_eq (s : String) : ofString s = s.toByteArray.data.toList := by
  rw [ofString, String.toUTF8_eq_toByteArray, ByteArray.toList_eq]

theorem ofString_append (a b : String) : ofString (a ++ b) = ofString a ++ ofString b := by
  simp [ofString_eq, String.toByteArray_append, ByteArray.data_append]

theorem ofString_injective {a b : String} (h : ofString a = ofString b) : a = b := by
  rw [ofString_eq, ofString_eq] at h
  exact String.toByteArray_inj.1 (ByteArray.ext (Array.toList_inj.1 h))

theorem ofString_blank : ofString " " = [32] := by decide +kernel

theorem blank_not_mem_decimal (n : Nat) : (32 : UInt8) ∉ ofString (toString n) := by
  rw [ofString_eq, Nat.toString_eq_ofList_toDigits, String.toByteArray_ofList,
    List.utf8Encode, List.toList_data_toByteArray, List.mem_flatMap]
  rintro ⟨c, hc, h32⟩
  have hd : 48 ≤ c.toNat ∧ c.toNat ≤ 57 := by
    have h := Nat.isDigit_of_mem_toDigits (by decide) (by decide) hc
    simpa [Char.isDigit, UInt32.le_iff_toNat_le] using h
  have h1 : c.utf8Size = 1 := Char.utf8Size_eq_one_iff.2 (by simp [UInt32.le_iff_toNat_le]; omega)
  rw [String.utf8EncodeChar_eq_singleton h1, List.mem_singleton] at h32
  have h := congrArg UInt8.toNat h32
  rw [UInt32.toNat_toUInt8, Char.toNat_val] at h
  simp only [UInt8.reduceToNat] at h
  omega

end Bytes

theorem List.eq_of_append_cons_eq {α : Type} {a : α} {u v r s : List α} (hu : a ∉ u)
    (hv : a ∉ v) (h : u ++ a :: r = v ++ a :: s) : u = v := by
  induction u generalizing v with
  | nil =>
    cases v with
    | nil => rfl
    | cons b v => simp at h hv; exact absurd h.1 hv.1
  | cons b u ih =>
    cases v with
    | nil => simp at h hu; exact absurd h.1.symm hu.1
    | cons b' v =>
      simp only [List.cons_append, List.cons.injEq] at h
      simp only [List.mem_cons, not_or] at hu hv
      rw [h.1, ih hu.2 hv.2 h.2]

/-! ### Which request an event reports -/

/-- Whether an event reports how a request ended. -/
def EventKind.isOutcome : EventKind → Bool
  | .pingSuccess | .pingFailure | .searchResult | .lookupResult => true
  | _ => false

/-- The kinds of request whose answer a node awaits and whose outcome it reports: pings,
searches, and lookups of a term's owner. -/
inductive Awaited where
  | ping
  | search
  | lookup
  deriving DecidableEq

namespace Awaited

/-- The kinds of event that report an outcome. -/
def kinds : Awaited → List EventKind
  | ping => [.pingSuccess, .pingFailure]
  | search => [.searchResult]
  | lookup => [.lookupResult]

/-- The word an outcome's message opens with. -/
def word : Awaited → String
  | ping => "ping"
  | search => "search"
  | lookup => "lookup"

/-- The bytes an outcome's message opens with: the word, the request's transaction id in
decimal, and a blank. -/
def opening (k : Awaited) (tx : UInt32) : Bytes :=
  Bytes.ofString (k.word ++ " " ++ toString tx.toNat ++ " ")

theorem isOutcome_of_mem_kinds {k : Awaited} {e : EventKind} (h : e ∈ k.kinds) :
    e.isOutcome = true := by
  cases k <;> simp [kinds] at h <;> rcases h with rfl | rfl <;> rfl

theorem opening_eq (k : Awaited) (tx : UInt32) :
    k.opening tx = Bytes.ofString (k.word ++ " ") ++ Bytes.ofString (toString tx.toNat) ++ [32] := by
  rw [opening, Bytes.ofString_append, Bytes.ofString_append, Bytes.ofString_blank]

theorem opening_append_inj {k : Awaited} {x y : UInt32} {r s : Bytes}
    (h : k.opening x ++ r = k.opening y ++ s) : x = y := by
  simp only [opening_eq, List.append_assoc, List.append_cancel_left_eq, List.singleton_append]
    at h
  have hd := List.eq_of_append_cons_eq (Bytes.blank_not_mem_decimal _)
    (Bytes.blank_not_mem_decimal _) h
  have hs := Bytes.ofString_injective hd
  rw [Nat.toString_eq_repr, Nat.toString_eq_repr, Nat.repr_inj] at hs
  exact UInt32.toNat_inj.1 hs

end Awaited

/-- Whether `e` reports the outcome of request `tx` of kind `k`: an event of one of the
kind's event kinds whose message opens with the request's id. -/
def Event.reports (k : Awaited) (tx : UInt32) (e : Event) : Bool :=
  k.kinds.contains e.kind && (k.opening tx).isPrefixOf e.message

namespace Event

theorem reports_of_not_outcome {e : Event} (h : e.kind.isOutcome = false) (k : Awaited)
    (x : UInt32) : e.reports k x = false := by
  have hk : e.kind ∉ k.kinds := fun hm => by
    rw [Awaited.isOutcome_of_mem_kinds hm] at h
    cases h
  simp [reports, hk]

theorem reports_of_opening {e : Event} {k : Awaited} {y : UInt32} {r : Bytes}
    (hk : e.kind ∈ k.kinds) (hm : e.message = k.opening y ++ r) (x : UInt32) :
    e.reports k x = decide (x = y) := by
  rw [reports, List.contains_iff_mem.2 hk, Bool.true_and, hm]
  by_cases hxy : x = y
  · subst hxy
    simp [List.isPrefixOf_iff_prefix]
  · rw [decide_eq_false hxy, Bool.eq_false_iff]
    intro hp
    obtain ⟨s, hs⟩ := List.isPrefixOf_iff_prefix.1 hp
    exact hxy (Awaited.opening_append_inj hs)

end Event

/-! ### A ledger of requests -/

/-- `x` is one of the `k` ids drawn after `last`. -/
def Drawn (last : UInt32) (k : Nat) (x : UInt32) : Prop :=
  ∃ j, 1 ≤ j ∧ j ≤ k ∧ x = last + UInt32.ofNat j

/-- The requests of one kind over a run that has moved the id counter `D` places, to `last`:
those awaiting answers have distinct ids, each drawn within the last `D` draws and not
reported; each id is reported at most once, and only one drawn within the last `D` draws. -/
structure Ledger (D : Nat) (last : UInt32) (awaiting : List UInt32) (reported : UInt32 → Nat) :
    Prop where
  nodup : awaiting.Nodup
  recent : ∀ x ∈ awaiting, (last - x).toNat < D
  unreported : ∀ x ∈ awaiting, reported x = 0
  once : ∀ x, reported x ≤ 1
  reported_recent : ∀ x, reported x ≠ 0 → (last - x).toNat < D

section Ledger

variable {D k : Nat} {last x : UInt32}

theorem age_advance (h : (last - x).toNat < D) (hk : D + k < 2 ^ 32) :
    (last + UInt32.ofNat k - x).toNat = (last - x).toNat + k := by
  have := UInt32.toNat_lt x
  simp [UInt32.toNat_sub, UInt32.toNat_add] at h ⊢
  omega

theorem age_drawn (hx : Drawn last k x) (hk : k < 2 ^ 32) :
    (last + UInt32.ofNat k - x).toNat < k := by
  obtain ⟨j, hj, hjk, rfl⟩ := hx
  have hage : (last + UInt32.ofNat k - (last + UInt32.ofNat j)).toNat = k - j := by
    simp [UInt32.toNat_sub]
    omega
  omega

theorem not_recent_of_drawn (hx : Drawn last k x) (hk : D + k < 2 ^ 32) :
    ¬ (last - x).toNat < D := by
  obtain ⟨j, hj, hjk, rfl⟩ := hx
  simp [UInt32.size]
  omega

namespace Ledger

variable {aw : List UInt32} {rep : UInt32 → Nat}

theorem empty : Ledger 0 last [] fun _ => 0 :=
  ⟨.nil, by simp, by simp, by simp, by simp⟩

theorem fresh (h : Ledger D last aw rep) (hx : Drawn last k x) (hk : D + k < 2 ^ 32) :
    x ∉ aw ∧ rep x = 0 :=
  ⟨fun hm => not_recent_of_drawn hx hk (h.recent x hm),
    by_contra fun hr => not_recent_of_drawn hx hk (h.reported_recent x hr)⟩

/-- A turn that moves the counter `k` places, awaits only requests awaited before or ids it
drew, and reports only, once each, requests it no longer awaits that were awaited before or
drawn in the turn, keeps the ledger. -/
theorem step (h : Ledger D last aw rep) (hk : D + k < 2 ^ 32) {aw' : List UInt32}
    {rep' : UInt32 → Nat} (hnodup : aw'.Nodup) (hnew : ∀ x ∈ aw', x ∈ aw ∨ Drawn last k x)
    (hrep : ∀ x, rep' x = rep x ∨
      (rep' x = rep x + 1 ∧ x ∉ aw' ∧ (x ∈ aw ∨ Drawn last k x))) :
    Ledger (D + k) (last + UInt32.ofNat k) aw' rep' where
  nodup := hnodup
  recent x hx := by
    rcases hnew x hx with hx | hx
    · have hr := h.recent x hx
      rw [age_advance hr hk]
      omega
    · have := age_drawn hx (by omega)
      omega
  unreported x hx := by
    rcases hrep x with hr | hr
    · rcases hnew x hx with hx' | hx'
      · rw [hr, h.unreported x hx']
      · rw [hr, (h.fresh hx' hk).2]
    · exact absurd hx hr.2.1
  once x := by
    rcases hrep x with hr | ⟨hr, -, hx⟩
    · rw [hr]
      exact h.once x
    · -- a request reported now had not been reported before
      have h0 : rep x = 0 := hx.elim (h.unreported x) fun hd => (h.fresh hd hk).2
      omega
  reported_recent x hx := by
    rcases hrep x with hr | ⟨-, -, hm | hd⟩
    · have hr' := h.reported_recent x (hr ▸ hx)
      rw [age_advance hr' hk]
      omega
    · have hr' := h.recent x hm
      rw [age_advance hr' hk]
      omega
    · have := age_drawn hd (by omega)
      omega

end Ledger

end Ledger

/-! ### Requests in flight -/

namespace Tracker

variable {α : Type}

theorem entries_take_sublist (tr : Tracker α) (tx : UInt32) :
    List.Sublist (tr.take tx).2.entries tr.entries := by
  unfold take
  split
  · exact List.filter_sublist
  · exact .refl _

/-- The lookups in flight whose errand is to report the owner. -/
def checks (tr : Tracker PendingLookup) : List (Pending PendingLookup) :=
  tr.entries.filter (·.value.errand == .check)

theorem checks_add_of_ne {tr : Tracker PendingLookup} {now : Int} {tx : UInt32}
    {v : PendingLookup} (hv : v.errand ≠ .check) :
    List.Sublist (tr.add now tx v).checks tr.checks := by
  have hc : (v.errand == .check) = false := by simpa using hv
  simp only [checks, add, List.filter_append, List.filter_singleton, hc, cond_false,
    List.append_nil]
  exact List.filter_sublist.filter _

theorem checks_take (tr : Tracker PendingLookup) (tx : UInt32) :
    List.Sublist (tr.take tx).2.checks tr.checks :=
  (tr.entries_take_sublist tx).filter _

end Tracker

/-- The ids of the requests of a kind that a node awaits answers to. -/
def Node.awaiting (n : Node) : Awaited → List UInt32
  | .ping => n.ring.pings.entries.map (·.tx)
  | .search => n.search.searches.entries.map (·.tx)
  | .lookup => n.search.lookups.checks.map (·.tx)

/-! ### Turns that match no answer -/

namespace Turn

variable (t : Turn)

theorem transmitted_events (dest : Address) (m : Message) :
    (t.transmitted dest m).events = t.events := by
  unfold transmitted
  split
  · rfl
  · split <;> rfl

/-- The pings in flight are `P`, the searches and check lookups in flight are among `S` and
`C`, in order, and no outcome has been reported. -/
structure Unmatched (P : List (Pending PingRequest)) (S : List (Pending PendingSearch))
    (C : List (Pending PendingLookup)) (t : Turn) : Prop where
  pings : t.node.ring.pings.entries = P
  searches : List.Sublist t.node.search.searches.entries S
  checks : List.Sublist t.node.search.lookups.checks C
  quiet : ∀ e ∈ t.events, e.kind.isOutcome = false

namespace Unmatched

variable {P : List (Pending PingRequest)} {S : List (Pending PendingSearch)}
  {C : List (Pending PendingLookup)} {t : Turn}

theorem of_same (h : t.Unmatched P S C) {t' : Turn} (hp : t'.node.ring.pings = t.node.ring.pings)
    (hs : t'.node.search.searches = t.node.search.searches)
    (hl : t'.node.search.lookups = t.node.search.lookups) (he : t'.events = t.events) :
    t'.Unmatched P S C :=
  ⟨by rw [hp]; exact h.pings, hs ▸ h.searches, hl ▸ h.checks, he ▸ h.quiet⟩

theorem noted (h : t.Unmatched P S C) {k : EventKind} (hk : k.isOutcome = false) (p : String)
    (b : Bytes) : (t.noted k p b).Unmatched P S C := by
  unfold Turn.noted
  split
  · refine ⟨h.pings, h.searches, h.checks, fun e he => ?_⟩
    rcases Array.mem_push.1 he with he | rfl
    · exact h.quiet e he
    · exact hk
  · exact h

theorem mapMetrics (h : t.Unmatched P S C) (f : Metrics → Metrics) :
    (t.mapMetrics f).Unmatched P S C :=
  h.of_same rfl rfl rfl rfl

theorem drawTx (h : t.Unmatched P S C) : t.drawTx.Unmatched P S C := h.of_same rfl rfl rfl rfl

theorem transmitted (h : t.Unmatched P S C) (d : Address) (m : Message) :
    (t.transmitted d m).Unmatched P S C :=
  h.of_same (by simp) (by simp) (by simp) (t.transmitted_events d m)

theorem sent (h : t.Unmatched P S C) (d : Address) (tx : UInt32) (b : Body) :
    (t.sent d tx b).Unmatched P S C := by
  unfold Turn.sent
  split
  · exact h.transmitted _ _
  · exact h

theorem mapRing (h : t.Unmatched P S C) {f : Membership → Membership}
    (hf : (f t.node.ring).pings.entries = t.node.ring.pings.entries) :
    (t.mapRing f).Unmatched P S C :=
  ⟨hf.trans h.pings, h.searches, h.checks, h.quiet⟩

theorem dropPings (h : t.Unmatched P S C) {f : Membership → Membership}
    (hf : (f t.node.ring).pings.entries = []) : (t.mapRing f).Unmatched [] S C :=
  ⟨hf, h.searches, h.checks, h.quiet⟩

theorem mapSearch (h : t.Unmatched P S C) {f : SearchState → SearchState}
    (hs : List.Sublist (f t.node.search).searches.entries t.node.search.searches.entries)
    (hc : List.Sublist (f t.node.search).lookups.checks t.node.search.lookups.checks) :
    (t.mapSearch f).Unmatched P S C :=
  ⟨h.pings, hs.trans h.searches, hc.trans h.checks, h.quiet⟩

theorem storesSent (h : t.Unmatched P S C) (d : Address) (ps : List (Bytes × DocSet)) :
    (t.storesSent d ps).Unmatched P S C := by
  induction ps generalizing t with
  | nil => exact h
  | cons p ps ih => exact ih (h.drawTx.transmitted _ _)

theorem handedOver (h : t.Unmatched P S C) (n : NodeRef) : (t.handedOver n).Unmatched P S C := by
  unfold Turn.handedOver
  split
  · exact h
  · have hk := h.mapSearch (f := fun s => { s with store :=
      (t.node.search.store.extractNotOwned n.id t.node.self.id).1 }) (.refl _) (.refl _)
    dsimp only
    split
    · exact hk
    · exact hk.storesSent _ _

theorem handedAll (h : t.Unmatched P S C) (n : NodeRef) : (t.handedAll n).Unmatched P S C := by
  unfold Turn.handedAll
  split
  · exact h
  · exact (h.mapSearch (.refl _) (.refl _)).storesSent _ _

theorem successorSet (h : t.Unmatched P S C) (n : NodeRef) :
    (t.successorSet n).Unmatched P S C := by
  unfold Turn.successorSet
  split
  · exact h
  · exact (h.mapRing rfl).noted rfl _ _

theorem predecessorSet (h : t.Unmatched P S C) (n : NodeRef) :
    (t.predecessorSet n).Unmatched P S C := by
  unfold Turn.predecessorSet
  split
  · exact h
  · exact ((h.mapRing rfl).noted rfl _ _).handedOver n

end Unmatched

end Turn

/-! ### Handlers that match no answer -/

section Unmatched

open Turn.Unmatched

variable {P : List (Pending PingRequest)} {S : List (Pending PendingSearch)}
  {C : List (Pending PendingLookup)}

theorem requestFinger_unmatched {f : Finger} :
    ⦃fun t => ⌜t.Unmatched P S C⌝⦄ Ring.requestFinger f ⦃⇓ _ t => ⌜t.Unmatched P S C⌝⦄ := by
  intro t h
  mvcgen [Ring.requestFinger]
  exact h.drawTx.sent _ _ _

theorem initFinger_unmatched {i : Nat} :
    ⦃fun t => ⌜t.Unmatched P S C⌝⦄ Ring.initFinger i ⦃⇓ _ t => ⌜t.Unmatched P S C⌝⦄ := by
  intro t h
  mvcgen [Ring.initFinger, requestFinger_unmatched]
  exact h.mapRing rfl

theorem fixFinger_unmatched {i : Nat} :
    ⦃fun t => ⌜t.Unmatched P S C⌝⦄ Ring.fixFinger i ⦃⇓ _ t => ⌜t.Unmatched P S C⌝⦄ := by
  intro t h
  mvcgen [Ring.fixFinger, requestFinger_unmatched]
  all_goals exact h.mapRing rfl

theorem findSuccessor_unmatched {tx : UInt32} {n : NodeRef} {start : RingId} {index : UInt32} :
    ⦃fun t => ⌜t.Unmatched P S C⌝⦄ Ring.findSuccessor tx n start index
    ⦃⇓ _ t => ⌜t.Unmatched P S C⌝⦄ := by
  intro t h
  mvcgen [Ring.findSuccessor]
  all_goals exact h.sent _ _ _

theorem resolve_unmatched {key : RingId} {tx : UInt32} :
    ⦃fun t => ⌜t.Unmatched P S C⌝⦄ Ring.resolve key tx ⦃⇓ _ t => ⌜t.Unmatched P S C⌝⦄ := by
  intro t h
  mvcgen [Ring.resolve, findSuccessor_unmatched]

theorem lookupFor_unmatched {errand : Errand} {term : Bytes} (he : errand ≠ .check) :
    ⦃fun t => ⌜t.Unmatched P S C⌝⦄ Search.lookupFor errand term ⦃⇓ _ t => ⌜t.Unmatched P S C⌝⦄ := by
  intro t h
  mvcgen [Search.lookupFor, resolve_unmatched]
  · exact h.drawTx.mapSearch (.refl _) (Tracker.checks_add_of_ne he)
  · next h' =>
    exact h'.mapSearch (.refl _) (Tracker.checks_take _ _)

theorem foundSuccessor_unmatched {tx : UInt32} {owner : NodeRef} {start : RingId}
    {index : UInt32} (hi : index ≠ lookupIndex) :
    ⦃fun t => ⌜t.Unmatched P S C⌝⦄ Ring.foundSuccessor tx owner start index
    ⦃⇓ _ t => ⌜t.Unmatched P S C⌝⦄ := by
  intro t h
  mvcgen [Ring.foundSuccessor, initFinger_unmatched, fixFinger_unmatched]
  · exact absurd (by simpa using ‹(index == lookupIndex) = true›) hi
  all_goals exact h.mapRing rfl

theorem stabilizeReply_unmatched {q : NodeRef} :
    ⦃fun t => ⌜t.Unmatched P S C⌝⦄ Ring.stabilizeReply q ⦃⇓ _ t => ⌜t.Unmatched P S C⌝⦄ := by
  intro t h
  mvcgen [Ring.stabilizeReply]
  exact h.successorSet _

theorem stabilizeRequest_unmatched {tx : UInt32} {sender : NodeRef} :
    ⦃fun t => ⌜t.Unmatched P S C⌝⦄ Ring.stabilizeRequest tx sender
    ⦃⇓ _ t => ⌜t.Unmatched P S C⌝⦄ := by
  intro t h
  mvcgen [Ring.stabilizeRequest]
  · exact (h.predecessorSet _).sent _ _ _
  · exact h.sent _ _ _

theorem joinRequest_unmatched {tx : UInt32} {landmark requester : NodeRef} :
    ⦃fun t => ⌜t.Unmatched P S C⌝⦄ Ring.joinRequest tx landmark requester
    ⦃⇓ _ t => ⌜t.Unmatched P S C⌝⦄ := by
  intro t h
  mvcgen [Ring.joinRequest]
  all_goals exact h.sent _ _ _

theorem joinReply_unmatched {tx : UInt32} {requester landmark successor : NodeRef} :
    ⦃fun t => ⌜t.Unmatched P S C⌝⦄ Ring.joinReply tx requester landmark successor
    ⦃⇓ _ t => ⌜t.Unmatched P S C⌝⦄ := by
  intro t h
  mvcgen [Ring.joinReply, initFinger_unmatched]
  · exact h.sent _ _ _
  · exact ((h.mapRing rfl).successorSet _).noted rfl _ _
  · exact h.sent _ _ _

theorem departure_unmatched {sender conn : NodeRef} :
    ⦃fun t => ⌜t.Unmatched P S C⌝⦄ Ring.departure sender conn ⦃⇓ _ t => ⌜t.Unmatched P S C⌝⦄ := by
  intro t h
  mvcgen [Ring.departure]
  · exact ((h.predecessorSet _).successorSet _).noted rfl _ _
  · exact (h.predecessorSet _).noted rfl _ _
  · exact (h.successorSet _).noted rfl _ _
  · exact h.noted rfl _ _

theorem pingRequest_unmatched {from_ : Address} {tx : UInt32} {message : Bytes} :
    ⦃fun t => ⌜t.Unmatched P S C⌝⦄ Ring.pingRequest from_ tx message
    ⦃⇓ _ t => ⌜t.Unmatched P S C⌝⦄ := by
  intro t h
  mvcgen [Ring.pingRequest]
  exact (h.noted rfl _ _).sent _ _ _

theorem ringStatePing_unmatched {tx : UInt32} {originator : NodeRef} :
    ⦃fun t => ⌜t.Unmatched P S C⌝⦄ Ring.ringStatePing tx originator
    ⦃⇓ _ t => ⌜t.Unmatched P S C⌝⦄ := by
  intro t h
  mvcgen [Ring.ringStatePing]
  exact h.sent _ _ _

theorem keep_unmatched {term : Bytes} {docs : List Bytes} :
    ⦃fun t => ⌜t.Unmatched P S C⌝⦄ Search.keep term docs ⦃⇓ _ t => ⌜t.Unmatched P S C⌝⦄ := by
  intro t h
  mvcgen [Search.keep]
  exact h.mapSearch (.refl _) (.refl _)

theorem fetch_unmatched {tx originator : UInt32} {key : Bytes} {remaining accumulated : List Bytes} :
    ⦃fun t => ⌜t.Unmatched P S C⌝⦄ Search.fetch tx originator key remaining accumulated
    ⦃⇓ _ t => ⌜t.Unmatched P S C⌝⦄ := by
  have hf : ∀ {o x : UInt32} {r a : List Bytes} {term : Bytes},
      ⦃fun t => ⌜t.Unmatched P S C⌝⦄ Search.lookupFor (.fetch o r a x) term
      ⦃⇓ _ t => ⌜t.Unmatched P S C⌝⦄ := lookupFor_unmatched (by simp)
  intro t h
  mvcgen [Search.fetch, Search.reply, Search.forward, hf]
  all_goals exact h.transmitted _ _

/-- Whether a message answers a request a node may await: a ping's answer, a search's answer,
or the answer to a lookup of a term's owner. -/
def Body.answers : Body → Bool
  | .pingRsp _ | .fetchRsp _ => true
  | .findSuccessorRsp _ _ i => i == lookupIndex
  | _ => false

theorem handle_unmatched {from_ : Address} {m : Message} (hm : m.body.answers = false) :
    ⦃fun t => ⌜t.Unmatched P S C⌝⦄ Node.handle from_ m ⦃⇓ _ t => ⌜t.Unmatched P S C⌝⦄ := by
  rcases m with ⟨tx, b⟩
  cases b with
  | pingReq _ => exact pingRequest_unmatched
  | joinReq _ _ => exact joinRequest_unmatched
  | joinRsp _ _ _ => exact joinReply_unmatched
  | departureReq _ _ => exact departure_unmatched
  | stabilizeRsp _ => exact stabilizeReply_unmatched
  | stabilizeReq _ => exact stabilizeRequest_unmatched
  | ringStatePing _ => exact ringStatePing_unmatched
  | findSuccessorReq _ _ _ => exact findSuccessor_unmatched
  | findSuccessorRsp _ _ i => exact foundSuccessor_unmatched (by simpa [Body.answers] using hm)
  | storeReq _ _ => exact keep_unmatched
  | fetchReq _ _ _ _ => exact fetch_unmatched
  | pingRsp _ | fetchRsp _ => simp [Body.answers] at hm

/-! ### Requests that match no answer -/

theorem join_unmatched {landmark : NodeRef} :
    ⦃fun t => ⌜t.Unmatched P S C⌝⦄ Ring.join landmark ⦃⇓ _ t => ⌜t.Unmatched P S C⌝⦄ := by
  intro t h
  mvcgen [Ring.join, Ring.bootstrap]
  · exact (((((h.mapRing rfl).successorSet _).predecessorSet _).mapRing rfl).noted
      rfl _ _)
  · exact (h.mapRing rfl).drawTx.sent _ _ _

theorem leave_unmatched :
    ⦃fun t => ⌜t.Unmatched P S C⌝⦄ Ring.leave
    ⦃⇓ _ t => ⌜t.Unmatched P S C ∨ t.Unmatched [] S C⌝⦄ := by
  intro t h
  have hall := h.handedAll t.node.ring.successor
  mvcgen [Ring.leave]
  · exact .inl h
  · refine .inr ((((hall.drawTx.sent _ _ _).drawTx.sent _ _ _).dropPings ?_).noted rfl _ _)
    rfl
  · refine .inr (((hall.drawTx.sent _ _ _).dropPings ?_).noted rfl _ _)
    rfl
  · refine .inr ((hall.dropPings ?_).noted rfl _ _)
    rfl

theorem stabilize_unmatched :
    ⦃fun t => ⌜t.Unmatched P S C⌝⦄ Ring.stabilize ⦃⇓ _ t => ⌜t.Unmatched P S C⌝⦄ := by
  intro t h
  mvcgen [Ring.stabilize, fixFinger_unmatched]
  exact (h.drawTx.sent _ _ _).mapRing rfl

theorem tick_unmatched : ⦃fun t => ⌜t.Unmatched P S C⌝⦄ Node.tick ⦃⇓ _ t => ⌜t.Unmatched P S C⌝⦄ := by
  mvcgen [Node.tick, stabilize_unmatched]
  rename_i h
  exact h.mapMetrics _

theorem ringState_unmatched :
    ⦃fun t => ⌜t.Unmatched P S C⌝⦄ Ring.ringState ⦃⇓ _ t => ⌜t.Unmatched P S C⌝⦄ := by
  intro t h
  mvcgen [Ring.ringState]
  exact h.drawTx.sent _ _ _

theorem publish_unmatched {ix : Index} :
    ⦃fun t => ⌜t.Unmatched P S C⌝⦄ Search.publish ix ⦃⇓ _ t => ⌜t.Unmatched P S C⌝⦄ := by
  have hs : ∀ {term : Bytes}, ⦃fun t => ⌜t.Unmatched P S C⌝⦄ Search.lookupFor .store term
      ⦃⇓ _ t => ⌜t.Unmatched P S C⌝⦄ := lookupFor_unmatched (by simp)
  intro t h
  mvcgen [Search.publish, hs] invariants
  · ⇓ _ t => ⌜t.Unmatched P S C⌝
  all_goals exact h.mapSearch (.refl _) (.refl _)

/-- Whether an operator request may match a request in flight: pinging, auditing pings,
looking up a term's owner and searching. -/
def Op.matches : Op → Bool
  | .ping _ _ | .auditPings | .lookup _ | .search _ _ => true
  | _ => false

theorem act_unmatched {op : Op} (hop : op.matches = false) (hl : op ≠ .leave) :
    ⦃fun t => ⌜t.Unmatched P S C⌝⦄ op.act ⦃⇓ _ t => ⌜t.Unmatched P S C⌝⦄ := by
  cases op with
  | join _ => mvcgen [Op.act, join_unmatched]
  | leave => exact absurd rfl hl
  | stabilize => mvcgen [Op.act, tick_unmatched]
  | ringState => mvcgen [Op.act, ringState_unmatched]
  | resolve _ _ => mvcgen [Op.act, resolve_unmatched]
  | publish _ => mvcgen [Op.act, publish_unmatched]
  | ping _ _ | auditPings | lookup _ | search _ _ => simp [Op.matches] at hop

theorem act_leave_unmatched :
    ⦃fun t => ⌜t.Unmatched P S C⌝⦄ Op.leave.act
    ⦃⇓ _ t => ⌜t.Unmatched P S C ∨ t.Unmatched [] S C⌝⦄ := by
  mvcgen [Op.act, leave_unmatched]

end Unmatched

/-! ### Turns that match answers -/

theorem sendPing_run (dest : NodeRef) (message : Bytes) (t : Turn) :
    (Ring.sendPing dest message).run t =
      (t.node.lastTx + 1,
        if dest.isUnset then t.drawTx.pingFailed ⟨t.node.lastTx + 1, dest, message, t.now⟩
        else (t.drawTx.mapRing fun r => { r with
          pings := r.pings.add t.now (t.node.lastTx + 1) ⟨t.node.lastTx + 1, dest, message, t.now⟩ }).sent
          dest.addr (t.node.lastTx + 1) (.pingReq message)) := by
  unfold Ring.sendPing
  simp only [nextTx, node, now, modifyNode, modifyRing, StateT.run_bind, StateT.run_get,
    StateT.run_pure, pure_bind, StateT.run_modify]
  split
  · simp only [StateT.run_bind, pingFailed_run]
    rfl
  · simp only [StateT.run_bind, send_run, StateT.run_pure]
    rfl

theorem auditPings_run (t : Turn) :
    Ring.auditPings.run t =
      ((t.node.ring.pings.expire t.now t.node.config.pingTimeout).1.length,
        (t.mapRing fun r => { r with
          pings := (t.node.ring.pings.expire t.now t.node.config.pingTimeout).2 }).pingsFailed
          (t.node.ring.pings.expire t.now t.node.config.pingTimeout).1) := by
  unfold Ring.auditPings
  simp only [node, now, modifyNode, modifyRing, StateT.run_bind, StateT.run_get,
    StateT.run_pure, pure_bind, StateT.run_modify, pingsFailed_run]
  rfl

/-- The turn after counting and reporting a ping that was answered. -/
def Turn.pingAnswered (p : PingRequest) (t : Turn) : Turn :=
  (t.mapMetrics fun m => { m with pings := m.pings.bump "success" }).noted .pingSuccess
    p.dest.toText (Bytes.ofString ("ping " ++ toString p.tx.toNat ++ " to " ++ p.dest.toText ++
      " answered: ") ++ p.message)

theorem pingAnswer_run (tx : UInt32) (t : Turn) :
    (Ring.pingAnswer tx).run t = ((), match t.node.ring.pings.peek tx with
      | none => t
      | some e => (t.mapRing fun r => { r with pings := (t.node.ring.pings.take tx).2 }).pingAnswered
          e.value) := by
  unfold Ring.pingAnswer
  simp only [ring, StateT.run_bind, StateT.run_get, StateT.run_pure, pure_bind]
  cases hp : t.node.ring.pings.peek tx with
  | none =>
    simp only [Tracker.take, hp]
    rfl
  | some e =>
    simp only [Tracker.take, hp, Ring.pingSucceeded, modifyRing, modifyNode, modifyMetrics,
      StateT.run_bind, StateT.run_modify, report_run]
    rfl

theorem findSuccessor_run (tx : UInt32) (n : NodeRef) (start : RingId) (index : UInt32)
    (t : Turn) :
    (Ring.findSuccessor tx n start index).run t = ((),
      if t.node.ring.inRing then
        if Arc.owns t.node.self.id start t.node.ring.successor.id then
          t.sent n.addr tx (.findSuccessorRsp t.node.ring.successor start index)
        else t.sent t.node.ring.successor.addr tx (.findSuccessorReq n start index)
      else t) := by
  unfold Ring.findSuccessor
  simp only [ring, self, StateT.run_bind, StateT.run_get, StateT.run_pure, pure_bind]
  cases t.node.ring.inRing
  · rfl
  · simp only [↓reduceIte, StateT.run_bind, StateT.run_get, StateT.run_pure, pure_bind]
    split <;> exact send_run _ _ _ _

/-- The turn after a search is sent through `via`: its id drawn, the search recorded in
flight under it, and the fetch of its terms sent to the entry node. -/
def Turn.searchSent (via : NodeRef) (terms : List Bytes) (t : Turn) : Turn :=
  let x := t.node.lastTx + 1
  (t.drawTx.mapSearch fun s =>
      { s with searches := s.searches.add t.now x ⟨Search.queryTerms terms, via⟩ }).transmitted
    via.addr ⟨x, .fetchReq t.node.self.num [] (Search.queryTerms terms) []⟩

theorem query_run (via : NodeRef) (terms : List Bytes) (t : Turn) :
    (Search.query via terms).run t =
      if via.isUnset then (.error .unsetEntry, t)
      else (.ok (t.node.lastTx + 1), t.searchSent via terms) := by
  unfold Search.query
  split
  · rfl
  · simp only [nextTx, node, now, self, modifySearch, modifyNode, StateT.run_bind, StateT.run_get,
      StateT.run_pure, pure_bind, StateT.run_modify, transmit_run]
    rfl

/-- The turn after a lookup of `term` is started: its id drawn and the lookup recorded in
flight under it, before the first hop is sent. -/
def Turn.checkStarted (term : Bytes) (t : Turn) : Turn :=
  let l : PendingLookup := ⟨.check, normalize term, RingId.hash (normalize term)⟩
  t.drawTx.mapSearch fun s => { s with lookups := s.lookups.add t.now (t.node.lastTx + 1) l }

theorem lookup_run (term : Bytes) (t : Turn) :
    (Search.lookup term).run t =
      if (normalize term).isEmpty then (.error .emptyLookup, t)
      else if t.node.ring.inRing then
        (.ok (t.node.lastTx + 1), ((Ring.resolve (RingId.hash (normalize term))
          (t.node.lastTx + 1)).run (t.checkStarted term)).2)
      else (.error .notInRing, t) := by
  unfold Search.lookup
  by_cases he : (normalize term).isEmpty = true
  · simp only [he, ↓reduceIte]
    rfl
  · cases hin : t.node.ring.inRing
    · simp [he, ring, hin]
      rfl
    · simp only [he, ring, hin, nextTx, node, now, modifySearch, modifyNode, StateT.run_bind,
        StateT.run_get, StateT.run_pure, pure_bind, StateT.run_modify, Bool.not_true,
        Bool.false_eq_true, if_false, if_true]
      rfl

/-- The turn after the answer to search `tx`, found in flight as `e`, is counted and
reported. -/
def Turn.searchAnswered (tx : UInt32) (docs : List Bytes) (e : Pending PendingSearch)
    (t : Turn) : Turn :=
  let outcome := if docs.isEmpty then "empty" else "match"
  (t.mapMetrics fun m =>
      { m with searches := m.searches.bump outcome, timedSearches := m.timedSearches + 1 }).noted
    .searchResult ""
    (Bytes.ofString ("search " ++ toString tx.toNat ++ " ") ++ Search.bracketed e.value.terms ++
      Bytes.ofString ": " ++ Search.bracketed docs)

theorem fetchReply_run (tx : UInt32) (docs : List Bytes) (t : Turn) :
    (Search.fetchReply tx docs).run t = ((), match t.node.search.searches.peek tx with
      | none => t
      | some e => (t.mapSearch fun s => { s with searches := (t.node.search.searches.take tx).2 }).searchAnswered
          tx docs e) := by
  unfold Search.fetchReply
  simp only [search, StateT.run_bind, StateT.run_get, StateT.run_pure, pure_bind]
  cases hp : t.node.search.searches.peek tx with
  | none =>
    simp only [Tracker.take, hp]
    rfl
  | some e =>
    simp only [Tracker.take, hp, modifySearch, modifyMetrics, modifyNode, StateT.run_bind,
      StateT.run_modify, report_run]
    rfl

/-- The turn after lookup `tx`, found in flight as `e`, learned that `owner` owns its key:
the lookup is dropped and its errand carried out. -/
def Turn.lookupDone (owner : NodeRef) (key : RingId) (tx : UInt32) (e : Pending PendingLookup)
    (t : Turn) : Turn :=
  let t₁ := t.mapSearch fun s => { s with lookups := (t.node.search.lookups.take tx).2 }
  match e.value.errand with
  | .store =>
    match t.node.search.index.map.find? e.value.term with
    | none => t₁
    | some docs =>
      (t₁.mapSearch fun s => { s with index := ⟨s.index.map.erase e.value.term⟩ }).storeSent
        owner.addr (e.value.term, docs)
  | .fetch o r a sid => t₁.transmitted owner.addr ⟨sid, .fetchReq o e.value.term r a⟩
  | .check => t₁.noted .lookupResult owner.toText (Bytes.ofString ("lookup " ++ toString tx.toNat ++
      " " ++ Quoted.quote e.value.term ++ " (" ++ key.short 8 ++ ") is owned by " ++ owner.toText))

theorem lookupResolved_run (owner : NodeRef) (key : RingId) (tx : UInt32) (t : Turn) :
    (Search.lookupResolved owner key tx).run t = ((), match t.node.search.lookups.peek tx with
      | none => t
      | some e => t.lookupDone owner key tx e) := by
  unfold Search.lookupResolved
  simp only [search, StateT.run_bind, StateT.run_get, StateT.run_pure, pure_bind]
  cases hp : t.node.search.lookups.peek tx with
  | none =>
    simp only [Tracker.take, hp]
    rfl
  | some e =>
    simp only [Tracker.take, hp, modifySearch, modifyNode, StateT.run_bind, StateT.run_modify,
      Turn.lookupDone]
    rcases e with ⟨etx, ⟨errand, term, ekey⟩, at_⟩
    cases errand with
    | store =>
      simp only [StateT.run_bind, StateT.run_get, StateT.run_pure, pure_bind]
      cases hf : t.node.search.index.map.find? term with
      | none => rfl
      | some docs =>
        simp only [StateT.run_bind, StateT.run_modify, sendStore_run]
        rfl
    | fetch o r a sid => exact transmit_run _ _ _
    | check => exact report_run _ _ _ _

end ChordSearch
