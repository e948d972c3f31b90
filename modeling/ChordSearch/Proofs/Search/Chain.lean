import ChordSearch.Proofs.Node.Timeout
import ChordSearch.Proofs.Wire.Normal
import ChordSearch.Proofs.Index.TermMap
import ChordSearch.Proofs.Search.Exactness

/-! # A search causes at most one fetch per term, and one more

A search walks the owners of its terms one after another: the entry node takes the first
term off the list and looks up its owner, each owner takes the next term off and looks up
the next owner, and each lookup, once its owner is known, sends the owner one fetch. A
search is named by the number of the node that sent it and its transaction id (`ℓ`), which
every fetch of the search carries.

The count is a weight that no step raises:

* `Message.fetchWeight`: a fetch of `ℓ` with `r` terms left weighs `r.length + 1` (itself
  and one more fetch per term), and `Errand.fetchWeight` gives a lookup that carries `ℓ` on
  the weight of the fetch it will send. Bytes written for a message weigh no more than the
  message (`Message.fetchWeight_readFetch_le`): a set's count is written in four bytes.
* `Turn.fetchWeight`: a turn weighs its node's lookups in flight and what it has sent. Every
  handler keeps it, but a fetch of `ℓ`, which adds at most one weight per term it has left
  (`handle_budget`, `receive_budget`); every request keeps it, but the search `ℓ` itself,
  which adds its first fetch and one more per term (`act_fetchWeight`,
  `act_search_fetchWeight`).
* `Cluster.fetchWeight`: a cluster weighs every fetch of `ℓ` taken off the queue once, every
  queued datagram and every member's lookups. No step raises it (`Cluster.Step.fetchWeight_le`),
  and it bounds the fetches sent (`Cluster.fetchesSent_le_fetchWeight`), so a search causes at
  most one fetch more than it has terms, whatever the ring state
  (`Cluster.search_fetches_bounded`).

`Node.answers_matched_once` gathers what a node promises about answers: over any run, each
ping, search and lookup is reported at most once, each lookup that hands postings on or
carries a search on sends at most once, a search's fetches are bounded as above, and a ping
nobody answers fails exactly once.
-/

namespace ChordSearch

open NodeM Std.Do Codec

set_option mvcgen.warning false

/-! ### A search's fetches on the wire -/

namespace Message

/-- The terms a fetch of search `ℓ` has left to visit, and nothing for any other message. A
search is named by the number of the node that started it and its transaction id. -/
def fetchOf (ℓ : UInt32 × UInt32) (m : Message) : Option (List Bytes) :=
  match m.body with
  | .fetchReq o _ r _ => if (o, m.tx) = ℓ then some r else none
  | _ => none

/-- The fetch of search `ℓ` that bytes on the wire read as: the terms it has left. -/
def readFetch (ℓ : UInt32 × UInt32) (w : Bytes) : Option (List Bytes) :=
  match decode w with
  | .ok m => m.fetchOf ℓ
  | .error _ => none

/-- What a fetch with terms `r` left counts toward its search: itself, and one more fetch per
term left. -/
def fetchWeight : Option (List Bytes) → Nat
  | some r => r.length + 1
  | none => 0

/-- The fetches a fetch with terms `r` left may still cause once it is handled. -/
def fetchOnward : Option (List Bytes) → Nat
  | some r => r.length
  | none => 0

theorem fetchWeight_eq (f : Option (List Bytes)) :
    fetchWeight f = (if f.isSome then 1 else 0) + fetchOnward f := by
  cases f <;> simp [fetchWeight, fetchOnward, Nat.add_comm]

theorem u32_inj {x y : UInt32} (h : u32 x = u32 y) : x = y := by
  rw [← ofNat_toNatBE_u32 x, h, ofNat_toNatBE_u32]

/-- A fetch written and read back keeps its transaction id and its originator, and holds at
most as many remaining terms as it was written with: a set's count is written in four
bytes, and reading finds the count of the terms written. -/
theorem fetch_of_encode_decode {m m' : Message} {w : Bytes} (he : m.encode = .ok w)
    (hd : decode w = .ok m') {o : UInt32} {k' : Bytes} {r' a' : List Bytes}
    (hb : m'.body = .fetchReq o k' r' a') :
    m'.tx = m.tx ∧ ∃ k r a, m.body = .fetchReq o k r a ∧ r'.length ≤ r.length := by
  have hkind := kind_of_encode_decode he hd
  obtain ⟨hw, rfl⟩ := encode_eq_ok_iff.1 he
  obtain ⟨hread, hw'⟩ := decode_eq_ok_iff.1 hd
  rcases m with ⟨tx, b⟩
  rcases m' with ⟨tx', b'⟩
  dsimp only at hb hkind hw hw' ⊢
  subst hb
  cases b with
  | fetchReq o₀ k r a =>
    simp only [Body.sortSets, Body.mapFields, Body.spell, List.cons.injEq] at hw'
    obtain ⟨htx, hrest⟩ := List.append_inj hw'.2 (by simp [length_u32])
    obtain ⟨ho, hrest⟩ := List.append_inj hrest (by simp [length_u32])
    rw [List.append_assoc, List.append_assoc] at hrest
    obtain ⟨hlen, hrest⟩ := List.append_inj hrest (by simp [u16])
    have hk : k.length = k'.length := by
      have hn := congrArg Bytes.toNatBE hlen
      simp only [u16, Bytes.toNatBE_ofNatBE] at hn
      have hfk : k.length ≤ 65535 := hw.1 k (by simp [Body.texts])
      have hfk' : k'.length ≤ 65535 := hread.1 k' (by simp [Body.texts])
      have : Nat.pow 256 2 = 65536 := rfl
      rw [this, Nat.mod_eq_of_lt (by omega), Nat.mod_eq_of_lt (by omega)] at hn
      exact hn
    obtain ⟨-, hsets⟩ := List.append_inj hrest hk
    simp only [setBytes, List.append_assoc] at hsets
    obtain ⟨hcount, -⟩ := List.append_inj hsets (by simp)
    have hn := congrArg Bytes.toNatBE hcount
    simp only [Bytes.toNatBE_ofNatBE, Bytes.length_sort] at hn
    have hr' : r'.length < 2 ^ 32 := (hread.2.1 r' (by simp [Body.sets])).1
    have : Nat.pow 256 4 = 2 ^ 32 := rfl
    rw [this, Nat.mod_eq_of_lt hr'] at hn
    refine ⟨(u32_inj htx).symm, k, r, a, by rw [u32_inj ho], ?_⟩
    rw [← hn]
    exact Nat.mod_le _ _
  | _ => simp [Body.kind] at hkind

theorem fetchOf_eq_none {m : Message} (hb : ∀ o k r a, m.body ≠ .fetchReq o k r a)
    (ℓ : UInt32 × UInt32) : m.fetchOf ℓ = none := by
  unfold fetchOf
  split
  · next h => exact absurd h (hb _ _ _ _)
  · rfl

theorem fetchWeight_readFetch_le {m : Message} {w : Bytes} (he : m.encode = .ok w)
    (ℓ : UInt32 × UInt32) : fetchWeight (readFetch ℓ w) ≤ fetchWeight (m.fetchOf ℓ) := by
  unfold readFetch
  rcases hd : decode w with _ | m'
  · simp [fetchWeight]
  · unfold fetchOf
    cases hb : m'.body with
    | fetchReq o k' r' a' =>
      obtain ⟨htx, k, r, a, hm, hle⟩ := fetch_of_encode_decode he hd hb
      by_cases hl : (o, m.tx) = ℓ
      · simp [hb, hm, htx, hl, fetchWeight]
        omega
      · simp [hb, hm, htx, hl, fetchWeight]
    | _ => simp [hb, fetchWeight]

end Message

/-! ### A search's fetches in one turn -/

/-- What a lookup's errand counts toward the fetches of search `ℓ`: carrying `ℓ` on sends one
fetch once the owner is known, which counts itself and one more per term left. -/
def Errand.fetchWeight (ℓ : UInt32 × UInt32) : Errand → Nat
  | .fetch o r _ sid => if (o, sid) = ℓ then r.length + 1 else 0
  | _ => 0

namespace Tracker

/-- What the lookups in flight count toward the fetches of search `ℓ`. -/
def fetchWeight (ℓ : UInt32 × UInt32) (l : Tracker PendingLookup) : Nat :=
  (l.entries.map (·.value.errand.fetchWeight ℓ)).sum

variable (ℓ : UInt32 × UInt32) (l : Tracker PendingLookup)

theorem fetchWeight_filter_le (p : Pending PendingLookup → Bool) :
    (⟨l.entries.filter p⟩ : Tracker PendingLookup).fetchWeight ℓ ≤ l.fetchWeight ℓ :=
  List.Sublist.sum_le_sum (List.filter_sublist.map _) fun _ _ => Nat.zero_le _

theorem fetchWeight_add_le (now : Int) (tx : UInt32) (v : PendingLookup) :
    (l.add now tx v).fetchWeight ℓ ≤ l.fetchWeight ℓ + v.errand.fetchWeight ℓ := by
  have h := fetchWeight_filter_le ℓ l (·.tx != tx)
  simp only [fetchWeight, add, List.map_append, List.sum_append, List.map_cons, List.map_nil,
    List.sum_cons, List.sum_nil] at h ⊢
  omega

theorem fetchWeight_take_le (tx : UInt32) : (l.take tx).2.fetchWeight ℓ ≤ l.fetchWeight ℓ := by
  unfold take
  split
  · exact fetchWeight_filter_le ℓ l _
  · exact le_refl _

theorem fetchWeight_take_add {tx : UInt32} {e : Pending PendingLookup} (h : l.peek tx = some e) :
    (l.take tx).2.fetchWeight ℓ + e.value.errand.fetchWeight ℓ ≤ l.fetchWeight ℓ := by
  have hsplit := List.sum_map_filter_add_sum_map_filter_not
    (fun x : Pending PendingLookup => (x.tx != tx) = true) (·.value.errand.fetchWeight ℓ)
    l.entries
  simp only [Bool.decide_eq_true, decide_not] at hsplit
  have hmem : e ∈ l.entries.filter fun x => !(x.tx != tx) :=
    List.mem_filter.2 ⟨List.mem_of_find?_eq_some h, by simpa using List.find?_some h⟩
  have hle := List.le_sum_of_mem (List.mem_map_of_mem (f := (·.value.errand.fetchWeight ℓ)) hmem)
  rw [Tracker.take_of_peek h]
  simp only [fetchWeight]
  omega

end Tracker

namespace Turn

/-- What the datagrams a turn has sent count toward the fetches of search `ℓ`. -/
def sentWeight (ℓ : UInt32 × UInt32) (t : Turn) : Nat :=
  (t.outgoing.toList.map fun p => Message.fetchWeight (Message.readFetch ℓ p.2)).sum

/-- What a turn counts toward the fetches of search `ℓ`: the lookups its node has in flight
and the datagrams it has sent. -/
def fetchWeight (ℓ : UInt32 × UInt32) (t : Turn) : Nat :=
  t.node.search.lookups.fetchWeight ℓ + t.sentWeight ℓ

variable (ℓ : UInt32 × UInt32) (t : Turn)

@[simp] theorem fetchWeight_mapRing (f : Membership → Membership) :
    (t.mapRing f).fetchWeight ℓ = t.fetchWeight ℓ := rfl

@[simp] theorem fetchWeight_mapMetrics (f : Metrics → Metrics) :
    (t.mapMetrics f).fetchWeight ℓ = t.fetchWeight ℓ := rfl

@[simp] theorem fetchWeight_drawTx : t.drawTx.fetchWeight ℓ = t.fetchWeight ℓ := rfl

@[simp] theorem fetchWeight_noted (k : EventKind) (p : String) (b : Bytes) :
    (t.noted k p b).fetchWeight ℓ = t.fetchWeight ℓ := by
  unfold noted
  split <;> rfl

theorem fetchWeight_mapSearch (f : SearchState → SearchState) :
    (t.mapSearch f).fetchWeight ℓ = (f t.node.search).lookups.fetchWeight ℓ + t.sentWeight ℓ :=
  rfl

theorem fetchWeight_mapSearch_of (f : SearchState → SearchState)
    (h : (f t.node.search).lookups = t.node.search.lookups) :
    (t.mapSearch f).fetchWeight ℓ = t.fetchWeight ℓ := by
  rw [fetchWeight_mapSearch, h]
  rfl

theorem fetchWeight_mapSearch_add (now : Int) (tx : UInt32) (errand : Errand) (term : Bytes)
    (key : RingId) :
    (t.mapSearch fun s => { s with lookups := s.lookups.add now tx ⟨errand, term, key⟩ }).fetchWeight ℓ ≤
      t.fetchWeight ℓ + errand.fetchWeight ℓ := by
  have h : (t.node.search.lookups.add now tx ⟨errand, term, key⟩).fetchWeight ℓ ≤
      t.node.search.lookups.fetchWeight ℓ + errand.fetchWeight ℓ :=
    Tracker.fetchWeight_add_le ℓ t.node.search.lookups now tx ⟨errand, term, key⟩
  have hw : (t.mapSearch fun s =>
      { s with lookups := s.lookups.add now tx ⟨errand, term, key⟩ }).fetchWeight ℓ =
      (t.node.search.lookups.add now tx ⟨errand, term, key⟩).fetchWeight ℓ + t.sentWeight ℓ := rfl
  have hw₀ : t.fetchWeight ℓ = t.node.search.lookups.fetchWeight ℓ + t.sentWeight ℓ := rfl
  omega

theorem fetchWeight_mapSearch_take (tx : UInt32) :
    (t.mapSearch fun s => { s with lookups := (s.lookups.take tx).2 }).fetchWeight ℓ ≤
      t.fetchWeight ℓ := by
  have h := Tracker.fetchWeight_take_le ℓ t.node.search.lookups tx
  have hw : (t.mapSearch fun s => { s with lookups := (s.lookups.take tx).2 }).fetchWeight ℓ =
      (t.node.search.lookups.take tx).2.fetchWeight ℓ + t.sentWeight ℓ := rfl
  have hw₀ : t.fetchWeight ℓ = t.node.search.lookups.fetchWeight ℓ + t.sentWeight ℓ := rfl
  omega

theorem fetchWeight_transmitted_le (dest : Address) (m : Message) :
    (t.transmitted dest m).fetchWeight ℓ ≤ t.fetchWeight ℓ + Message.fetchWeight (m.fetchOf ℓ) := by
  have hsearch := transmitted_search t dest m
  unfold fetchWeight sentWeight
  rw [hsearch, transmitted_outgoing]
  cases he : m.encode with
  | error _ => simp
  | ok w =>
    have hw := Message.fetchWeight_readFetch_le he ℓ
    dsimp only
    split
    · simp
      omega
    · simp

@[simp] theorem fetchWeight_transmitted (dest : Address) {m : Message}
    (hm : ∀ o k r a, m.body ≠ .fetchReq o k r a) :
    (t.transmitted dest m).fetchWeight ℓ = t.fetchWeight ℓ := by
  have h := fetchWeight_transmitted_le ℓ t dest m
  rw [Message.fetchOf_eq_none hm, Message.fetchWeight, Nat.add_zero] at h
  have hge : t.fetchWeight ℓ ≤ (t.transmitted dest m).fetchWeight ℓ := by
    unfold fetchWeight sentWeight
    rw [transmitted_search, transmitted_outgoing]
    cases m.encode with
    | error _ => simp
    | ok w =>
      dsimp only
      split
      · simp
      · rfl
  omega

@[simp] theorem fetchWeight_sent (dest : Address) (tx : UInt32) {b : Body}
    (hb : ∀ o k r a, b ≠ .fetchReq o k r a) : (t.sent dest tx b).fetchWeight ℓ = t.fetchWeight ℓ := by
  unfold sent
  split
  · exact fetchWeight_transmitted ℓ t dest hb
  · rfl

@[simp] theorem fetchWeight_storeSent (dest : Address) (p : Bytes × DocSet) :
    (t.storeSent dest p).fetchWeight ℓ = t.fetchWeight ℓ :=
  fetchWeight_transmitted ℓ _ dest (by simp)

@[simp] theorem fetchWeight_storesSent (dest : Address) (ps : List (Bytes × DocSet)) :
    (t.storesSent dest ps).fetchWeight ℓ = t.fetchWeight ℓ := by
  induction ps generalizing t with
  | nil => rfl
  | cons p ps ih => exact (ih _).trans (fetchWeight_storeSent ℓ t dest p)

@[simp] theorem fetchWeight_pingFailed (p : PingRequest) :
    (t.pingFailed p).fetchWeight ℓ = t.fetchWeight ℓ := by
  simp [fetchWeight, sentWeight]

@[simp] theorem fetchWeight_pingsFailed (ps : List (Pending PingRequest)) :
    (t.pingsFailed ps).fetchWeight ℓ = t.fetchWeight ℓ := by
  simp [fetchWeight, sentWeight]

@[simp] theorem fetchWeight_successorSet (n : NodeRef) :
    (t.successorSet n).fetchWeight ℓ = t.fetchWeight ℓ := by
  simp [fetchWeight, sentWeight]

@[simp] theorem fetchWeight_handedOver (n : NodeRef) :
    (t.handedOver n).fetchWeight ℓ = t.fetchWeight ℓ := by
  unfold handedOver
  split
  · rfl
  · dsimp only
    split
    · rfl
    · simp only [fetchWeight_storesSent]
      rfl

@[simp] theorem fetchWeight_handedAll (n : NodeRef) :
    (t.handedAll n).fetchWeight ℓ = t.fetchWeight ℓ := by
  unfold handedAll
  split
  · rfl
  · simp only [fetchWeight_storesSent]
    rfl

@[simp] theorem fetchWeight_predecessorSet (n : NodeRef) :
    (t.predecessorSet n).fetchWeight ℓ = t.fetchWeight ℓ := by
  unfold predecessorSet
  split
  · rfl
  · simp

end Turn
/-! ### Every handler keeps the weight of a search's fetches -/

section Budget

variable {ℓ : UInt32 × UInt32} {B : Nat}

theorem requestFinger_budget {f : Finger} :
    ⦃fun t => ⌜t.fetchWeight ℓ ≤ B⌝⦄ Ring.requestFinger f ⦃⇓ _ t => ⌜t.fetchWeight ℓ ≤ B⌝⦄ := by
  mvcgen [Ring.requestFinger]
  simp_all

theorem initFinger_budget {i : Nat} :
    ⦃fun t => ⌜t.fetchWeight ℓ ≤ B⌝⦄ Ring.initFinger i ⦃⇓ _ t => ⌜t.fetchWeight ℓ ≤ B⌝⦄ := by
  mvcgen [Ring.initFinger, requestFinger_budget]

theorem fixFinger_budget {i : Nat} :
    ⦃fun t => ⌜t.fetchWeight ℓ ≤ B⌝⦄ Ring.fixFinger i ⦃⇓ _ t => ⌜t.fetchWeight ℓ ≤ B⌝⦄ := by
  mvcgen [Ring.fixFinger, requestFinger_budget]

theorem findSuccessor_budget {tx : UInt32} {n : NodeRef} {start : RingId} {index : UInt32} :
    ⦃fun t => ⌜t.fetchWeight ℓ ≤ B⌝⦄ Ring.findSuccessor tx n start index
    ⦃⇓ _ t => ⌜t.fetchWeight ℓ ≤ B⌝⦄ := by
  mvcgen [Ring.findSuccessor]
  all_goals simp_all

theorem resolve_budget {key : RingId} {tx : UInt32} :
    ⦃fun t => ⌜t.fetchWeight ℓ ≤ B⌝⦄ Ring.resolve key tx ⦃⇓ _ t => ⌜t.fetchWeight ℓ ≤ B⌝⦄ := by
  mvcgen [Ring.resolve, findSuccessor_budget]
  omega

theorem lookupResolved_fetchWeight (owner : NodeRef) (key : RingId) (tx : UInt32) (t : Turn) :
    ((Search.lookupResolved owner key tx).run t).2.fetchWeight ℓ ≤ t.fetchWeight ℓ := by
  rw [lookupResolved_run]
  cases hp : t.node.search.lookups.peek tx with
  | none => exact le_refl _
  | some e =>
    dsimp only
    unfold Turn.lookupDone
    set t₁ := t.mapSearch fun s => { s with lookups := (t.node.search.lookups.take tx).2 }
    have h₁ : t₁.fetchWeight ℓ + e.value.errand.fetchWeight ℓ ≤ t.fetchWeight ℓ := by
      have hw₁ : t₁.fetchWeight ℓ =
          (t.node.search.lookups.take tx).2.fetchWeight ℓ + t.sentWeight ℓ := rfl
      have hw : t.fetchWeight ℓ = t.node.search.lookups.fetchWeight ℓ + t.sentWeight ℓ := rfl
      have htake := Tracker.fetchWeight_take_add ℓ t.node.search.lookups hp
      omega
    cases herr : e.value.errand with
    | store =>
      dsimp only
      split
      · omega
      · -- dropping the term from the index leaves the lookups as they were
        rw [Turn.fetchWeight_storeSent, Turn.fetchWeight_mapSearch_of _ _ _ rfl]
        omega
    | fetch o r a sid =>
      have hsend := Turn.fetchWeight_transmitted_le ℓ t₁ owner.addr
        ⟨sid, .fetchReq o e.value.term r a⟩
      have hw : Message.fetchWeight (Message.fetchOf ℓ ⟨sid, .fetchReq o e.value.term r a⟩) =
          e.value.errand.fetchWeight ℓ := by
        rw [herr]
        by_cases hl : (o, sid) = ℓ <;>
          simp [Message.fetchOf, Errand.fetchWeight, Message.fetchWeight, hl]
      dsimp only
      omega
    | check =>
      simp only [Turn.fetchWeight_noted]
      omega

theorem lookupResolved_budget {owner : NodeRef} {key : RingId} {tx : UInt32} :
    ⦃fun t => ⌜t.fetchWeight ℓ ≤ B⌝⦄ Search.lookupResolved owner key tx
    ⦃⇓ _ t => ⌜t.fetchWeight ℓ ≤ B⌝⦄ := by
  intro t h
  exact (lookupResolved_fetchWeight owner key tx t).trans h

theorem lookupFor_budget {errand : Errand} {term : Bytes} :
    ⦃fun t => ⌜t.fetchWeight ℓ + errand.fetchWeight ℓ ≤ B⌝⦄ Search.lookupFor errand term
    ⦃⇓ _ t => ⌜t.fetchWeight ℓ ≤ B⌝⦄ := by
  mvcgen [Search.lookupFor, resolve_budget]
  · omega
  · -- the lookup could not be sent on and is taken out again
    next t hpre _ key _ _ _ t' ht' =>
    have hadd := Turn.fetchWeight_mapSearch_add ℓ t.drawTx t.drawTx.now (t.node.lastTx + 1)
      errand term key
    have htake := Turn.fetchWeight_mapSearch_take ℓ t' (t.node.lastTx + 1)
    rw [Turn.fetchWeight_drawTx] at hadd
    omega
  · next t hpre _ key _ _ t' ht' =>
    have hadd := Turn.fetchWeight_mapSearch_add ℓ t.drawTx t.drawTx.now (t.node.lastTx + 1)
      errand term key
    rw [Turn.fetchWeight_drawTx] at hadd
    omega

theorem Search.popTerm_length_lt {r : List Bytes} (h : r ≠ []) :
    (Search.popTerm r).2.length < r.length := by
  have hle : (DocSet.ofList r).toList.length ≤ r.length :=
    (DocSet.nodup _).length_le_of_subset fun _ hx => DocSet.mem_ofList.1 hx
  unfold Search.popTerm
  split
  · next w rest heq =>
    rw [heq, List.length_cons] at hle
    exact hle
  · exact List.length_pos_iff.2 h

theorem Errand.fetchWeight_popTerm (o tx : UInt32) {r : List Bytes} (hr : r ≠ [])
    (acc : List Bytes) :
    (Errand.fetch o (Search.popTerm r).2 acc tx).fetchWeight ℓ ≤ if (o, tx) = ℓ then r.length else 0 := by
  have := Search.popTerm_length_lt hr
  show (if (o, tx) = ℓ then (Search.popTerm r).2.length + 1 else 0) ≤ _
  split_ifs <;> omega

theorem reply_budget {o tx : UInt32} {docs : List Bytes} :
    ⦃fun t => ⌜t.fetchWeight ℓ ≤ B⌝⦄ Search.reply o tx docs ⦃⇓ _ t => ⌜t.fetchWeight ℓ ≤ B⌝⦄ := by
  mvcgen [Search.reply]
  simp_all

theorem fetch_budget {tx o : UInt32} {key : Bytes} {r a : List Bytes} :
    ⦃fun t => ⌜t.fetchWeight ℓ + (if (o, tx) = ℓ then r.length else 0) ≤ B⌝⦄
    Search.fetch tx o key r a ⦃⇓ _ t => ⌜t.fetchWeight ℓ ≤ B⌝⦄ := by
  mvcgen [Search.fetch, Search.forward, reply_budget, lookupFor_budget]
  · -- answering the originator sends no fetch
    omega
  · next hr t hpre _ t' ht' =>
    have := Errand.fetchWeight_popTerm (ℓ := ℓ) o tx (r := r) (by simpa using hr) []
    omega
  · omega
  · next res hr _ t' ht' =>
    have := Errand.fetchWeight_popTerm (ℓ := ℓ) o tx (r := r) (fun h => by simp [h] at hr)
      res.toList
    omega

theorem foundSuccessor_budget {tx : UInt32} {owner : NodeRef} {start : RingId}
    {index : UInt32} :
    ⦃fun t => ⌜t.fetchWeight ℓ ≤ B⌝⦄ Ring.foundSuccessor tx owner start index
    ⦃⇓ _ t => ⌜t.fetchWeight ℓ ≤ B⌝⦄ := by
  mvcgen [Ring.foundSuccessor, lookupResolved_budget, initFinger_budget, fixFinger_budget]
  omega

theorem fetchReply_budget {tx : UInt32} {docs : List Bytes} :
    ⦃fun t => ⌜t.fetchWeight ℓ ≤ B⌝⦄ Search.fetchReply tx docs ⦃⇓ _ t => ⌜t.fetchWeight ℓ ≤ B⌝⦄ := by
  mvcgen [Search.fetchReply]
  all_goals simp_all [Turn.fetchWeight_mapSearch_of]

theorem keep_budget {term : Bytes} {docs : List Bytes} :
    ⦃fun t => ⌜t.fetchWeight ℓ ≤ B⌝⦄ Search.keep term docs ⦃⇓ _ t => ⌜t.fetchWeight ℓ ≤ B⌝⦄ := by
  mvcgen [Search.keep]

theorem handle_budget {from_ : Address} {m : Message} :
    ⦃fun t => ⌜t.fetchWeight ℓ + Message.fetchOnward (m.fetchOf ℓ) ≤ B⌝⦄ Node.handle from_ m
    ⦃⇓ _ t => ⌜t.fetchWeight ℓ ≤ B⌝⦄ := by
  rcases m with ⟨tx, b⟩
  cases b with
  | fetchReq o k r a =>
    have hw : Message.fetchOnward (Message.fetchOf ℓ ⟨tx, .fetchReq o k r a⟩) =
        if (o, tx) = ℓ then r.length else 0 := by
      by_cases hl : (o, tx) = ℓ <;> simp [Message.fetchOf, Message.fetchOnward, hl]
    simp only [hw]
    mvcgen [Node.handle, fetch_budget]
  | storeReq _ _ =>
    mvcgen [Node.handle, keep_budget]
  | fetchRsp _ =>
    mvcgen [Node.handle, fetchReply_budget]
  | _ =>
    mvcgen [Node.handle, Ring.pingRequest, Ring.pingAnswer, Ring.pingSucceeded, Ring.joinRequest,
      Ring.joinReply, initFinger_budget, Ring.departure, Ring.stabilizeReply,
      Ring.stabilizeRequest, Ring.ringStatePing, findSuccessor_budget, foundSuccessor_budget]
    all_goals simp_all [Message.fetchOf, Message.fetchOnward]

theorem receive_budget {from_ : Address} {data : Bytes} :
    ⦃fun t => ⌜t.fetchWeight ℓ + Message.fetchOnward (Message.readFetch ℓ data) ≤ B⌝⦄
    Node.receive from_ data ⦃⇓ _ t => ⌜t.fetchWeight ℓ ≤ B⌝⦄ := by
  mvcgen [Node.receive, handle_budget]
  · next h =>
    rw [Turn.fetchWeight_mapMetrics]
    omega
  · next msg hd t h =>
    have hread : Message.readFetch ℓ data = msg.fetchOf ℓ := by simp [Message.readFetch, hd]
    rw [Turn.fetchWeight_mapMetrics, ← hread]
    exact h

/-! ### Operator requests -/

theorem join_budget {landmark : NodeRef} :
    ⦃fun t => ⌜t.fetchWeight ℓ ≤ B⌝⦄ Ring.join landmark ⦃⇓ _ t => ⌜t.fetchWeight ℓ ≤ B⌝⦄ := by
  mvcgen [Ring.join, Ring.bootstrap]
  all_goals simp_all

theorem leave_budget :
    ⦃fun t => ⌜t.fetchWeight ℓ ≤ B⌝⦄ Ring.leave ⦃⇓ _ t => ⌜t.fetchWeight ℓ ≤ B⌝⦄ := by
  mvcgen [Ring.leave]
  all_goals simp_all

theorem tick_budget : ⦃fun t => ⌜t.fetchWeight ℓ ≤ B⌝⦄ Node.tick ⦃⇓ _ t => ⌜t.fetchWeight ℓ ≤ B⌝⦄ := by
  mvcgen [Node.tick, Ring.stabilize, fixFinger_budget]
  all_goals simp_all
  omega

theorem sendPing_budget {dest : NodeRef} {message : Bytes} :
    ⦃fun t => ⌜t.fetchWeight ℓ ≤ B⌝⦄ Ring.sendPing dest message ⦃⇓ _ t => ⌜t.fetchWeight ℓ ≤ B⌝⦄ := by
  mvcgen [Ring.sendPing]
  all_goals simp_all

theorem auditPings_budget :
    ⦃fun t => ⌜t.fetchWeight ℓ ≤ B⌝⦄ Ring.auditPings ⦃⇓ _ t => ⌜t.fetchWeight ℓ ≤ B⌝⦄ := by
  intro t h
  refine NodeM.triple_run _ _ t ?_
  simp only [auditPings_run]
  simpa using h

theorem ringState_budget :
    ⦃fun t => ⌜t.fetchWeight ℓ ≤ B⌝⦄ Ring.ringState ⦃⇓ _ t => ⌜t.fetchWeight ℓ ≤ B⌝⦄ := by
  mvcgen [Ring.ringState]
  all_goals simp_all

theorem lookup_budget {term : Bytes} :
    ⦃fun t => ⌜t.fetchWeight ℓ ≤ B⌝⦄ Search.lookup term ⦃⇓ _ t => ⌜t.fetchWeight ℓ ≤ B⌝⦄ := by
  mvcgen [Search.lookup, resolve_budget]
  next nt _ t h _ key _ t' h' =>
  have hadd := Turn.fetchWeight_mapSearch_add ℓ t.drawTx t.drawTx.now (t.node.lastTx + 1) .check
    nt key
  rw [Turn.fetchWeight_drawTx] at hadd
  simp only [Errand.fetchWeight, Nat.add_zero] at hadd
  omega

theorem publish_budget {ix : Index} :
    ⦃fun t => ⌜t.fetchWeight ℓ ≤ B⌝⦄ Search.publish ix ⦃⇓ _ t => ⌜t.fetchWeight ℓ ≤ B⌝⦄ := by
  have hs : ∀ {term : Bytes}, ⦃fun t => ⌜t.fetchWeight ℓ + Errand.store.fetchWeight ℓ ≤ B⌝⦄
      Search.lookupFor .store term ⦃⇓ _ t => ⌜t.fetchWeight ℓ ≤ B⌝⦄ := lookupFor_budget
  mvcgen [Search.publish, hs] invariants
  · ⇓ _ t => ⌜t.fetchWeight ℓ ≤ B⌝

theorem query_fetchWeight (via : NodeRef) (terms : List Bytes) (t : Turn) :
    ((Search.query via terms).run t).2.fetchWeight ℓ ≤ t.fetchWeight ℓ +
      if (t.node.self.num, t.node.lastTx + 1) = ℓ then (Search.queryTerms terms).length + 1
      else 0 := by
  rw [query_run]
  split
  · exact Nat.le_add_right _ _
  · dsimp only [Turn.searchSent]
    refine (Turn.fetchWeight_transmitted_le ℓ _ _ _).trans ?_
    rw [Turn.fetchWeight_mapSearch_of _ _ _ rfl, Turn.fetchWeight_drawTx]
    have hw : Message.fetchWeight (Message.fetchOf ℓ ⟨t.node.lastTx + 1,
        .fetchReq t.node.self.num [] (Search.queryTerms terms) []⟩) =
        if (t.node.self.num, t.node.lastTx + 1) = ℓ then (Search.queryTerms terms).length + 1
        else 0 := by
      split_ifs with hl <;> simp [Message.fetchOf, Message.fetchWeight, hl]
    omega

end Budget

/-- Whether a request, at node `n`, starts search `ℓ`: a search sent by the node numbered
`ℓ.1` under the next id it draws, `ℓ.2`. -/
def Op.StartsSearch (ℓ : UInt32 × UInt32) (n : Node) : Op → Prop
  | .search _ _ => (n.self.num, n.lastTx + 1) = ℓ
  | _ => False

section Budget

variable {ℓ : UInt32 × UInt32}

theorem act_fetchWeight {op : Op} {t : Turn} (hop : ¬ op.StartsSearch ℓ t.node) :
    (op.act.run t).2.fetchWeight ℓ ≤ t.fetchWeight ℓ := by
  have hrun : ∀ {α : Type} {x : NodeM α},
      (∀ B, ⦃fun t => ⌜t.fetchWeight ℓ ≤ B⌝⦄ x ⦃⇓ _ t => ⌜t.fetchWeight ℓ ≤ B⌝⦄) →
      (x.run t).2.fetchWeight ℓ ≤ t.fetchWeight ℓ :=
    fun h => NodeM.run_of_triple (h _) (le_refl _)
  cases op with
  | join _ => exact hrun fun _ => join_budget
  | leave => exact hrun fun _ => leave_budget
  | stabilize => exact hrun fun _ => tick_budget
  | ping _ _ => exact hrun fun _ => sendPing_budget
  | auditPings => exact hrun fun _ => auditPings_budget
  | ringState => exact hrun fun _ => ringState_budget
  | resolve _ _ => exact hrun fun _ => resolve_budget
  | lookup _ => exact hrun fun _ => lookup_budget
  | publish _ => exact hrun fun _ => publish_budget
  | search via terms =>
    have h := query_fetchWeight (ℓ := ℓ) via terms t
    have hop' : ¬(t.node.self.num, t.node.lastTx + 1) = ℓ := hop
    rw [if_neg hop', Nat.add_zero] at h
    rw [Op.act, NodeM.run_discard]
    exact h

theorem act_search_fetchWeight (via : NodeRef) (terms : List Bytes) (t : Turn) :
    ((Op.search via terms).act.run t).2.fetchWeight ℓ ≤
      t.fetchWeight ℓ + ((Search.queryTerms terms).length + 1) := by
  have h := query_fetchWeight (ℓ := ℓ) via terms t
  rw [Op.act, NodeM.run_discard]
  dsimp only
  split_ifs at h <;> omega

end Budget

/-! ### A search's fetches in a cluster -/

theorem Array.toList_modify_const {α : Type} (xs : Array α) (i : Nat) (a : α) :
    (xs.modify i fun _ => a).toList = xs.toList.set i a := by
  apply List.ext_getElem?
  intro j
  simp only [Array.getElem?_toList, Array.getElem?_modify, List.getElem?_set]
  split
  · next h =>
    subst h
    by_cases hj : i < xs.size <;> simp [hj]
  · rfl

theorem List.sum_set_add {L : List Nat} {i : Nat} (h : i < L.length) (a : Nat) :
    (L.set i a).sum + L[i] = L.sum + a := by
  induction L generalizing i with
  | nil => simp at h
  | cons x L ih =>
    cases i with
    | zero => simp; omega
    | succ i =>
      have := ih (i := i) (by simpa using h)
      simp
      omega

namespace Cluster

variable (ℓ : UInt32 × UInt32)

/-- The fetches of search `ℓ` put on the network so far: those taken off the queue, delivered
or dropped, and those still queued. -/
def fetchesSent (c : Cluster) : Nat :=
  (c.seen.toList.map (·.datagram) ++ c.queue.toList).countP
    fun d => (Message.readFetch ℓ d.data).isSome

/-- What a cluster counts toward the fetches of search `ℓ`: every fetch taken off the queue
once, every queued fetch with one more per term it has left, and the lookups in flight at
every member. -/
def fetchWeight (c : Cluster) : Nat :=
  (c.seen.toList.map (·.datagram)).countP (fun d => (Message.readFetch ℓ d.data).isSome) +
    (c.queue.toList.map fun d => Message.fetchWeight (Message.readFetch ℓ d.data)).sum +
    (c.members.toList.map (·.search.lookups.fetchWeight ℓ)).sum

theorem countP_le_fetchWeight (q : List Datagram) :
    q.countP (fun d => (Message.readFetch ℓ d.data).isSome) ≤
      (q.map fun d => Message.fetchWeight (Message.readFetch ℓ d.data)).sum := by
  induction q with
  | nil => simp
  | cons d q ih =>
    have h := Message.fetchWeight_eq (Message.readFetch ℓ d.data)
    simp only [List.countP_cons, List.map_cons, List.sum_cons]
    split_ifs at h ⊢ <;> omega

theorem fetchesSent_le_fetchWeight (c : Cluster) : c.fetchesSent ℓ ≤ c.fetchWeight ℓ := by
  have h := countP_le_fetchWeight ℓ c.queue.toList
  unfold fetchesSent fetchWeight
  rw [List.countP_append]
  omega

theorem fetchWeight_afterTurn {c : Cluster} {i : Nat} {n : Node} (hi : c.members[i]? = some n)
    (t : Turn) :
    (c.afterTurn i n t).fetchWeight ℓ + n.search.lookups.fetchWeight ℓ =
      c.fetchWeight ℓ + t.fetchWeight ℓ := by
  have hlt : i < (c.members.toList.map (·.search.lookups.fetchWeight ℓ)).length := by
    simpa using (Array.getElem?_eq_some_iff.1 hi).1
  have hset := List.sum_set_add hlt (t.node.search.lookups.fetchWeight ℓ)
  have hn : (c.members.toList.map (·.search.lookups.fetchWeight ℓ))[i] =
      n.search.lookups.fetchWeight ℓ := by
    simp [List.getElem_map, Array.getElem_toList, (Array.getElem?_eq_some_iff.1 hi).2]
  rw [hn, ← List.map_set] at hset
  simp only [fetchWeight, Turn.fetchWeight, Turn.sentWeight, afterTurn_queue, List.map_append,
    List.map_map, List.sum_append, Function.comp_def]
  rw [show (c.afterTurn i n t).seen = c.seen from rfl,
    show (c.afterTurn i n t).members = c.members.modify i fun _ => t.node from rfl,
    Array.toList_modify_const]
  omega

theorem startTurn_fetchWeight (c : Cluster) (n : Node) :
    (c.startTurn n).fetchWeight ℓ = n.search.lookups.fetchWeight ℓ := by
  simp [startTurn, Turn.fetchWeight, Turn.sentWeight]

theorem fetchWeight_taken {c : Cluster} {k : Nat} {d : Datagram}
    (hd : c.queue.toList[k]? = some d) :
    (c.taken k d).fetchWeight ℓ + Message.fetchOnward (Message.readFetch ℓ d.data) =
      c.fetchWeight ℓ := by
  obtain ⟨hk, rfl⟩ := List.getElem?_eq_some_iff.1 hd
  have hperm := ((List.getElem_cons_eraseIdx_perm hk).map
    fun d => Message.fetchWeight (Message.readFetch ℓ d.data)).sum_eq
  simp only [List.map_cons, List.sum_cons] at hperm
  have hseen : ((c.taken k c.queue.toList[k]).seen.toList.map (·.datagram)).countP
      (fun d => (Message.readFetch ℓ d.data).isSome) =
      (c.seen.toList.map (·.datagram)).countP (fun d => (Message.readFetch ℓ d.data).isSome) +
        if (Message.readFetch ℓ c.queue.toList[k].data).isSome then 1 else 0 := by
    simp [taken, List.countP_append]
  have hw := Message.fetchWeight_eq (Message.readFetch ℓ c.queue.toList[k].data)
  simp only [fetchWeight, taken_queue, taken_members, hseen]
  omega

variable {ℓ}

theorem Step.fetchWeight_le {allowed : Cluster → Nat → Op → Prop}
    (hfresh : ∀ c i op n, allowed c i op → c.members[i]? = some n → ¬ op.StartsSearch ℓ n)
    {c c' : Cluster} (hs : Step allowed c c') : c'.fetchWeight ℓ ≤ c.fetchWeight ℓ := by
  rcases hs.cases with rfl | ⟨i, n, op, ha, hi, rfl⟩ | ⟨k, d, hd, ⟨rfl, -⟩ | ⟨j, n, -, hj, rfl⟩⟩
  · exact le_refl _
  · -- a request: the member's turn adds nothing
    have hturn := fetchWeight_afterTurn ℓ hi (op.act.run (c.startTurn n)).2
    have hact := act_fetchWeight (t := c.startTurn n) (hfresh c i op n ha hi)
    rw [startTurn_fetchWeight] at hact
    omega
  · -- a datagram dropped: it leaves the queue and counts once among those taken off it
    have := fetchWeight_taken ℓ hd
    omega
  · -- a datagram delivered: what it may still cause is all the handler's turn adds
    have htaken := fetchWeight_taken ℓ hd
    have hturn := fetchWeight_afterTurn ℓ (c := c.taken k d) hj
      ((Node.receive d.src d.data).run ((c.taken k d).startTurn n)).2
    have hrecv := NodeM.run_of_triple (@receive_budget ℓ
      (n.search.lookups.fetchWeight ℓ + Message.fetchOnward (Message.readFetch ℓ d.data))
      d.src d.data) (t := (c.taken k d).startTurn n) (by rw [startTurn_fetchWeight])
    omega

theorem Run.fetchWeight_le {allowed : Cluster → Nat → Op → Prop}
    (hfresh : ∀ c i op n, allowed c i op → c.members[i]? = some n → ¬ op.StartsSearch ℓ n)
    {c c' : Cluster} (hrun : Run allowed c c') : c'.fetchWeight ℓ ≤ c.fetchWeight ℓ :=
  Run.invariant (I := fun c' => c'.fetchWeight ℓ ≤ c.fetchWeight ℓ)
    (fun _ _ h hs => (hs.fetchWeight_le hfresh).trans h) hrun (le_refl _)

/-- Search `ℓ` has not begun: no queued datagram reads as one of its fetches, and no member
has a lookup in flight that would carry it on. -/
structure Unbegun (ℓ : UInt32 × UInt32) (c : Cluster) : Prop where
  queued : ∀ d ∈ c.queue.toList, Message.readFetch ℓ d.data = none
  carried : ∀ n ∈ c.members, ∀ e ∈ n.search.lookups.entries, ∀ o r a x,
    e.value.errand = .fetch o r a x → (o, x) ≠ ℓ

theorem Unbegun.fetchWeight_eq {c : Cluster} (h : c.Unbegun ℓ) :
    c.fetchWeight ℓ = c.fetchesSent ℓ := by
  have hq : (c.queue.toList.map fun d => Message.fetchWeight (Message.readFetch ℓ d.data)).sum =
      0 := by
    refine List.sum_eq_zero fun w hw => ?_
    obtain ⟨d, hd, rfl⟩ := List.mem_map.1 hw
    rw [h.queued d hd, Message.fetchWeight]
  have hq' : c.queue.toList.countP (fun d => (Message.readFetch ℓ d.data).isSome) = 0 :=
    List.countP_eq_zero.2 fun d hd => by simp [h.queued d hd]
  have hm : (c.members.toList.map (·.search.lookups.fetchWeight ℓ)).sum = 0 := by
    refine List.sum_eq_zero fun w hw => ?_
    obtain ⟨n, hn, rfl⟩ := List.mem_map.1 hw
    refine List.sum_eq_zero fun v hv => ?_
    obtain ⟨e, he, rfl⟩ := List.mem_map.1 hv
    cases herr : e.value.errand with
    | fetch o r a x =>
      simp [Errand.fetchWeight, h.carried n (Array.mem_toList_iff.1 hn) e he o r a x herr]
    | store | check => rfl
  unfold fetchWeight fetchesSent
  rw [List.countP_append, hq, hq', hm]

theorem queryTerms_length (T : List Bytes) :
    (Search.queryTerms T).length = ((T.map normalize).filter (· ≠ [])).toFinset.card := by
  rw [Search.queryTerms, ← List.toFinset_card_of_nodup (DocSet.nodup _)]
  congr 1
  ext s
  simp

/-- A search causes at most one fetch more than it has terms: over any run that starts with
member `i`'s search for `T` through `via`, from a cluster in any ring state where the search
has not begun, and in which no other request starts a search under the same originator and
id, the fetches of the search sent number at most one more than the distinct non-empty
normalized terms of `T`. -/
theorem search_fetches_bounded {allowed : Cluster → Nat → Op → Prop} {c : Cluster} {i : Nat}
    {o : Node} (hi : c.members[i]? = some o) (via : NodeRef) (T : List Bytes)
    (hidle : c.Unbegun (o.self.num, o.lastTx + 1))
    (hfresh : ∀ c i op n, allowed c i op → c.members[i]? = some n →
      ¬ op.StartsSearch (o.self.num, o.lastTx + 1) n)
    {c' : Cluster} (hrun : Run allowed (c.turn i (Op.search via T).act).2 c') :
    c'.fetchesSent (o.self.num, o.lastTx + 1) ≤ c.fetchesSent (o.self.num, o.lastTx + 1) +
      (((T.map normalize).filter (· ≠ [])).toFinset.card + 1) := by
  set ℓ := (o.self.num, o.lastTx + 1)
  have hturn := fetchWeight_afterTurn ℓ hi ((Op.search via T).act.run (c.startTurn o)).2
  have hact := act_search_fetchWeight (ℓ := ℓ) via T (c.startTurn o)
  rw [startTurn_fetchWeight] at hact
  rw [turn_run hi] at hrun
  have hrest := Run.fetchWeight_le hfresh hrun
  have hsent := fetchesSent_le_fetchWeight ℓ c'
  rw [← queryTerms_length, ← hidle.fetchWeight_eq]
  omega

end Cluster

/-! ### Answers are matched at most once -/

namespace Node

/-- What a node promises about the answers it awaits. Over any run of a node set up from a
configuration, forged, late and duplicated answers included, each ping, search and lookup is
reported at most once while the run draws fewer than `2 ^ 32` ids, and each lookup that hands
postings on or carries a search on sends at most once. In any run of a cluster, whatever its
ring state, the fetches one search causes number at most one more than its distinct
non-empty normalized terms. A ping to a set node that no answer names and no leave drops is
reported exactly once, as failed by the first audit at or after its deadline. -/
theorem answers_matched_once :
    (∀ (cfg : Config) (seed : UInt32) (ev : Bool) (n₀ : Node), Node.create cfg seed ev = .ok n₀ →
      ∀ ss : List Stimulus,
        (n₀.moves ss < 2 ^ 32 → ∀ k x, (n₀.reported ss).countP (·.reports k x) ≤ 1) ∧
        ∀ x, n₀.sentFor x ss ≤ n₀.errandsStarted x ss) ∧
    (∀ (allowed : Cluster → Nat → Op → Prop) (c : Cluster) (i : Nat) (o : Node) (via : NodeRef)
      (T : List Bytes) (c' : Cluster), c.members[i]? = some o →
      c.Unbegun (o.self.num, o.lastTx + 1) →
      (∀ c i op n, allowed c i op → c.members[i]? = some n →
        ¬ op.StartsSearch (o.self.num, o.lastTx + 1) n) →
      Cluster.Run allowed (c.turn i (Op.search via T).act).2 c' →
      c'.fetchesSent (o.self.num, o.lastTx + 1) ≤ c.fetchesSent (o.self.num, o.lastTx + 1) +
        (((T.map normalize).filter (· ≠ [])).toFinset.card + 1)) ∧
    (∀ (cfg : Config) (seed : UInt32) (n₀ : Node) (ss₁ ss₂ ss₃ : List Stimulus) (dest : NodeRef)
      (message : Bytes) (sentAt : Int) (linkOpen : Bool) (audit : Stimulus),
      Node.create cfg seed true = .ok n₀ → dest.isUnset = false →
      audit.input = .act .auditPings → sentAt + cfg.pingTimeout ≤ audit.now →
      (n₀.after (ss₁ ++ [⟨.act (.ping dest message), sentAt, linkOpen⟩])).Spares
        ((n₀.after ss₁).lastTx + 1) (sentAt + cfg.pingTimeout) ss₂ →
      n₀.moves (ss₁ ++ ⟨.act (.ping dest message), sentAt, linkOpen⟩ :: ss₂ ++ audit :: ss₃) <
        2 ^ 32 →
      (n₀.reported (ss₁ ++ ⟨.act (.ping dest message), sentAt, linkOpen⟩ :: ss₂ ++
        audit :: ss₃)).countP (·.reports .ping ((n₀.after ss₁).lastTx + 1)) = 1 ∧
      ∃ ev ∈ ((n₀.after (ss₁ ++ ⟨.act (.ping dest message), sentAt, linkOpen⟩ :: ss₂)).answer
        audit).events.toList, ev.kind = .pingFailure ∧
          ev.reports .ping ((n₀.after ss₁).lastTx + 1) = true) := by
  refine ⟨fun cfg seed ev n₀ hc ss => ⟨fun hk => reports_once hc ss hk, errand_once hc ss⟩,
    fun allowed c i o via T c' hi hidle hfresh hrun => ?_, fun cfg seed n₀ ss₁ ss₂ ss₃ dest
      message sentAt linkOpen audit hc hdest ha hdue hspare hk => ?_⟩
  · exact Cluster.search_fetches_bounded hi via T hidle hfresh hrun
  · exact ping_fails_once hc ss₁ ss₂ ss₃ hdest message sentAt linkOpen ha hdue hspare hk

/-- The node the default configuration sets up: node 1 at `127.0.0.1`. -/
def defaultNode : Node :=
  { self := NodeRef.make 1 (.v4 [127, 0, 0, 1]), config := {},
    directory := ⟨[(1, .v4 [127, 0, 0, 1])]⟩, lastTx := 0, reportsEvents := true }

theorem create_default : Node.create {} 0 true = .ok defaultNode := by
  have hv : Config.validate {} = .ok () := by decide +kernel
  have hd : Directory.ofTable (({} : Config).nodes) = .ok ⟨[(1, .v4 [127, 0, 0, 1])]⟩ := by
    decide +kernel
  have ha : Address.parse ({} : Config).host = .ok (.v4 [127, 0, 0, 1]) := by decide +kernel
  simp only [Node.create, hv, hd, ha]
  rfl

/-- A ping to node 2 of `stillPair`, sent at time `0`. -/
def pingTwo : Stimulus := ⟨.act (.ping Cluster.refTwo [104, 105]), 0, true⟩

/-- An answer from node 2 to the ping under `tx`, heard at `now`. -/
def pongAt (tx : UInt32) (now : Int) : Stimulus :=
  ⟨.handle Cluster.refTwo.addr ⟨tx, .pingRsp [104, 105]⟩, now, true⟩

/-- An audit of the pings in flight at `now`. -/
def auditAt (now : Int) : Stimulus := ⟨.act .auditPings, now, true⟩

/-- The witnesses: the default node pings node 2, hears its answer twice and audits; node 1
of `stillPair` searches two terms through node 2 and three datagrams are delivered; the
default node pings node 2, which never answers, hears a stray answer, audits before and after
the timeout, and then hears a late answer. -/
theorem defaultNode_matched_once :
    (Node.create {} 0 true = .ok defaultNode ∧
      defaultNode.moves [pingTwo, pongAt 1 1, pongAt 1 2, auditAt 3000000000] < 2 ^ 32 ∧
      ∀ k x, (defaultNode.reported [pingTwo, pongAt 1 1, pongAt 1 2, auditAt 3000000000]).countP
        (·.reports k x) ≤ 1) ∧
    (Cluster.stillPair.members[0]? = some (Cluster.pairedWith Cluster.refOne Cluster.refTwo) ∧
      Cluster.stillPair.Unbegun (1, 1) ∧
      (((Cluster.stillPair.turn 0 (Op.search Cluster.refTwo [[97], [98]]).act).2.deliverAt 0
        |>.deliverAt 0 |>.deliverAt 0).fetchesSent (1, 1) ≤
        Cluster.stillPair.fetchesSent (1, 1) +
          ((([[97], [98]] : List Bytes).map normalize).filter (· ≠ [])).toFinset.card + 1)) ∧
    (defaultNode.moves (pingTwo :: [pongAt 9 1, auditAt 1] ++ auditAt 2000000000 ::
        [pongAt 1 3000000000]) < 2 ^ 32 ∧
      (defaultNode.reported (pingTwo :: [pongAt 9 1, auditAt 1] ++ auditAt 2000000000 ::
        [pongAt 1 3000000000])).countP (·.reports .ping 1) = 1) := by
  obtain ⟨hnode, hsearch, hping⟩ := Node.answers_matched_once
  have hk₁ : defaultNode.moves [pingTwo, pongAt 1 1, pongAt 1 2, auditAt 3000000000] < 2 ^ 32 := by
    decide +kernel
  have hk₃ : defaultNode.moves (pingTwo :: [pongAt 9 1, auditAt 1] ++ auditAt 2000000000 ::
      [pongAt 1 3000000000]) < 2 ^ 32 := by
    decide +kernel
  -- node 1 of `stillPair` has nothing queued and no lookup in flight
  have hidle : Cluster.stillPair.Unbegun (1, 1) := by
    constructor
    · intro d hd
      simp [Cluster.stillPair, Fifo.toList] at hd
    · intro n hn e he
      rcases Cluster.mem_stillPair hn with rfl | rfl <;>
        simp [Cluster.pairedWith, Tracker.empty] at he
  have hrun : Cluster.Run (fun _ _ _ => False)
      (Cluster.stillPair.turn 0 (Op.search Cluster.refTwo [[97], [98]]).act).2
      ((Cluster.stillPair.turn 0 (Op.search Cluster.refTwo [[97], [98]]).act).2.deliverAt 0
        |>.deliverAt 0 |>.deliverAt 0) :=
    .tail (.tail (.single (.deliver 0)) (.deliver 0)) (.deliver 0)
  have hspare : (defaultNode.after ([] ++ [pingTwo])).Spares ((defaultNode.after []).lastTx + 1)
      (0 + defaultNode.config.pingTimeout) [pongAt 9 1, auditAt 1] := by
    refine ⟨?_, ?_, trivial⟩
    · show (9 : UInt32) ≠ 0 + 1
      decide
    · show (1 : Int) < 0 + 2000000000
      decide
  refine ⟨⟨create_default, hk₁, (hnode {} 0 true defaultNode create_default _).1 hk₁⟩,
    ⟨rfl, hidle, hsearch (fun _ _ _ => False) Cluster.stillPair 0 _ Cluster.refTwo [[97], [98]] _
      rfl hidle (fun _ _ _ _ h => h.elim) hrun⟩, hk₃, ?_⟩
  exact (hping {} 0 defaultNode [] [pongAt 9 1, auditAt 1] [pongAt 1 3000000000] Cluster.refTwo
    [104, 105] 0 true (auditAt 2000000000) create_default rfl rfl (by decide) hspare hk₃).1

end Node

end ChordSearch
