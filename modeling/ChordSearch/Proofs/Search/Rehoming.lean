import ChordSearch.Proofs.Node.Effects
import ChordSearch.Proofs.Wire.Normal
import ChordSearch.Proofs.Index.TermMap

/-! # Rehoming a store

When a node at `self` learns of a new predecessor `p`, it keeps the terms whose key lies in
`(p, self]` and hands every other term to `p` (`Search.predecessorChanged`). The split is
exact: the two parts share no term, together they have every term of the store, the test
sorts each term to its side, and no posting changes on the way (`Store.extractNotOwned_splits`).

Handing terms on sends one store request per term, in ascending term order, each written as
the request for the term and its documents (`Turn.storesSent_outgoing`). A store request is
written when its term and documents fit string fields, which holds of every store: a node
keeps only what store requests brought it. So a node that learns of a set predecessor through
an open endpoint sends exactly one store request per term it does not own, to the
predecessor's address, carrying the term's documents in ascending order; an unset predecessor
changes nothing (`Search.rehoming_exact`).
-/

namespace ChordSearch

/-- Every term and every document fits a string field of the wire. -/
def TermMap.Fits (m : TermMap) : Prop :=
  ∀ e ∈ m.entries, Codec.Fits e.1 ∧ ∀ d ∈ e.2.toList, Codec.Fits d

namespace Store

variable (s : Store) (pred self : RingId)

/-- The split of a store by ownership is exact: the kept and the moved terms are disjoint and
make up the store's terms, the kept ones are owned and the moved ones not, and each keeps its
postings. -/
theorem extractNotOwned_splits :
    let split := s.extractNotOwned pred self
    (∀ t, t ∈ s.terms ↔ t ∈ split.1.terms ∨ t ∈ split.2.terms) ∧
    (∀ t, ¬ (t ∈ split.1.terms ∧ t ∈ split.2.terms)) ∧
    (∀ t ∈ split.1.terms,
      Arc.owns pred (RingId.hash t) self = true ∧ split.1.postings t = s.postings t) ∧
    (∀ t ∈ split.2.terms,
      Arc.owns pred (RingId.hash t) self = false ∧ split.2.postings t = s.postings t) := by
  intro split
  refine ⟨fun t => ?_, fun t ⟨hk, hm⟩ => ?_, fun t ht => ?_, fun t ht => ?_⟩
  · rw [mem_kept_terms, mem_moved_terms]
    cases Arc.owns pred (RingId.hash t) self <;> simp
  · have hown := ((mem_kept_terms s pred self t).1 hk).2
    rw [((mem_moved_terms s pred self t).1 hm).2] at hown
    exact Bool.false_ne_true hown
  · have hown := ((mem_kept_terms s pred self t).1 ht).2
    refine ⟨hown, ?_⟩
    simp only [postings, TermMap.postings, split, find?_kept, hown, if_true]
  · have hown := ((mem_moved_terms s pred self t).1 ht).2
    refine ⟨hown, ?_⟩
    simp only [postings, TermMap.postings, split, find?_moved, hown]
    rfl

end Store

theorem TermMap.Ascending.postings_eq {m : TermMap} (h : m.Ascending) {e : Bytes × DocSet}
    (he : e ∈ m.entries) : m.postings e.1 = e.2 := by
  obtain ⟨found, hf⟩ : ∃ d, m.find? e.1 = some d :=
    Option.isSome_iff_exists.1 (TermMap.mem_terms_iff.1 (List.mem_map_of_mem he))
  rw [TermMap.postings, hf, Option.getD_some]
  exact h.eq_of_mem (TermMap.mem_of_find? hf) he

theorem Store.moved_entries (s : Store) (pred self : RingId) (h : s.map.Ascending) :
    (s.extractNotOwned pred self).2.entries =
      (s.extractNotOwned pred self).2.terms.map fun t => (t, s.postings t) := by
  have hasc : (s.extractNotOwned pred self).2.Ascending := by
    rw [Store.extractNotOwned_eq]
    exact (h.partition fun x => Arc.owns pred (RingId.hash x) self).2
  rw [TermMap.terms, List.map_map]
  conv_lhs => rw [← List.map_id (s.extractNotOwned pred self).2.entries]
  refine List.map_congr_left fun e he => ?_
  have hmoved := (Store.extractNotOwned_splits s pred self).2.2.2 e.1 (List.mem_map_of_mem he)
  show e = (e.1, s.postings e.1)
  rw [← hmoved.2, hasc.postings_eq he]

namespace Turn

theorem storesSent_outgoing (dest : Address) {es : List (Bytes × DocSet)} {t : Turn}
    (hopen : t.linkOpen = true)
    (hfit : ∀ e ∈ es, Codec.Fits e.1 ∧ ∀ d ∈ e.2.toList, Codec.Fits d) :
    ∃ sent, (t.storesSent dest es).outgoing.toList = t.outgoing.toList ++ sent ∧
      List.Forall₂ (fun (d : Address × Bytes) (e : Bytes × DocSet) =>
        d.1 = dest ∧ ∃ tx, Message.encode ⟨tx, .storeReq e.1 e.2.toList⟩ = .ok d.2) sent es := by
  induction es generalizing t with
  | nil => exact ⟨[], by simp [storesSent], .nil⟩
  | cons e es ih =>
    obtain ⟨w, hw⟩ : ∃ w, Message.encode ⟨t.node.lastTx + 1, .storeReq e.1 e.2.toList⟩ = .ok w := by
      have hwr := hfit e List.mem_cons_self
      exact ⟨_, Message.encode_eq_ok_iff.2 ⟨⟨by simpa [Body.texts] using hwr.1,
        by simpa [Body.sets] using hwr.2, by simp [Body.refs]⟩, rfl⟩⟩
    have hfirst : (t.storeSent dest e).outgoing.toList = t.outgoing.toList ++ [(dest, w)] := by
      simp [storeSent, transmitted_outgoing, hw, hopen]
    obtain ⟨sent, hsent, hrel⟩ := ih (t := t.storeSent dest e) (by simpa using hopen)
      fun e' he' => hfit e' (List.mem_cons_of_mem _ he')
    refine ⟨(dest, w) :: sent, ?_, .cons ⟨rfl, _, hw⟩ hrel⟩
    rw [storesSent, List.foldl_cons, ← storesSent, hsent, hfirst, List.append_assoc]
    rfl

theorem handedOver_of_set {n : NodeRef} (hn : n.isUnset = false) (t : Turn) :
    t.handedOver n =
      (t.mapSearch fun s => { s with store := (t.node.search.store.extractNotOwned n.id
        t.node.self.id).1 }).storesSent n.addr
        (t.node.search.store.extractNotOwned n.id t.node.self.id).2.entries := by
  unfold handedOver
  simp only [hn, Bool.false_eq_true, if_false]
  split
  · next hempty =>
    simp only [TermMap.isEmpty, List.isEmpty_iff] at hempty
    rw [hempty]
    rfl
  · rfl

end Turn

namespace Search

/-- Rehoming is exact, and so is what it sends. Splitting any store by the arc `(p, self]`
leaves the owned terms and hands on the others, disjoint, complete and with their postings.
A node whose store fits the wire and whose endpoint is open, on learning of a set predecessor
`n`, keeps exactly the terms it owns and sends exactly one store request per term it does
not own, all to `n`'s address, each written with the term and its documents in ascending
order; an unset predecessor leaves the node's turn as it was. -/
theorem rehoming_exact :
    (∀ (s : Store) (p self : RingId),
      let split := s.extractNotOwned p self
      (∀ t, t ∈ s.terms ↔ t ∈ split.1.terms ∨ t ∈ split.2.terms) ∧
      (∀ t, ¬ (t ∈ split.1.terms ∧ t ∈ split.2.terms)) ∧
      (∀ t ∈ split.1.terms,
        Arc.owns p (RingId.hash t) self = true ∧ split.1.postings t = s.postings t) ∧
      (∀ t ∈ split.2.terms,
        Arc.owns p (RingId.hash t) self = false ∧ split.2.postings t = s.postings t)) ∧
    ∀ (t : Turn) (n : NodeRef), t.linkOpen = true → t.node.search.store.map.Ascending →
      t.node.search.store.map.Fits →
      let s := t.node.search.store
      let split := s.extractNotOwned n.id t.node.self.id
      (n.isUnset = true → (predecessorChanged n).run t = ((), t)) ∧
      (n.isUnset = false → ∃ t', (predecessorChanged n).run t = ((), t') ∧
        t'.node.search.store = split.1 ∧
        ∃ sent, t'.outgoing.toList = t.outgoing.toList ++ sent ∧
          List.Forall₂ (fun (d : Address × Bytes) (term : Bytes) => d.1 = n.addr ∧
            ∃ tx, Message.encode ⟨tx, .storeReq term (s.postings term).toList⟩ = .ok d.2)
            sent split.2.terms) := by
  refine ⟨Store.extractNotOwned_splits, fun t n hopen hasc hfit => ⟨fun hn => ?_, fun hn => ?_⟩⟩
  · rw [predecessorChanged_run]
    simp [Turn.handedOver, hn]
  · refine ⟨_, predecessorChanged_run n t, ?_⟩
    rw [Turn.handedOver_of_set hn]
    refine ⟨by simp, ?_⟩
    have hsub : ∀ e ∈ (t.node.search.store.extractNotOwned n.id t.node.self.id).2.entries,
        e ∈ t.node.search.store.map.entries := by
      rw [Store.extractNotOwned_eq, TermMap.partition_eq]
      exact fun e he => List.mem_of_mem_filter he
    -- one request goes out per moved entry, and an entry holds the store's documents
    obtain ⟨sent, hsent, hfor⟩ := Turn.storesSent_outgoing n.addr (t := t.mapSearch _)
      (by simpa using hopen) fun e he => hfit e (hsub e he)
    refine ⟨sent, by simpa using hsent, ?_⟩
    rw [Store.moved_entries _ _ _ hasc, List.forall₂_map_right_iff] at hfor
    exact hfor

/-- A turn of a node at `10.0.0.1` that stores document `d` under term `a`, its endpoint open. -/
def storingTurn : Turn :=
  let me := NodeRef.make 1 (.v4 [10, 0, 0, 1])
  { node :=
      { self := me
        config := {}
        directory := ⟨[]⟩
        lastTx := 0
        reportsEvents := false
        search := { store := ⟨⟨[([97], DocSet.empty.insert [100])]⟩⟩ } }
    now := 0
    linkOpen := true }

/-- The node of `storingTurn` learns of a predecessor at `10.0.0.2`. -/
theorem storingTurn_rehomes :
    storingTurn.linkOpen = true ∧ storingTurn.node.search.store.map.Ascending ∧
      storingTurn.node.search.store.map.Fits ∧
      let n := NodeRef.make 2 (.v4 [10, 0, 0, 2])
      let s := storingTurn.node.search.store
      let split := s.extractNotOwned n.id storingTurn.node.self.id
      (n.isUnset = true → (predecessorChanged n).run storingTurn = ((), storingTurn)) ∧
      (n.isUnset = false → ∃ t', (predecessorChanged n).run storingTurn = ((), t') ∧
        t'.node.search.store = split.1 ∧
        ∃ sent, t'.outgoing.toList = storingTurn.outgoing.toList ++ sent ∧
          List.Forall₂ (fun (d : Address × Bytes) (term : Bytes) => d.1 = n.addr ∧
            ∃ tx, Message.encode ⟨tx, .storeReq term (s.postings term).toList⟩ = .ok d.2)
            sent split.2.terms) := by
  have hopen : storingTurn.linkOpen = true := rfl
  have hasc : storingTurn.node.search.store.map.Ascending := List.pairwise_singleton _ _
  have hfit : storingTurn.node.search.store.map.Fits := by
    simp [TermMap.Fits, storingTurn, Codec.Fits, DocSet.insert, DocSet.empty, DocSet.insertSorted]
  exact ⟨hopen, hasc, hfit, rehoming_exact.2 storingTurn _ hopen hasc hfit⟩

end Search

end ChordSearch
