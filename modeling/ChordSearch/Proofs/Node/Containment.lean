import ChordSearch.Proofs.Node.Effects
import ChordSearch.Proofs.Search.Handlers
import ChordSearch.Proofs.Index.TermMap

/-! # What one datagram can do to a node

A node hands each datagram it receives to one of its two layers, and the layers keep to
their own state:

* `receive_undecodable`: bytes that do not decode leave the node exactly as it was, but for
  one more decode error counted; nothing is sent and nothing reported.
* `handle_search_ring`: stores, fetches and fetch answers go to the search layer, which
  leaves the ring state (neighbours, fingers, pings in flight, membership) as it was.
* `handle_ring_unsearched`: every other message goes to the ring layer, which leaves the
  searches in flight as they were and never adds to the store (`Turn.Unsearched`); it
  reaches the search layer only to hand stored terms to a new predecessor or to carry out a
  lookup's errand.
* `fetch_pops`: a fetch takes its next term off the list it is handed without looking
  whether the list has one; its caller's tests see to that, so a fetch either answers or
  carries the search on with the least remaining term.

Every handler is a total function here, so none can fail to return; the other reads that
could fall off their data are checked where they happen (a finger answer against the table's
size, the repair walk against a complete table, the codec against the bytes left).
`Node.datagram_contained` puts these together for any datagram, in any state.
-/

namespace ChordSearch

open NodeM Std.Do

set_option mvcgen.warning false

theorem receive_undecodable {from_ : Address} {b : Bytes} {e : CodecError}
    (h : Message.decode b = .error e) (t : Turn) :
    (Node.receive from_ b).run t =
      ((), t.mapMetrics fun m => { m with decodeErrors := m.decodeErrors + 1 }) := by
  simp only [Node.receive, h]
  rfl

/-! ### The search layer keeps off the ring state -/

section SearchLayer

variable {r : Membership}

theorem keep_ring {term : Bytes} {docs : List Bytes} :
    ⦃fun t => ⌜t.node.ring = r⌝⦄ Search.keep term docs ⦃⇓ _ t => ⌜t.node.ring = r⌝⦄ := by
  mvcgen [Search.keep]

theorem fetch_ring {tx originator : UInt32} {key : Bytes} {remaining accumulated : List Bytes} :
    ⦃fun t => ⌜t.node.ring = r⌝⦄ Search.fetch tx originator key remaining accumulated
    ⦃⇓ _ t => ⌜t.node.ring = r⌝⦄ := by
  mvcgen [Search.fetch, Search.reply, Search.forward, Search.lookupFor, Ring.resolve,
    Ring.findSuccessor]
  all_goals simp_all

theorem fetchReply_ring {tx : UInt32} {docs : List Bytes} :
    ⦃fun t => ⌜t.node.ring = r⌝⦄ Search.fetchReply tx docs ⦃⇓ _ t => ⌜t.node.ring = r⌝⦄ := by
  mvcgen [Search.fetchReply]
  simp_all

theorem handle_search_ring {from_ : Address} {m : Message} (hs : m.body.kind.isSearch = true) :
    ⦃fun t => ⌜t.node.ring = r⌝⦄ Node.handle from_ m ⦃⇓ _ t => ⌜t.node.ring = r⌝⦄ := by
  rcases m with ⟨tx, b⟩
  cases b with
  | storeReq _ _ => exact keep_ring
  | fetchReq _ _ _ _ => exact fetch_ring
  | fetchRsp _ => exact fetchReply_ring
  | _ => simp [Body.kind, Kind.isSearch] at hs

end SearchLayer

/-! ### The ring layer keeps off the searches and the store -/

/-- The searches in flight are `S`, and every stored entry is one of `St`. -/
structure Turn.Unsearched (S : Tracker PendingSearch) (St : List (Bytes × DocSet)) (t : Turn) :
    Prop where
  searches : t.node.search.searches = S
  store : ∀ e ∈ t.node.search.store.map.entries, e ∈ St

namespace Turn.Unsearched

variable {S : Tracker PendingSearch} {St : List (Bytes × DocSet)} {t : Turn}

theorem of_same (h : t.Unsearched S St) {t' : Turn}
    (hs : t'.node.search.searches = t.node.search.searches)
    (hst : t'.node.search.store = t.node.search.store) : t'.Unsearched S St :=
  ⟨hs ▸ h.searches, hst ▸ h.store⟩

theorem handedOver (h : t.Unsearched S St) (n : NodeRef) : (t.handedOver n).Unsearched S St := by
  unfold Turn.handedOver
  split
  · exact h
  · dsimp only
    have hk : (t.mapSearch fun s => { s with store :=
        (t.node.search.store.extractNotOwned n.id t.node.self.id).1 }).Unsearched S St := by
      refine ⟨by simpa using h.searches, fun e he => h.store e ?_⟩
      simp only [mapSearch_node, Store.extractNotOwned_eq, TermMap.partition_eq,
        List.mem_filter] at he
      exact he.1
    split
    · exact hk
    · exact hk.of_same (by simp) (by simp)

theorem predecessorSet (h : t.Unsearched S St) (n : NodeRef) :
    (t.predecessorSet n).Unsearched S St := by
  unfold Turn.predecessorSet
  split
  · exact h
  · next =>
    have hn : ((t.mapRing fun r => { r with predecessor := n }).noted .predecessorChange
        n.toText (Bytes.ofString ("predecessor " ++ t.node.ring.predecessor.toText ++ " -> " ++
          n.toText))).Unsearched S St := h.of_same (by simp) (by simp)
    exact hn.handedOver n

end Turn.Unsearched

section RingLayer

open Turn.Unsearched

variable {S : Tracker PendingSearch} {St : List (Bytes × DocSet)}

theorem requestFinger_unsearched {f : Finger} :
    ⦃fun t => ⌜t.Unsearched S St⌝⦄ Ring.requestFinger f ⦃⇓ _ t => ⌜t.Unsearched S St⌝⦄ := by
  intro t h
  mvcgen [Ring.requestFinger]
  exact h.of_same (by simp) (by simp)

theorem initFinger_unsearched {i : Nat} :
    ⦃fun t => ⌜t.Unsearched S St⌝⦄ Ring.initFinger i ⦃⇓ _ t => ⌜t.Unsearched S St⌝⦄ := by
  intro t h
  mvcgen [Ring.initFinger, requestFinger_unsearched]
  exact h.of_same (by simp) (by simp)

theorem fixFinger_unsearched {i : Nat} :
    ⦃fun t => ⌜t.Unsearched S St⌝⦄ Ring.fixFinger i ⦃⇓ _ t => ⌜t.Unsearched S St⌝⦄ := by
  intro t h
  mvcgen [Ring.fixFinger, requestFinger_unsearched]
  all_goals exact h.of_same (by simp) (by simp)

theorem findSuccessor_unsearched {tx : UInt32} {n : NodeRef} {start : RingId} {index : UInt32} :
    ⦃fun t => ⌜t.Unsearched S St⌝⦄ Ring.findSuccessor tx n start index
    ⦃⇓ _ t => ⌜t.Unsearched S St⌝⦄ := by
  intro t h
  mvcgen [Ring.findSuccessor]
  all_goals exact h.of_same (by simp) (by simp)

theorem lookupResolved_unsearched {owner : NodeRef} {key : RingId} {tx : UInt32} :
    ⦃fun t => ⌜t.Unsearched S St⌝⦄ Search.lookupResolved owner key tx
    ⦃⇓ _ t => ⌜t.Unsearched S St⌝⦄ := by
  intro t h
  mvcgen [Search.lookupResolved]
  all_goals exact h.of_same (by simp) (by simp)

theorem foundSuccessor_unsearched {tx : UInt32} {owner : NodeRef} {start : RingId}
    {index : UInt32} :
    ⦃fun t => ⌜t.Unsearched S St⌝⦄ Ring.foundSuccessor tx owner start index
    ⦃⇓ _ t => ⌜t.Unsearched S St⌝⦄ := by
  intro t h
  mvcgen [Ring.foundSuccessor, lookupResolved_unsearched, initFinger_unsearched,
    fixFinger_unsearched]
  all_goals exact h.of_same (by simp) (by simp)

theorem stabilizeReply_unsearched {q : NodeRef} :
    ⦃fun t => ⌜t.Unsearched S St⌝⦄ Ring.stabilizeReply q ⦃⇓ _ t => ⌜t.Unsearched S St⌝⦄ := by
  intro t h
  mvcgen [Ring.stabilizeReply]
  exact h.of_same (by simp) (by simp)

theorem stabilizeRequest_unsearched {tx : UInt32} {sender : NodeRef} :
    ⦃fun t => ⌜t.Unsearched S St⌝⦄ Ring.stabilizeRequest tx sender
    ⦃⇓ _ t => ⌜t.Unsearched S St⌝⦄ := by
  intro t h
  mvcgen [Ring.stabilizeRequest]
  · exact (h.predecessorSet sender).of_same (by simp) (by simp)
  · exact h.of_same (by simp) (by simp)

theorem joinRequest_unsearched {tx : UInt32} {landmark requester : NodeRef} :
    ⦃fun t => ⌜t.Unsearched S St⌝⦄ Ring.joinRequest tx landmark requester
    ⦃⇓ _ t => ⌜t.Unsearched S St⌝⦄ := by
  intro t h
  mvcgen [Ring.joinRequest]
  all_goals exact h.of_same (by simp) (by simp)

theorem joinReply_unsearched {tx : UInt32} {requester landmark successor : NodeRef} :
    ⦃fun t => ⌜t.Unsearched S St⌝⦄ Ring.joinReply tx requester landmark successor
    ⦃⇓ _ t => ⌜t.Unsearched S St⌝⦄ := by
  intro t h
  mvcgen [Ring.joinReply, initFinger_unsearched]
  all_goals exact h.of_same (by simp) (by simp)

theorem departure_unsearched {sender conn : NodeRef} :
    ⦃fun t => ⌜t.Unsearched S St⌝⦄ Ring.departure sender conn ⦃⇓ _ t => ⌜t.Unsearched S St⌝⦄ := by
  intro t h
  mvcgen [Ring.departure]
  · exact (h.predecessorSet conn).of_same (by simp) (by simp)
  · exact (h.predecessorSet conn).of_same (by simp) (by simp)
  · exact h.of_same (by simp) (by simp)
  · exact h.of_same (by simp) (by simp)

theorem pingRequest_unsearched {from_ : Address} {tx : UInt32} {message : Bytes} :
    ⦃fun t => ⌜t.Unsearched S St⌝⦄ Ring.pingRequest from_ tx message
    ⦃⇓ _ t => ⌜t.Unsearched S St⌝⦄ := by
  intro t h
  mvcgen [Ring.pingRequest]
  exact h.of_same (by simp) (by simp)

theorem pingAnswer_unsearched {tx : UInt32} :
    ⦃fun t => ⌜t.Unsearched S St⌝⦄ Ring.pingAnswer tx ⦃⇓ _ t => ⌜t.Unsearched S St⌝⦄ := by
  intro t h
  mvcgen [Ring.pingAnswer, Ring.pingSucceeded]
  exact h.of_same (by simp) (by simp)

theorem ringStatePing_unsearched {tx : UInt32} {originator : NodeRef} :
    ⦃fun t => ⌜t.Unsearched S St⌝⦄ Ring.ringStatePing tx originator
    ⦃⇓ _ t => ⌜t.Unsearched S St⌝⦄ := by
  intro t h
  mvcgen [Ring.ringStatePing]
  exact h.of_same (by simp) (by simp)

theorem handle_ring_unsearched {from_ : Address} {m : Message} (hs : m.body.kind.isSearch = false) :
    ⦃fun t => ⌜t.Unsearched S St⌝⦄ Node.handle from_ m ⦃⇓ _ t => ⌜t.Unsearched S St⌝⦄ := by
  rcases m with ⟨tx, b⟩
  cases b with
  | pingReq _ => exact pingRequest_unsearched
  | pingRsp _ => exact pingAnswer_unsearched
  | joinReq _ _ => exact joinRequest_unsearched
  | joinRsp _ _ _ => exact joinReply_unsearched
  | departureReq _ _ => exact departure_unsearched
  | stabilizeRsp _ => exact stabilizeReply_unsearched
  | stabilizeReq _ => exact stabilizeRequest_unsearched
  | ringStatePing _ => exact ringStatePing_unsearched
  | findSuccessorReq _ _ _ => exact findSuccessor_unsearched
  | findSuccessorRsp _ _ _ => exact foundSuccessor_unsearched
  | _ => simp [Body.kind, Kind.isSearch] at hs

end RingLayer

/-! ### Receiving -/

theorem receive_search_ring {from_ : Address} {b : Bytes} {m : Message}
    (hd : Message.decode b = .ok m) (hs : m.body.kind.isSearch = true) {r : Membership} :
    ⦃fun t => ⌜t.node.ring = r⌝⦄ Node.receive from_ b ⦃⇓ _ t => ⌜t.node.ring = r⌝⦄ := by
  have hh := @handle_search_ring r from_ m hs
  rw [receive_eq hd]
  mvcgen [hh]

theorem receive_ring_unsearched {from_ : Address} {b : Bytes} {m : Message}
    (hd : Message.decode b = .ok m) (hs : m.body.kind.isSearch = false)
    {S : Tracker PendingSearch} {St : List (Bytes × DocSet)} :
    ⦃fun t => ⌜t.Unsearched S St⌝⦄ Node.receive from_ b ⦃⇓ _ t => ⌜t.Unsearched S St⌝⦄ := by
  have hh := @handle_ring_unsearched S St from_ m hs
  rw [receive_eq hd]
  intro t h
  mvcgen [hh]
  exact h.of_same (by simp) (by simp)

/-! ### The one unchecked pop -/

theorem popTerm_eq {rem : List Bytes} (h : rem.isEmpty = false) :
    (DocSet.ofList rem).toList = (Search.popTerm rem).1 :: (Search.popTerm rem).2 := by
  obtain ⟨x, hx⟩ : ∃ x, x ∈ rem := by
    cases rem with
    | nil => simp at h
    | cons x _ => exact ⟨x, List.mem_cons_self⟩
  have hmem : x ∈ (DocSet.ofList rem).toList := DocSet.mem_ofList.2 hx
  unfold Search.popTerm
  split
  · next hl => rw [hl]
  · next hl => simp [hl] at hmem

theorem fetchStep_pops (P : Bytes → DocSet) (key : Bytes) (rem acc : List Bytes) :
    (∃ d, Search.fetchStep P key rem acc = .answer d) ∨
    ∃ next rest acc', (DocSet.ofList rem).toList = next :: rest ∧
      Search.fetchStep P key rem acc = .carry next rest acc' := by
  unfold Search.fetchStep
  dsimp only
  split_ifs with hk hr hstop
  · exact .inl ⟨_, rfl⟩
  · exact .inr ⟨_, _, _, popTerm_eq (by simpa using hr), rfl⟩
  · exact .inl ⟨_, rfl⟩
  · -- the walk goes on only with terms left
    have hr : rem.isEmpty = false := by simp_all
    exact .inr ⟨_, _, _, popTerm_eq hr, rfl⟩

theorem fetch_pops (t : Turn) (tx originator : UInt32) (key : Bytes) (rem acc : List Bytes) :
    (∃ d, (Search.fetch tx originator key rem acc).run t = (Search.reply originator tx d).run t) ∨
    ∃ next rest acc', (DocSet.ofList rem).toList = next :: rest ∧
      (Search.fetch tx originator key rem acc).run t =
        (Search.forward tx originator next rest acc').run t := by
  rw [Search.fetch_run]
  rcases fetchStep_pops t.node.search.store.postings key rem acc with
    ⟨d, hd⟩ | ⟨next, rest, acc', hl, hc⟩
  · exact .inl ⟨d, by rw [hd]⟩
  · exact .inr ⟨next, rest, acc', hl, by rw [hc]⟩

/-- No datagram can corrupt a node. In any state, bytes that do not decode leave the node as
it was but for one more decode error; a decoded store, fetch or fetch answer goes to the
search layer and leaves the ring state as it was; any other decoded message goes to the ring
layer and leaves the searches in flight as they were, adding nothing to the store. And the
one element a handler takes without a check of its own, a fetch's next term, is taken only
from a list that has one. -/
theorem Node.datagram_contained (t : Turn) (from_ : Address) (b : Bytes) :
    ((∃ e, Message.decode b = .error e ∧ ((Node.receive from_ b).run t).2 =
        t.mapMetrics fun m => { m with decodeErrors := m.decodeErrors + 1 }) ∨
      (∃ m, Message.decode b = .ok m ∧
        ((m.body.kind.isSearch = true ∧ ((Node.receive from_ b).run t).2.node.ring = t.node.ring) ∨
          (m.body.kind.isSearch = false ∧
            ((Node.receive from_ b).run t).2.node.search.searches = t.node.search.searches ∧
            ∀ e ∈ ((Node.receive from_ b).run t).2.node.search.store.map.entries,
              e ∈ t.node.search.store.map.entries)))) ∧
    ∀ (tx originator : UInt32) (key : Bytes) (rem acc : List Bytes),
      (∃ d, (Search.fetch tx originator key rem acc).run t = (Search.reply originator tx d).run t) ∨
      ∃ next rest acc', (DocSet.ofList rem).toList = next :: rest ∧
        (Search.fetch tx originator key rem acc).run t =
          (Search.forward tx originator next rest acc').run t := by
  refine ⟨?_, fetch_pops t⟩
  cases hd : Message.decode b with
  | error e => exact .inl ⟨e, rfl, by rw [receive_undecodable hd]⟩
  | ok m =>
    refine .inr ⟨m, rfl, ?_⟩
    cases hs : m.body.kind.isSearch
    · have h := NodeM.run_of_triple (@receive_ring_unsearched from_ b m hd hs _ _)
        (⟨rfl, fun _ he => he⟩ : t.Unsearched t.node.search.searches t.node.search.store.map.entries)
      exact .inr ⟨rfl, h.searches, h.store⟩
    · exact .inl ⟨rfl, NodeM.run_of_triple (@receive_search_ring from_ b m hd hs _) rfl⟩

end ChordSearch
