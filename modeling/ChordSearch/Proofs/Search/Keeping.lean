import Mathlib
import ChordSearch.Proofs.Ring.Pointers
import ChordSearch.Proofs.Index.TermMap
import ChordSearch.Proofs.Search.Placement

/-! # A posting through one turn

A posting `(term, doc)` published at a node leaves the node's index only in a store request
to the term's owner, and a store only in store requests to a new predecessor or, on leaving,
to the successor. A turn keeps the posting (`Turn.Holds`) when its node still holds it or it
has sent it in a store request to an address of `D`, the addresses of the cluster's nodes.

Sending it can fail in two ways the turn does not check: the store request may not be
writable, and the endpoint may be closed. A request is written when its term fits a string
field and its documents are fewer than `2^32`, each fitting a string field: that holds when
every term a node holds fits and its documents come from a `Corpus`. Every handler and
every operator request keeps the posting under these conditions, as long as every node it
is sent to is a node of `R` (`receive_conserves`, `act_conserves`): the pointers of
`Ring.Pointers` say that owners, predecessors and successors are.
-/

namespace ChordSearch

open NodeM Std.Do

set_option mvcgen.warning false

instance (s : Bytes) : Decidable (Codec.Fits s) := inferInstanceAs (Decidable (s.length ≤ 65535))

/-- Documents the wire carries as a set: fewer than `2^32`, each fitting a string field. -/
structure Corpus where
  docs : DocSet
  small : docs.size < 2 ^ 32
  fits : ∀ x ∈ docs.toList, Codec.Fits x

theorem Corpus.exactSet (K : Corpus) {d : DocSet} (h : ∀ x ∈ d.toList, x ∈ K.docs.toList) :
    Codec.ExactSet d.toList :=
  Cluster.exactSet_of_sorted d.sorted
    (lt_of_le_of_lt (List.subperm_of_subset d.nodup h).length_le K.small)
    fun x hx => K.fits x (h x hx)

/-- A store request's term fits a string field and its documents are in the corpus. -/
def Body.StoresWithin (K : Corpus) : Body → Prop
  | .storeReq t d => Codec.Fits t ∧ ∀ x ∈ d, x ∈ K.docs.toList
  | _ => True

namespace TermMap

/-- Every term fits a string field and every document is in the corpus. -/
def Within (K : Corpus) (m : TermMap) : Prop :=
  ∀ e ∈ m.entries, Codec.Fits e.1 ∧ ∀ x ∈ e.2.toList, x ∈ K.docs.toList

instance (K : Corpus) (m : TermMap) : Decidable (m.Within K) :=
  inferInstanceAs (Decidable (∀ e ∈ m.entries, Codec.Fits e.1 ∧ ∀ x ∈ e.2.toList, x ∈ K.docs.toList))

/-- Ascending, with terms and documents the wire carries. -/
def Tidy (K : Corpus) (m : TermMap) : Prop := m.Ascending ∧ m.Within K

variable {K : Corpus} {m : TermMap}

theorem Within.add (h : m.Within K) {t : Bytes} {d : DocSet} (ht : Codec.Fits t)
    (hd : ∀ x ∈ d.toList, x ∈ K.docs.toList) : (m.add t d).Within K := by
  intro e he
  rcases mem_addTo he with he | rfl | ⟨d₀, hd₀, rfl⟩
  · exact h e he
  · exact ⟨ht, hd⟩
  · refine ⟨ht, fun x hx => ?_⟩
    rcases DocSet.mem_union.1 hx with hx | hx
    · exact (h _ hd₀).2 x hx
    · exact hd x hx

theorem Tidy.add (h : m.Tidy K) {t : Bytes} {d : DocSet} (ht : Codec.Fits t)
    (hd : ∀ x ∈ d.toList, x ∈ K.docs.toList) : (m.add t d).Tidy K :=
  ⟨h.1.add, h.2.add ht hd⟩

theorem Tidy.erase (h : m.Tidy K) (t : Bytes) : (m.erase t).Tidy K :=
  ⟨h.1.erase, fun e he => h.2 e (List.mem_of_mem_filter he)⟩

theorem Tidy.partition (h : m.Tidy K) (keep : Bytes → Bool) :
    (m.partition keep).1.Tidy K ∧ (m.partition keep).2.Tidy K := by
  refine ⟨⟨(h.1.partition keep).1, ?_⟩, ⟨(h.1.partition keep).2, ?_⟩⟩ <;>
    · rw [partition_eq]
      exact fun e he => h.2 e (List.mem_of_mem_filter he)

theorem Tidy.merge (h : m.Tidy K) {o : TermMap} (ho : o.Within K) : (m.merge o).Tidy K := by
  refine ⟨h.1.merge o, ?_⟩
  obtain ⟨l⟩ := o
  simp only [TermMap.merge]
  induction l generalizing m with
  | nil => exact h.2
  | cons e l ih =>
    have he := ho e List.mem_cons_self
    exact ih (h.add he.1 he.2) fun e' he' => ho e' (List.mem_cons_of_mem _ he')

theorem tidy_empty : empty.Tidy K := ⟨List.Pairwise.nil, nofun⟩

end TermMap

/-- The index and the store of the node are tidy. -/
def Node.Tidy (K : Corpus) (n : Node) : Prop :=
  n.search.index.map.Tidy K ∧ n.search.store.map.Tidy K

/-- A posting published at a node: its term, one of its documents, and the node. -/
structure Posting where
  publisher : NodeRef
  term : Bytes
  doc : Bytes
  deriving Inhabited

namespace Posting

variable (p : Posting)

/-- The node holds the posting: in its index of postings not yet handed on, if it published
it, or in its store. -/
def KeptBy (n : Node) : Prop :=
  (n.self = p.publisher ∧ n.search.index.map.Holds p.term p.doc) ∨
    n.search.store.map.Holds p.term p.doc

/-- The bytes read as a store request for the posting's term that lists its document. -/
def Carried (data : Bytes) : Prop :=
  ∃ m docs, Message.decode data = .ok m ∧ m.body = .storeReq p.term docs ∧ p.doc ∈ docs

end Posting

namespace Turn

/-- The turn's node holds the posting, or the turn sent it to an address of `D`. -/
def Holds (p : Posting) (D : Address → Prop) (t : Turn) : Prop :=
  p.KeptBy t.node ∨ ∃ x ∈ t.outgoing, D x.1 ∧ p.Carried x.2

/-- What a turn keeps for one posting: its endpoint is open, its node is tidy, every store
request it sent is within the corpus, and the posting is held unless `P`, a fact about the
rest of the cluster, holds. -/
def Conserves (K : Corpus) (p : Posting) (D : Address → Prop) (P : Prop) (t : Turn) : Prop :=
  t.linkOpen = true ∧ t.node.Tidy K ∧
    (∀ x ∈ t.outgoing, ∀ m, Message.decode x.2 = .ok m → m.body.StoresWithin K) ∧
    (t.Holds p D ∨ P)

namespace Conserves

variable {K : Corpus} {p : Posting} {D : Address → Prop} {P : Prop} {t : Turn}

/-! ### Turns that keep the index, the store and what was sent -/

theorem imp (h : t.Conserves K p D P) {Q : Prop} (hPQ : P → Q) : t.Conserves K p D Q :=
  ⟨h.1, h.2.1, h.2.2.1, h.2.2.2.imp_right hPQ⟩

theorem of_same (h : t.Conserves K p D P) {t' : Turn} (hl : t'.linkOpen = t.linkOpen)
    (hs : t'.node.self = t.node.self) (hi : t'.node.search.index = t.node.search.index)
    (hst : t'.node.search.store = t.node.search.store) (ho : t'.outgoing = t.outgoing) :
    t'.Conserves K p D P := by
  unfold Conserves Holds Posting.KeptBy Node.Tidy
  rw [hl, hs, hi, hst, ho]
  exact h

theorem noted (h : t.Conserves K p D P) (k : EventKind) (s : String) (b : Bytes) :
    (t.noted k s b).Conserves K p D P :=
  h.of_same (by simp) (by simp) (by simp) (by simp) (by simp)

theorem mapRing (h : t.Conserves K p D P) (f : Membership → Membership) :
    (t.mapRing f).Conserves K p D P := h

theorem mapMetrics (h : t.Conserves K p D P) (f : Metrics → Metrics) :
    (t.mapMetrics f).Conserves K p D P := h

theorem drawTx (h : t.Conserves K p D P) : t.drawTx.Conserves K p D P := h

theorem mapSearch (h : t.Conserves K p D P) {f : SearchState → SearchState}
    (hi : (f t.node.search).index = t.node.search.index)
    (hs : (f t.node.search).store = t.node.search.store) : (t.mapSearch f).Conserves K p D P :=
  h.of_same rfl rfl hi hs rfl

theorem successorSet (h : t.Conserves K p D P) (n : NodeRef) :
    (t.successorSet n).Conserves K p D P :=
  h.of_same (by simp) (by simp) (by simp) (by simp) (by simp)

theorem pingFailed (h : t.Conserves K p D P) (q : PingRequest) :
    (t.pingFailed q).Conserves K p D P :=
  (h.mapMetrics _).noted _ _ _

theorem pingsFailed (h : t.Conserves K p D P) (ps : List (Pending PingRequest)) :
    (t.pingsFailed ps).Conserves K p D P := by
  induction ps generalizing t with
  | nil => exact h
  | cons q ps ih => exact ih (h.pingFailed q.value)

/-! ### Sending -/

theorem transmitted (h : t.Conserves K p D P) {d : Address} {m : Message}
    (hm : m.Carries (Body.StoresWithin K)) : (t.transmitted d m).Conserves K p D P := by
  obtain ⟨hl, ht, hs, hh⟩ := h
  have hsub : ∀ x ∈ t.outgoing, x ∈ (t.transmitted d m).outgoing := by
    intro x hx
    rw [transmitted_outgoing]
    cases m.encode with
    | error _ => exact hx
    | ok data =>
      simp only [hl, ↓reduceIte]
      exact Array.mem_push_of_mem _ hx
  have hnew : ∀ x ∈ (t.transmitted d m).outgoing,
      x ∈ t.outgoing ∨ ∃ data, m.encode = .ok data ∧ x = (d, data) := by
    intro x hx
    rw [transmitted_outgoing] at hx
    cases he : m.encode with
    | error _ => rw [he] at hx; exact .inl hx
    | ok data =>
      simp only [he, hl, ↓reduceIte] at hx
      rcases Array.mem_push.1 hx with hx | rfl
      · exact .inl hx
      · exact .inr ⟨data, rfl, rfl⟩
  refine ⟨by simpa using hl, by simpa [Node.Tidy] using ht, ?_, ?_⟩
  · intro x hx m' hd
    rcases hnew x hx with hx | ⟨data, he, rfl⟩
    · exact hs x hx m' hd
    · exact hm data m' he hd
  · rcases hh with (hk | ⟨x, hx, hD, hc⟩) | hP
    · exact .inl (.inl (by simpa [Posting.KeptBy] using hk))
    · exact .inl (.inr ⟨x, hsub x hx, hD, hc⟩)
    · exact .inr hP

theorem transmitted_free (h : t.Conserves K p D P) {d : Address} {m : Message}
    (hk : m.body.kind ≠ .storeReq) : (t.transmitted d m).Conserves K p D P :=
  h.transmitted (Message.Carries.of_kind fun b hb => by
    cases b with
    | storeReq _ _ => exact absurd hb.symm hk
    | _ => trivial)

theorem sent_free (h : t.Conserves K p D P) {d : Address} {tx : UInt32} {b : Body}
    (hk : b.kind ≠ .storeReq) : (t.sent d tx b).Conserves K p D P := by
  unfold Turn.sent
  split
  · exact h.transmitted_free hk
  · exact h

theorem storeSent (h : t.Conserves K p D P) (d : Address) {e : Bytes × DocSet}
    (he : Codec.Fits e.1 ∧ ∀ x ∈ e.2.toList, x ∈ K.docs.toList) :
    (t.storeSent d e).Conserves K p D P :=
  h.drawTx.transmitted (Message.Carries.of_exact ⟨he.1, K.exactSet he.2⟩ he)

theorem storeSent_carrying (h : t.Conserves K p D P) {d : Address} {e : Bytes × DocSet}
    (he : Codec.Fits e.1 ∧ ∀ x ∈ e.2.toList, x ∈ K.docs.toList) (hd : D d)
    (hp : e.1 = p.term ∧ p.doc ∈ e.2.toList) (Q : Prop) :
    (t.storeSent d e).Conserves K p D Q := by
  obtain ⟨w, hw, hdec⟩ := Message.decode_encode
    (m := ⟨t.node.lastTx + 1, .storeReq e.1 e.2.toList⟩) ⟨he.1, K.exactSet he.2⟩
  have hs := h.storeSent d he
  refine ⟨hs.1, hs.2.1, hs.2.2.1, .inl (.inr ⟨(d, w), ?_, hd, _, _, hdec, by rw [hp.1], hp.2⟩)⟩
  simp [Turn.storeSent, transmitted_outgoing, hw, h.1]

theorem storesSent (h : t.Conserves K p D P) (d : Address) {es : List (Bytes × DocSet)}
    (hes : ∀ e ∈ es, Codec.Fits e.1 ∧ ∀ x ∈ e.2.toList, x ∈ K.docs.toList) :
    (t.storesSent d es).Conserves K p D P := by
  induction es generalizing t with
  | nil => exact h
  | cons e es ih =>
    exact ih (h.storeSent d (hes e List.mem_cons_self))
      fun e' he' => hes e' (List.mem_cons_of_mem _ he')

theorem storesSent_carrying (h : t.Conserves K p D P) {d : Address} {es : List (Bytes × DocSet)}
    (hes : ∀ e ∈ es, Codec.Fits e.1 ∧ ∀ x ∈ e.2.toList, x ∈ K.docs.toList) (hd : D d)
    (hp : ∃ e ∈ es, e.1 = p.term ∧ p.doc ∈ e.2.toList) (Q : Prop) :
    (t.storesSent d es).Conserves K p D Q := by
  induction es generalizing t P with
  | nil => simp at hp
  | cons e es ih =>
    have hrest : ∀ e' ∈ es, Codec.Fits e'.1 ∧ ∀ x ∈ e'.2.toList, x ∈ K.docs.toList :=
      fun e' he' => hes e' (List.mem_cons_of_mem _ he')
    by_cases he : e.1 = p.term ∧ p.doc ∈ e.2.toList
    · exact (h.storeSent_carrying (hes e List.mem_cons_self) hd he Q).storesSent d hrest
    · obtain ⟨e', he', hp'⟩ := hp
      rcases List.mem_cons.1 he' with rfl | he'
      · exact absurd hp' he
      · exact ih (h.storeSent d (hes e List.mem_cons_self)) hrest ⟨e', he', hp'⟩

/-! ### Rehoming the store -/

theorem rehomed (h : t.Conserves K p D P) {kept moved : TermMap}
    (hsplit : t.node.search.store.map.Holds p.term p.doc →
      kept.Holds p.term p.doc ∨ moved.Holds p.term p.doc)
    (hk : kept.Tidy K) (hm : moved.Tidy K) {a : Address} (ha : D a) :
    ((t.mapSearch fun s => { s with store := ⟨kept⟩ }).storesSent a moved.entries).Conserves
      K p D P := by
  obtain ⟨hl, ⟨hti, -⟩, hs, hh⟩ := h
  have ht' : (t.mapSearch fun s => { s with store := ⟨kept⟩ }).Conserves K p D P ∨
      moved.Holds p.term p.doc := by
    rcases hh with ((hk' | hst) | hx) | hP
    · exact .inl ⟨hl, ⟨hti, hk⟩, hs, .inl (.inl (.inl hk'))⟩
    · rcases hsplit hst with hst | hst
      · exact .inl ⟨hl, ⟨hti, hk⟩, hs, .inl (.inl (.inr hst))⟩
      · exact .inr hst
    · exact .inl ⟨hl, ⟨hti, hk⟩, hs, .inl (.inr hx)⟩
    · exact .inl ⟨hl, ⟨hti, hk⟩, hs, .inr hP⟩
  have hes : ∀ e ∈ moved.entries, Codec.Fits e.1 ∧ ∀ x ∈ e.2.toList, x ∈ K.docs.toList :=
    hm.2
  rcases ht' with ht' | ⟨d, hd, hx⟩
  · exact ht'.storesSent a hes
  · -- the posting leaves with `moved`
    have ht'' : (t.mapSearch fun s => { s with store := ⟨kept⟩ }).Conserves K p D True :=
      ⟨hl, ⟨hti, hk⟩, hs, .inr trivial⟩
    exact ht''.storesSent_carrying hes ha ⟨(p.term, d), hd, rfl, hx⟩ P

theorem handedOver (h : t.Conserves K p D P) {n : NodeRef} (hn : n.isUnset = false → D n.addr) :
    (t.handedOver n).Conserves K p D P := by
  unfold Turn.handedOver
  split
  · exact h
  · next hset =>
    have hsplit := h.2.1.2.partition fun x => Arc.owns n.id (RingId.hash x) t.node.self.id
    have hrh := h.rehomed (TermMap.Holds.partition · _) hsplit.1 hsplit.2
      (hn (by simpa using hset))
    rw [Store.extractNotOwned_eq]
    dsimp only
    split
    · next hempty =>
      simp only [TermMap.isEmpty, List.isEmpty_iff] at hempty
      rw [hempty] at hrh
      exact hrh
    · exact hrh

theorem predecessorSet (h : t.Conserves K p D P) {n : NodeRef}
    (hn : n.isUnset = false → D n.addr) : (t.predecessorSet n).Conserves K p D P := by
  unfold Turn.predecessorSet
  split
  · exact h
  · exact ((h.mapRing _).noted _ _ _).handedOver hn

theorem handedAll (h : t.Conserves K p D P) {n : NodeRef}
    (hn : n.isUnset = false → n ≠ t.node.self → D n.addr) :
    (t.handedAll n).Conserves K p D P := by
  unfold Turn.handedAll
  split
  · exact h
  · next hset =>
    have hset : n.isUnset = false ∧ n ≠ t.node.self := by simpa using hset
    exact h.rehomed (fun hs => .inr hs) TermMap.tidy_empty h.2.1.2 (hn hset.1 hset.2)

/-! ### The search state -/

theorem stored (h : t.Conserves K p D P) {term : Bytes} {docs : List Bytes}
    (hw : Codec.Fits term ∧ ∀ x ∈ docs, x ∈ K.docs.toList) :
    (t.mapSearch fun s => { s with store := s.store.add term docs }).Conserves K p D P := by
  obtain ⟨hl, ⟨hi, hst⟩, hs, hh⟩ := h
  refine ⟨hl, ⟨hi, hst.add hw.1 fun x hx => hw.2 x (DocSet.mem_ofList.1 hx)⟩, hs, ?_⟩
  rcases hh with ((hk | hk) | hx) | hP
  · exact .inl (.inl (.inl hk))
  · exact .inl (.inl (.inr ((TermMap.holds_add _).2 (.inl hk))))
  · exact .inl (.inr hx)
  · exact .inr hP

theorem stored_carrying (h : t.Conserves K p D P) {term : Bytes} {docs : List Bytes}
    (hw : Codec.Fits term ∧ ∀ x ∈ docs, x ∈ K.docs.toList)
    (hp : term = p.term ∧ p.doc ∈ docs) (Q : Prop) :
    (t.mapSearch fun s => { s with store := s.store.add term docs }).Conserves K p D Q := by
  obtain ⟨hl, ht, hs, -⟩ := h.stored hw
  refine ⟨hl, ht, hs, .inl (.inl (.inr ?_))⟩
  exact (TermMap.holds_add _).2 (.inr ⟨hp.1.symm, DocSet.mem_ofList.2 hp.2⟩)

theorem handedOn (h : t.Conserves K p D P) {term : Bytes} {docs : DocSet}
    (hf : t.node.search.index.map.find? term = some docs) {a : Address} (ha : D a) :
    ((t.mapSearch fun s => { s with index := ⟨s.index.map.erase term⟩ }).storeSent a
      (term, docs)).Conserves K p D P := by
  obtain ⟨hl, ⟨hi, hst⟩, hs, hh⟩ := h
  have hw : Codec.Fits term ∧ ∀ x ∈ docs.toList, x ∈ K.docs.toList :=
    hi.2 _ (TermMap.mem_of_find? hf)
  have he : (t.mapSearch fun s => { s with index := ⟨s.index.map.erase term⟩ }).Conserves K p D
      (P ∨ (t.node.self = p.publisher ∧ term = p.term ∧ p.doc ∈ docs.toList)) := by
    refine ⟨hl, ⟨hi.erase term, hst⟩, hs, ?_⟩
    rcases hh with ((⟨hself, hk⟩ | hk) | hx) | hP
    · by_cases ht : p.term = term
      · -- the posting leaves the index with the term
        subst ht
        exact .inr (.inr ⟨hself, rfl, (TermMap.holds_of_find? hi.1 hf).1 hk⟩)
      · exact .inl (.inl (.inl ⟨hself, (TermMap.holds_erase _).2 ⟨ht, hk⟩⟩))
    · exact .inl (.inl (.inr hk))
    · exact .inl (.inr hx)
    · exact .inr (.inl hP)
  by_cases hx : t.node.self = p.publisher ∧ term = p.term ∧ p.doc ∈ docs.toList
  · exact he.storeSent_carrying hw ha hx.2 P
  · exact (he.imp fun h' => h'.resolve_right hx).storeSent a hw

theorem merged (h : t.Conserves K p D P) {ix : Index} (hix : ix.map.Within K) :
    (t.mapSearch fun s => { s with index := s.index.merge ix }).Conserves K p D P := by
  obtain ⟨hl, ⟨hi, hst⟩, hs, hh⟩ := h
  refine ⟨hl, ⟨hi.merge hix, hst⟩, hs, ?_⟩
  rcases hh with ((⟨hself, hk⟩ | hk) | hx) | hP
  · exact .inl (.inl (.inl ⟨hself, (TermMap.holds_merge _ _).2 (.inl hk)⟩))
  · exact .inl (.inl (.inr hk))
  · exact .inl (.inr hx)
  · exact .inr hP

end Conserves

end Turn

/-! ### The handlers -/

section Handlers

variable {K : Corpus} {p : Posting} {D : Address → Prop} {P : Prop}

open Turn.Conserves

theorem requestFinger_conserves {f : Finger} :
    ⦃fun t => ⌜t.Conserves K p D P⌝⦄ Ring.requestFinger f ⦃⇓ _ t => ⌜t.Conserves K p D P⌝⦄ := by
  intro t h
  mvcgen [Ring.requestFinger]
  exact h.drawTx.sent_free (by simp [Body.kind])

theorem initFinger_conserves {i : Nat} :
    ⦃fun t => ⌜t.Conserves K p D P⌝⦄ Ring.initFinger i ⦃⇓ _ t => ⌜t.Conserves K p D P⌝⦄ := by
  intro t h
  mvcgen [Ring.initFinger, requestFinger_conserves]

theorem fixFinger_conserves {i : Nat} :
    ⦃fun t => ⌜t.Conserves K p D P⌝⦄ Ring.fixFinger i ⦃⇓ _ t => ⌜t.Conserves K p D P⌝⦄ := by
  intro t h
  mvcgen [Ring.fixFinger, requestFinger_conserves]

theorem stabilize_conserves :
    ⦃fun t => ⌜t.Conserves K p D P⌝⦄ Ring.stabilize ⦃⇓ _ t => ⌜t.Conserves K p D P⌝⦄ := by
  intro t h
  mvcgen [Ring.stabilize, fixFinger_conserves]
  exact h.drawTx.sent_free (by simp [Body.kind])

theorem findSuccessor_conserves {tx : UInt32} {n : NodeRef} {start : RingId} {index : UInt32} :
    ⦃fun t => ⌜t.Conserves K p D P⌝⦄ Ring.findSuccessor tx n start index
    ⦃⇓ _ t => ⌜t.Conserves K p D P⌝⦄ := by
  intro t h
  mvcgen [Ring.findSuccessor]
  all_goals exact h.sent_free (by simp [Body.kind])

theorem resolve_conserves {key : RingId} {tx : UInt32} :
    ⦃fun t => ⌜t.Conserves K p D P⌝⦄ Ring.resolve key tx ⦃⇓ _ t => ⌜t.Conserves K p D P⌝⦄ := by
  intro t h
  mvcgen [Ring.resolve, findSuccessor_conserves]

theorem lookupResolved_conserves {owner : NodeRef} {key : RingId} {tx : UInt32}
    (ho : D owner.addr) :
    ⦃fun t => ⌜t.Conserves K p D P⌝⦄ Search.lookupResolved owner key tx
    ⦃⇓ _ t => ⌜t.Conserves K p D P⌝⦄ := by
  intro t h
  mvcgen [Search.lookupResolved]
  · -- a store lookup: the index's postings of the term go to the owner
    exact (h.mapSearch rfl rfl).handedOn ‹_› ho
  · exact (h.mapSearch rfl rfl).transmitted_free (by simp [Body.kind])
  · exact (h.mapSearch rfl rfl).noted _ _ _

theorem foundSuccessor_conserves {tx : UInt32} {owner : NodeRef} {start : RingId}
    {index : UInt32} (ho : D owner.addr) :
    ⦃fun t => ⌜t.Conserves K p D P⌝⦄ Ring.foundSuccessor tx owner start index
    ⦃⇓ _ t => ⌜t.Conserves K p D P⌝⦄ := by
  intro t h
  have hl := @lookupResolved_conserves K p D P owner start tx ho
  mvcgen [Ring.foundSuccessor, hl, initFinger_conserves, fixFinger_conserves]

theorem stabilizeReply_conserves {q : NodeRef} :
    ⦃fun t => ⌜t.Conserves K p D P⌝⦄ Ring.stabilizeReply q ⦃⇓ _ t => ⌜t.Conserves K p D P⌝⦄ := by
  intro t h
  mvcgen [Ring.stabilizeReply]
  exact h.successorSet _

theorem joinRequest_conserves {tx : UInt32} {landmark requester : NodeRef} :
    ⦃fun t => ⌜t.Conserves K p D P⌝⦄ Ring.joinRequest tx landmark requester
    ⦃⇓ _ t => ⌜t.Conserves K p D P⌝⦄ := by
  intro t h
  mvcgen [Ring.joinRequest]
  all_goals exact h.sent_free (by simp [Body.kind])

theorem joinReply_conserves {tx : UInt32} {requester landmark successor : NodeRef} :
    ⦃fun t => ⌜t.Conserves K p D P⌝⦄ Ring.joinReply tx requester landmark successor
    ⦃⇓ _ t => ⌜t.Conserves K p D P⌝⦄ := by
  intro t h
  mvcgen [Ring.joinReply, initFinger_conserves]
  · exact h.sent_free (by simp [Body.kind])
  · exact ((h.mapRing _).successorSet _).noted _ _ _
  · exact h.sent_free (by simp [Body.kind])

theorem pingRequest_conserves {from_ : Address} {tx : UInt32} {message : Bytes} :
    ⦃fun t => ⌜t.Conserves K p D P⌝⦄ Ring.pingRequest from_ tx message
    ⦃⇓ _ t => ⌜t.Conserves K p D P⌝⦄ := by
  intro t h
  mvcgen [Ring.pingRequest]
  exact (h.noted _ _ _).sent_free (by simp [Body.kind])

theorem pingAnswer_conserves {tx : UInt32} :
    ⦃fun t => ⌜t.Conserves K p D P⌝⦄ Ring.pingAnswer tx ⦃⇓ _ t => ⌜t.Conserves K p D P⌝⦄ := by
  intro t h
  mvcgen [Ring.pingAnswer, Ring.pingSucceeded]
  exact ((h.mapRing _).mapMetrics _).noted _ _ _

theorem ringStatePing_conserves {tx : UInt32} {originator : NodeRef} :
    ⦃fun t => ⌜t.Conserves K p D P⌝⦄ Ring.ringStatePing tx originator
    ⦃⇓ _ t => ⌜t.Conserves K p D P⌝⦄ := by
  intro t h
  mvcgen [Ring.ringStatePing]
  exact h.sent_free (by simp [Body.kind])

theorem keep_conserves {term : Bytes} {docs : List Bytes}
    (hw : Codec.Fits term ∧ ∀ x ∈ docs, x ∈ K.docs.toList) :
    ⦃fun t => ⌜t.Conserves K p D P⌝⦄ Search.keep term docs ⦃⇓ _ t => ⌜t.Conserves K p D P⌝⦄ := by
  intro t h
  mvcgen [Search.keep]
  exact h.stored hw

theorem lookupFor_conserves {errand : Errand} {term : Bytes} :
    ⦃fun t => ⌜t.Conserves K p D P⌝⦄ Search.lookupFor errand term
    ⦃⇓ _ t => ⌜t.Conserves K p D P⌝⦄ := by
  intro t h
  mvcgen [Search.lookupFor, resolve_conserves]

theorem fetch_conserves {tx originator : UInt32} {key : Bytes} {remaining accumulated : List Bytes} :
    ⦃fun t => ⌜t.Conserves K p D P⌝⦄ Search.fetch tx originator key remaining accumulated
    ⦃⇓ _ t => ⌜t.Conserves K p D P⌝⦄ := by
  intro t h
  mvcgen [Search.fetch, Search.reply, Search.forward, lookupFor_conserves]
  all_goals exact h.transmitted_free (by simp [Body.kind])

theorem fetchReply_conserves {tx : UInt32} {docs : List Bytes} :
    ⦃fun t => ⌜t.Conserves K p D P⌝⦄ Search.fetchReply tx docs ⦃⇓ _ t => ⌜t.Conserves K p D P⌝⦄ := by
  intro t h
  mvcgen [Search.fetchReply]
  exact (((h.mapSearch rfl rfl).mapMetrics _).noted _ _ _)

variable {R : NodeRef → Prop} (hD : ∀ r, R r → D r.addr)

include hD in
theorem stabilizeRequest_conserves {tx : UInt32} {sender : NodeRef} (hs : RefIn R sender) :
    ⦃fun t => ⌜t.Conserves K p D P⌝⦄ Ring.stabilizeRequest tx sender
    ⦃⇓ _ t => ⌜t.Conserves K p D P⌝⦄ := by
  intro t h
  mvcgen [Ring.stabilizeRequest]
  · -- the sender is adopted and handed what it owns
    exact (h.predecessorSet fun hset => hD _ (hs.of_isUnset hset)).sent_free (by simp [Body.kind])
  · exact h.sent_free (by simp [Body.kind])

include hD in
theorem departure_conserves {sender conn : NodeRef} (hc : R conn) :
    ⦃fun t => ⌜t.Conserves K p D P⌝⦄ Ring.departure sender conn ⦃⇓ _ t => ⌜t.Conserves K p D P⌝⦄ := by
  intro t h
  mvcgen [Ring.departure]
  · exact ((h.predecessorSet fun _ => hD _ hc).successorSet _).noted _ _ _
  · exact (h.predecessorSet fun _ => hD _ hc).noted _ _ _
  · exact (h.successorSet _).noted _ _ _
  · exact h.noted _ _ _

include hD in
theorem handle_conserves {from_ : Address} {m : Message} (hm : m.body.PointersIn R)
    (hw : m.body.StoresWithin K) :
    ⦃fun t => ⌜t.Conserves K p D P⌝⦄ Node.handle from_ m ⦃⇓ _ t => ⌜t.Conserves K p D P⌝⦄ := by
  rcases m with ⟨tx, b⟩
  cases b with
  | pingReq _ => exact pingRequest_conserves
  | pingRsp _ => exact pingAnswer_conserves
  | joinReq _ _ => exact joinRequest_conserves
  | joinRsp _ _ _ => exact joinReply_conserves
  | departureReq _ _ => exact departure_conserves hD hm
  | stabilizeRsp _ => exact stabilizeReply_conserves
  | stabilizeReq _ => exact stabilizeRequest_conserves hD hm
  | ringStatePing _ => exact ringStatePing_conserves
  | findSuccessorReq _ _ _ => exact findSuccessor_conserves
  | findSuccessorRsp _ _ _ => exact foundSuccessor_conserves (hD _ hm)
  | storeReq _ _ => exact keep_conserves hw
  | fetchReq _ _ _ _ => exact fetch_conserves
  | fetchRsp _ => exact fetchReply_conserves

include hD in
theorem receive_conserves {from_ : Address} {data : Bytes}
    (hd : ∀ m, Message.decode data = .ok m → m.body.PointersIn R ∧ m.body.StoresWithin K) :
    ⦃fun t => ⌜t.Conserves K p D P⌝⦄ Node.receive from_ data ⦃⇓ _ t => ⌜t.Conserves K p D P⌝⦄ := by
  intro t h
  unfold Node.receive
  split
  · mvcgen
  · next m hdec =>
    have hh := @handle_conserves K p D P R hD from_ m (hd m hdec).1 (hd m hdec).2
    mvcgen [hh]

theorem receive_carrying {from_ : Address} {data : Bytes} (hc : p.Carried data)
    (hw : ∀ m, Message.decode data = .ok m → m.body.StoresWithin K) (Q : Prop) :
    ⦃fun t => ⌜t.Conserves K p D P⌝⦄ Node.receive from_ data ⦃⇓ _ t => ⌜t.Conserves K p D Q⌝⦄ := by
  obtain ⟨m, docs, hdec, hb, hx⟩ := hc
  have hw' : Codec.Fits p.term ∧ ∀ x ∈ docs, x ∈ K.docs.toList := by
    simpa [hb, Body.StoresWithin] using hw m hdec
  intro t h
  unfold Node.receive
  rw [hdec]
  rcases m with ⟨tx, b⟩
  simp only at hb
  subst hb
  mvcgen [Node.handle, Search.keep]
  exact (h.mapMetrics _).stored_carrying hw' ⟨rfl, hx⟩ Q

/-! ### Operator requests -/

theorem join_conserves {landmark : NodeRef} :
    ⦃fun t => ⌜D t.node.self.addr ∧ t.Conserves K p D P⌝⦄ Ring.join landmark
    ⦃⇓ _ t => ⌜t.Conserves K p D P⌝⦄ := by
  intro t ⟨hself, h⟩
  mvcgen [Ring.join, Ring.bootstrap]
  · -- a ring of one: the node hands itself what it does not own
    exact ((((h.mapRing _).successorSet _).predecessorSet fun _ => by simpa using hself).mapRing
      _).noted _ _ _
  · exact (h.mapRing _).drawTx.sent_free (by simp [Body.kind])

include hD in
theorem leave_conserves :
    ⦃fun t => ⌜t.PointersIn R ∧ t.Conserves K p D P⌝⦄ Ring.leave
    ⦃⇓ _ t => ⌜t.Conserves K p D P⌝⦄ := by
  intro t ⟨hp, h⟩
  have hall : (t.handedAll t.node.ring.successor).Conserves K p D P := by
    refine h.handedAll fun hset hne => ?_
    rcases hp.2.1.1 with hu | hw
    · simp [hu, NodeRef.isUnset, NodeRef.unset, NodeRef.unsetWith, NodeRef.make,
        Address.isSet] at hset
    · rcases hw with hr | ⟨he, -⟩
      · exact hD _ hr
      · exact absurd he hne
  mvcgen [Ring.leave]
  · exact ((hall.drawTx.sent_free (by simp [Body.kind])).drawTx.sent_free
      (by simp [Body.kind]) |>.mapRing _).noted _ _ _
  · exact ((hall.drawTx.sent_free (by simp [Body.kind])).mapRing _).noted _ _ _
  · exact (hall.mapRing _).noted _ _ _

theorem tick_conserves :
    ⦃fun t => ⌜t.Conserves K p D P⌝⦄ Node.tick ⦃⇓ _ t => ⌜t.Conserves K p D P⌝⦄ := by
  mvcgen [Node.tick, stabilize_conserves]

theorem sendPing_conserves {dest : NodeRef} {message : Bytes} :
    ⦃fun t => ⌜t.Conserves K p D P⌝⦄ Ring.sendPing dest message ⦃⇓ _ t => ⌜t.Conserves K p D P⌝⦄ := by
  intro t h
  mvcgen [Ring.sendPing]
  · exact h.drawTx.pingFailed _
  · exact (h.drawTx.mapRing _).sent_free (by simp [Body.kind])

theorem auditPings_conserves :
    ⦃fun t => ⌜t.Conserves K p D P⌝⦄ Ring.auditPings ⦃⇓ _ t => ⌜t.Conserves K p D P⌝⦄ := by
  intro t h
  mvcgen [Ring.auditPings]
  exact (h.mapRing _).pingsFailed _

theorem ringState_conserves :
    ⦃fun t => ⌜t.Conserves K p D P⌝⦄ Ring.ringState ⦃⇓ _ t => ⌜t.Conserves K p D P⌝⦄ := by
  intro t h
  mvcgen [Ring.ringState]
  exact h.drawTx.sent_free (by simp [Body.kind])

theorem lookup_conserves {term : Bytes} :
    ⦃fun t => ⌜t.Conserves K p D P⌝⦄ Search.lookup term ⦃⇓ _ t => ⌜t.Conserves K p D P⌝⦄ := by
  mvcgen [Search.lookup, resolve_conserves]

theorem query_conserves {via : NodeRef} {terms : List Bytes} :
    ⦃fun t => ⌜t.Conserves K p D P⌝⦄ Search.query via terms ⦃⇓ _ t => ⌜t.Conserves K p D P⌝⦄ := by
  intro t h
  mvcgen [Search.query]
  exact (h.drawTx.mapSearch rfl rfl).transmitted_free (by simp [Body.kind])

theorem publish_conserves {ix : Index} (hix : ix.map.Within K) :
    ⦃fun t => ⌜t.Conserves K p D P ∨ (t.Conserves K p D True ∧ t.node.self = p.publisher ∧
      ix.map.Holds p.term p.doc)⌝⦄ Search.publish ix ⦃⇓ _ t => ⌜t.Conserves K p D P⌝⦄ := by
  intro t h
  have hm : (t.mapSearch fun s => { s with index := s.index.merge ix }).Conserves K p D P := by
    rcases h with h | ⟨h, hself, hk⟩
    · exact h.merged hix
    · obtain ⟨hl, ht, hs, -⟩ := h.merged hix
      exact ⟨hl, ht, hs, .inl (.inl (.inl ⟨hself, (TermMap.holds_merge _ _).2 (.inr hk)⟩))⟩
  mvcgen [Search.publish, lookupFor_conserves] invariants
  · ⇓ _ t => ⌜t.Conserves K p D P⌝

include hD in
theorem act_conserves {op : Op} (hop : ∀ ix, op = .publish ix → ix.map.Within K) :
    ⦃fun t => ⌜t.PointersIn R ∧ D t.node.self.addr ∧ t.Conserves K p D P⌝⦄ op.act
    ⦃⇓ _ t => ⌜t.Conserves K p D P⌝⦄ := by
  intro t ⟨hp, hself, h⟩
  cases op with
  | join _ => mvcgen [Op.act, join_conserves]
  | leave =>
    have hl := @leave_conserves K p D P R hD
    mvcgen [Op.act, hl]
  | stabilize => mvcgen [Op.act, tick_conserves]
  | ping _ _ => mvcgen [Op.act, sendPing_conserves]
  | auditPings => mvcgen [Op.act, auditPings_conserves]
  | ringState => mvcgen [Op.act, ringState_conserves]
  | resolve _ _ => mvcgen [Op.act, resolve_conserves]
  | lookup _ => mvcgen [Op.act, lookup_conserves]
  | publish ix =>
    have hpub := @publish_conserves K p D P ix (hop ix rfl)
    mvcgen [Op.act, hpub]
    exact .inl h
  | search _ _ => mvcgen [Op.act, query_conserves]

theorem publish_holds {ix : Index} (hix : ix.map.Within K) (hk : ix.map.Holds p.term p.doc) :
    ⦃fun t => ⌜t.Conserves K p D True ∧ t.node.self = p.publisher⌝⦄ (Op.publish ix).act
    ⦃⇓ _ t => ⌜t.Conserves K p D P⌝⦄ := by
  intro t ⟨h, hself⟩
  have hpub := @publish_conserves K p D P ix hix
  mvcgen [Op.act, hpub]
  exact .inr ⟨h, hself, hk⟩

end Handlers

end ChordSearch
