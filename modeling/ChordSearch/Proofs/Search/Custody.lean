import ChordSearch.Proofs.Ring.Dangling
import ChordSearch.Proofs.Search.Keeping

/-! # No published posting is lost

A posting `(term, doc)` of an index published at a member `n` is, at every later point of a
run, in `n`'s index, in some member's store, or listed by a store request for the term that
is queued for a member (`posting_never_lost`).

The posting is held by the cluster (`Cluster.Holds`) under an invariant of runs, `Custody`:
the members point only at members (`Ring.Dangling`), a datagram to a member reaches it
(`Reliable`), and every index, store and queued store request is within a `Corpus`, so that
every store request can be written (`Tidy`). In a step, the member that takes a turn keeps
the posting by `act_conserves` or `receive_conserves`, told that the rest of the cluster
holds it when it does not hold it itself (`HoldsBesides`).

Each hypothesis rules out one way of losing a posting: a store request that cannot be
written, one that is dropped at a closed or cut off endpoint, and one sent to an address of
no member. The last is what a member that leaves while its predecessor is unset causes: the
node that pointed at it may be left with an unset successor, and resolves owners to the
unset reference.
-/

namespace ChordSearch

namespace Cluster

/-- The addresses of the members. -/
def Addresses (c : Cluster) (a : Address) : Prop := ∃ r, c.Members r ∧ r.addr = a

theorem Addresses.of_selves {a b : Cluster}
    (h : a.members.toList.map (·.self) = b.members.toList.map (·.self)) {x : Address}
    (hx : a.Addresses x) : b.Addresses x :=
  let ⟨r, hr, he⟩ := hx
  ⟨r, Members.of_selves h hr, he⟩

/-! ### Datagrams to members reach them -/

/-- Nothing is cut off and every member's endpoint is open. -/
structure Reliable (c : Cluster) : Prop where
  uncut : c.cut = []
  opened : ∀ n ∈ c.members, c.linkOpen n.self.addr = true

theorem Reliable.handlerOf_isSome {c : Cluster} (h : c.Reliable) {a : Address}
    (ha : c.Addresses a) : (c.handlerOf a).isSome := by
  obtain ⟨r, ⟨n, hn, rfl⟩, rfl⟩ := ha
  obtain ⟨i, hi⟩ := Array.mem_iff_getElem?.1 hn
  exact Cluster.handlerOf_isSome (h.opened n hn) hi rfl

section Steps

variable {allowed : Cluster → Nat → Op → Prop} {c c' : Cluster}

theorem Step.frame (hs : Step allowed c c') : c'.cut = c.cut ∧ c'.endpoints = c.endpoints := by
  rcases hs.cases with rfl | ⟨i, n, op, -, hi, rfl⟩ | ⟨k, d, -, ⟨rfl, -⟩ | ⟨j, n, -, hj, rfl⟩⟩ <;>
    exact ⟨rfl, rfl⟩

theorem Step.reliable (hs : Step allowed c c') (h : c.Reliable) : c'.Reliable := by
  obtain ⟨hcut, hend⟩ := hs.frame
  have hopen : c'.linkOpen = c.linkOpen := by
    funext a
    simp only [linkOpen, hend]
  refine ⟨hcut ▸ h.uncut, fun m hm => ?_⟩
  obtain ⟨n, hn, he⟩ := Members.of_selves hs.selves ⟨m, hm, rfl⟩
  rw [hopen, ← he]
  exact h.opened n hn

end Steps

/-! ### Tidy nodes and store requests -/

/-- Every member's index and store are tidy, and every queued store request is within the
corpus. -/
structure Tidy (K : Corpus) (c : Cluster) : Prop where
  nodes : ∀ n ∈ c.members, n.Tidy K
  requests : ∀ d ∈ c.queue.toList, ∀ m, Message.decode d.data = .ok m → m.body.StoresWithin K

namespace Tidy

variable {K : Corpus} {c : Cluster}

theorem taken (h : c.Tidy K) (k : Nat) (d : Datagram) : (c.taken k d).Tidy K :=
  ⟨h.nodes, fun d' hd' => by
    rw [taken_queue] at hd'
    exact h.requests d' (List.mem_of_mem_eraseIdx hd')⟩

theorem startTurn (h : c.Tidy K) {n : Node} (hn : n ∈ c.members) {c' : Cluster}
    (hopen : c'.linkOpen n.self.addr = true) {p : Posting} {D : Address → Prop} {P : Prop}
    (hp : p.KeptBy n ∨ P) : (c'.startTurn n).Conserves K p D P :=
  ⟨hopen, h.nodes n hn, by simp [Cluster.startTurn], hp.imp_left .inl⟩

theorem afterTurn (h : c.Tidy K) {i : Nat} {n : Node} (hi : c.members[i]? = some n) {t : Turn}
    {p : Posting} {D : Address → Prop} {P : Prop} (ht : t.Conserves K p D P) :
    (c.afterTurn i n t).Tidy K := by
  constructor
  · intro m hm
    rcases mem_afterTurn hi hm with rfl | hm
    · exact ht.2.1
    · exact h.nodes m hm
  · intro d hd msg hdec
    rw [afterTurn_queue, List.mem_append] at hd
    rcases hd with hd | hd
    · exact h.requests d hd msg hdec
    · obtain ⟨x, hx, rfl⟩ := List.mem_map.1 hd
      exact ht.2.2.1 x (Array.mem_toList_iff.1 hx) msg hdec

end Tidy

/-- What every state of a run keeps for the postings: the members point only at members,
datagrams to members reach them, and the nodes and queued store requests are tidy. -/
structure Custody (K : Corpus) (c : Cluster) : Prop where
  pointers : c.PointersIn c.Members
  reliable : c.Reliable
  tidy : c.Tidy K

/-! ### Where a posting is held -/

/-- The posting is held by a member, or listed by a store request queued for a member. -/
def Holds (p : Posting) (c : Cluster) : Prop :=
  (∃ n ∈ c.members, p.KeptBy n) ∨ ∃ d ∈ c.queue.toList, c.Addresses d.dst ∧ p.Carried d.data

/-- The posting is held by a member other than the `i`-th, or listed by a store request
queued for a member. -/
def HoldsBesides (p : Posting) (c : Cluster) (i : Nat) : Prop :=
  (∃ j m, j ≠ i ∧ c.members[j]? = some m ∧ p.KeptBy m) ∨
    ∃ d ∈ c.queue.toList, c.Addresses d.dst ∧ p.Carried d.data

namespace Holds

variable {p : Posting} {c : Cluster}

theorem split (h : c.Holds p) {i : Nat} {n : Node} (hi : c.members[i]? = some n) :
    p.KeptBy n ∨ c.HoldsBesides p i := by
  rcases h with ⟨m, hm, hk⟩ | hq
  · obtain ⟨j, hj⟩ := Array.mem_iff_getElem?.1 hm
    by_cases hji : j = i
    · subst hji
      obtain rfl : n = m := Option.some.inj (hi.symm.trans hj)
      exact .inl hk
    · exact .inr (.inl ⟨j, m, hji, hj, hk⟩)
  · exact .inr (.inr hq)

theorem taken (h : c.Holds p) {k : Nat} {d : Datagram} (hd : c.queue.toList[k]? = some d) :
    (c.Addresses d.dst ∧ p.Carried d.data) ∨ (c.taken k d).Holds p := by
  rcases h with hm | ⟨d', hd', hdst, hc⟩
  · exact .inr (.inl hm)
  · obtain ⟨k', hk'⟩ := List.mem_iff_getElem?.1 hd'
    by_cases hkk : k' = k
    · subst hkk
      obtain rfl : d = d' := Option.some.inj (hd.symm.trans hk')
      exact .inl ⟨hdst, hc⟩
    · refine .inr (.inr ⟨d', ?_, hdst, hc⟩)
      rw [taken_queue]
      exact List.mem_eraseIdx_iff_getElem?.2 ⟨k', hkk, hk'⟩

end Holds

theorem holds_afterTurn {p : Posting} {c : Cluster} {i : Nat} {n : Node}
    (hi : c.members[i]? = some n) {t : Turn}
    (hsel : (c.afterTurn i n t).members.toList.map (·.self) = c.members.toList.map (·.self))
    (h : t.Holds p c.Addresses ∨ c.HoldsBesides p i) : (c.afterTurn i n t).Holds p := by
  have hA : ∀ a, c.Addresses a → (c.afterTurn i n t).Addresses a :=
    fun _ => Addresses.of_selves hsel.symm
  rcases h with (hk | ⟨x, hx, hD, hc⟩) | (⟨j, m, hji, hj, hk⟩ | ⟨d, hd, hD, hc⟩)
  · exact .inl ⟨t.node, node_mem_afterTurn hi t, hk⟩
  · -- sent in the turn, so queued behind the old queue
    refine .inr ⟨⟨n.self.addr, x.1, x.2⟩, ?_, hA _ hD, hc⟩
    rw [afterTurn_queue]
    exact List.mem_append_right _ (List.mem_map.2 ⟨x, Array.mem_toList_iff.2 hx, rfl⟩)
  · refine .inl ⟨m, Array.mem_iff_getElem?.2 ⟨j, ?_⟩, hk⟩
    rw [getElem?_afterTurn hi, if_neg hji, hj]
  · refine .inr ⟨d, ?_, hA _ hD, hc⟩
    rw [afterTurn_queue]
    exact List.mem_append_left _ hd

/-! ### Runs -/

/-- The requests of runs whose members leave only closed and publish only indexes within the
corpus. -/
def Publishes (K : Corpus) (c : Cluster) (i : Nat) (op : Op) : Prop :=
  c.LeaveClosed i op ∧ ∀ ix, op = .publish ix → ix.map.Within K

section Runs

variable {K : Corpus} {c c' : Cluster}

theorem Step.custody (hs : Step (Publishes K) c c') (hc : c.Custody K) :
    c'.Custody K ∧ ∀ p, c.Holds p → c'.Holds p := by
  obtain ⟨hp, hrel, ht⟩ := hc
  have hD : ∀ r, c.Members r → c.Addresses r.addr := fun r hr => ⟨r, hr, rfl⟩
  have hp' : c'.PointersIn c'.Members :=
    hs.pointersIn hp (fun _ => id)
      (fun _ n ha hi => ⟨⟨n, Array.mem_of_getElem? hi, rfl⟩, ha.1 rfl n hi⟩)
      (fun _ => Members.of_selves hs.selves.symm) (fun _ => InRing.members)
  have hrel' := hs.reliable hrel
  rcases hs.cases with rfl | ⟨i, n, op, ha, hi, rfl⟩ | ⟨k, d, hd, ⟨rfl, hdrop⟩ | ⟨j, n, -, hj, rfl⟩⟩
  · exact ⟨⟨hp', hrel', ht⟩, fun _ => id⟩
  · -- a request: the member keeps what it holds, and the rest of the cluster the others
    have hn := Array.mem_of_getElem? hi
    have hturn : ∀ p P, (p.KeptBy n ∨ P) →
        (op.act.run (c.startTurn n)).2.Conserves K p c.Addresses P := fun p P h =>
      NodeM.run_of_triple (@act_conserves K p c.Addresses P c.Members hD op ha.2)
        ⟨hp.startTurn c hn, hD _ ⟨n, hn, rfl⟩, ht.startTurn hn (hrel.opened n hn) h⟩
    refine ⟨⟨hp', hrel', ht.afterTurn hi (hturn default True (.inr trivial))⟩, fun p hh => ?_⟩
    exact holds_afterTurn hi hs.selves (hturn p _ (hh.split hi)).2.2.2
  · -- a drop: in a reliable cluster no datagram to a member is dropped
    refine ⟨⟨hp', hrel', ht.taken k d⟩, fun p hh => ?_⟩
    rcases hh.taken hd with ⟨hdst, -⟩ | hh
    · have hsome := hrel.handlerOf_isSome hdst
      simp only [hrel.uncut, List.contains_nil, Bool.or_false, Bool.false_eq_true, false_or] at hdrop
      simp [hdrop] at hsome
    · exact hh
  · -- a delivery: the datagram was queued, so it reads as a message within the invariant
    have hn := Array.mem_of_getElem? hj
    have hdq := List.mem_of_getElem? hd
    have hread : ∀ m, Message.decode d.data = .ok m →
        m.body.PointersIn c.Members ∧ m.body.StoresWithin K :=
      fun m hm => ⟨hp.2 d hdq m hm, ht.requests d hdq m hm⟩
    have hstart : ∀ p P, (p.KeptBy n ∨ P) →
        ((c.taken k d).startTurn n).Conserves K p c.Addresses P :=
      fun _ _ h => (ht.taken k d).startTurn hn (hrel.opened n hn) h
    have hturn : ∀ p P, (p.KeptBy n ∨ P) →
        ((Node.receive d.src d.data).run ((c.taken k d).startTurn n)).2.Conserves K p
          c.Addresses P := fun p P h =>
      NodeM.run_of_triple (@receive_conserves K p c.Addresses P c.Members hD d.src d.data hread)
        (hstart p P h)
    refine ⟨⟨hp', hrel', (ht.taken k d).afterTurn hj (hturn default True (.inr trivial))⟩,
      fun p hh => ?_⟩
    rcases hh.taken hd with ⟨-, hcar⟩ | hh
    · -- the datagram is a store request carrying the posting: its receiver stores it
      have h := NodeM.run_of_triple
        (@receive_carrying K p c.Addresses True d.src d.data hcar (fun m hm => (hread m hm).2) False)
        (hstart p True (.inr trivial))
      exact @holds_afterTurn p (c.taken k d) j n hj _ hs.selves (.inl (h.2.2.2.resolve_right id))
    · exact @holds_afterTurn p (c.taken k d) j n hj _ hs.selves (hturn p _ (hh.split hj)).2.2.2

theorem Run.custody (hrun : Run (Publishes K) c c') (h : c.Custody K) : c'.Custody K :=
  Run.invariant (fun _ _ hc hs => (hs.custody hc).1) hrun h

theorem Run.holds {p : Posting} (hrun : Run (Publishes K) c c') (h : c.Custody K)
    (hp : c.Holds p) : c'.Holds p :=
  (@Run.invariant _ (fun c => c.Custody K ∧ c.Holds p)
    (fun _ _ hc hs => ⟨(hs.custody hc.1).1, (hs.custody hc.1).2 p hc.2⟩) _ _ hrun ⟨h, hp⟩).2

theorem Fresh.custody (h : c.Fresh) (hsearch : ∀ n ∈ c.members, n.search = {})
    (hwire : ∀ n ∈ c.members, n.self.OnWire) (hrel : c.Reliable) : c.Custody K := by
  refine ⟨h.pointersIn hwire _, hrel, fun n hn => ?_, fun d hd => by simp [h.1] at hd⟩
  rw [Node.Tidy, hsearch n hn]
  exact ⟨TermMap.tidy_empty, TermMap.tidy_empty⟩

theorem publishes_publish {i : Nat} {ix : Index} (hix : ix.map.Within K) :
    Publishes K c i (.publish ix) :=
  ⟨nofun, fun _ h => Op.publish.inj h ▸ hix⟩

theorem Custody.holds_published (hc : c.Custody K) {i : Nat} {n : Node}
    (hi : c.members[i]? = some n) {ix : Index} (hix : ix.map.Within K) {term doc : Bytes}
    (hk : ix.map.Holds term doc) : (c.turn i (Op.publish ix).act).2.Holds ⟨n.self, term, doc⟩ := by
  have hs : Step (Publishes K) c (c.turn i (Op.publish ix).act).2 := .act (publishes_publish hix)
  have h := NodeM.run_of_triple (@publish_holds K ⟨n.self, term, doc⟩ c.Addresses False ix hix hk)
    ⟨hc.tidy.startTurn (Array.mem_of_getElem? hi) (hc.reliable.opened n (Array.mem_of_getElem? hi))
      (.inr trivial), rfl⟩
  rw [turn_run hi] at hs ⊢
  exact holds_afterTurn hi hs.selves (.inl (h.2.2.2.resolve_right id))

end Runs

/-- No published posting is lost. In a run from fresh nodes on the wire, with nothing cut
off and every endpoint open, whose members leave only closed and publish only indexes within
a corpus, every document an index lists for a term, once the index is published at a member
`n`, is at every later point in `n`'s index, in a member's store, or listed for the term by
a store request queued for a member. -/
theorem posting_never_lost {K : Corpus} {c₀ c₁ c : Cluster} {i : Nat} {n : Node} {ix : Index}
    {term doc : Bytes} (hfresh : c₀.Fresh) (hsearch : ∀ m ∈ c₀.members, m.search = {})
    (hwire : ∀ m ∈ c₀.members, m.self.OnWire) (hrel : c₀.Reliable)
    (hrun₁ : Run (Publishes K) c₀ c₁) (hi : c₁.members[i]? = some n) (hix : ix.map.Within K)
    (hrun₂ : Run (Publishes K) (c₁.turn i (Op.publish ix).act).2 c)
    (hdoc : doc ∈ (ix.map.postings term).toList) :
    (∃ m ∈ c.members, m.self = n.self ∧ doc ∈ (m.search.index.map.postings term).toList) ∨
    (∃ m ∈ c.members, doc ∈ (m.search.store.postings term).toList) ∨
    (∃ d ∈ c.queue.toList, c.Addresses d.dst ∧ ∃ msg docs, Message.decode d.data = .ok msg ∧
      msg.body = .storeReq term docs ∧ doc ∈ docs) := by
  have h₁ : c₁.Custody K := hrun₁.custody (hfresh.custody hsearch hwire hrel)
  have h₂ := (@Step.act _ c₁ i (.publish ix) (publishes_publish hix)).custody h₁
  have hc : c.Custody K := hrun₂.custody h₂.1
  have hh : c.Holds ⟨n.self, term, doc⟩ :=
    hrun₂.holds h₂.1 (h₁.holds_published hi hix (TermMap.holds_of_mem_postings hdoc))
  -- the maps are ascending, so `postings` lists all they hold for the term
  rcases hh with ⟨m, hm, ⟨hself, hk⟩ | hk⟩ | ⟨d, hd, hdst, hcar⟩
  · exact .inl ⟨m, hm, hself, (TermMap.holds_iff_postings (hc.tidy.nodes m hm).1.1).1 hk⟩
  · exact .inr (.inl ⟨m, hm, (TermMap.holds_iff_postings (hc.tidy.nodes m hm).2.1).1 hk⟩)
  · exact .inr (.inr ⟨d, hd, hdst, hcar⟩)

/-! ### Publishing at a fresh pair -/

/-- The document `doc1`. -/
def doc1 : Bytes := [100, 111, 99, 49]

/-- The term `apple`. -/
def apple : Bytes := [97, 112, 112, 108, 101]

/-- The corpus of the one document `doc1`. -/
def doc1Corpus : Corpus := ⟨DocSet.empty.insert doc1, by decide, by decide⟩

/-- The index listing `doc1` for `apple`. -/
def appleIndex : Index := ⟨⟨[(apple, DocSet.empty.insert doc1)]⟩⟩

/-- Node 2 has joined the ring node 1 started: its join request and the answer are
delivered. -/
def joinedPair : Cluster := joiningPair.deliverHeads 3

/-- Node 2, in the ring, publishes `appleIndex`, and the datagrams it causes are delivered. -/
def storedPair : Cluster := (joinedPair.turn 1 (Op.publish appleIndex).act).2.deliverHeads 6

theorem freshPair_reliable : freshPair.Reliable := by
  refine ⟨rfl, fun n hn => ?_⟩
  simp only [freshPair, List.mem_toArray, List.mem_cons, List.not_mem_nil, or_false] at hn
  rcases hn with rfl | rfl <;> decide

theorem freshPair_unpublished : ∀ n ∈ freshPair.members, n.search = {} := by
  intro n hn
  simp only [freshPair, List.mem_toArray, List.mem_cons, List.not_mem_nil, or_false] at hn
  rcases hn with rfl | rfl <;> rfl

/-- Node 1 starts a ring and node 2 joins it; node 2 then publishes `apple`, which node 1
owns, and node 1 stores it once the lookup and the store request are delivered. -/
theorem storedPair_keeps_apple :
    freshPair.Reliable ∧ appleIndex.map.Within doc1Corpus ∧
    Run (Publishes doc1Corpus) freshPair joinedPair ∧
    (storedPair.members[0]?.map fun m => (m.search.store.postings apple).toList) = some [doc1] ∧
    ∃ n, joinedPair.members[1]? = some n ∧ n.ring.inRing = true ∧
      ((∃ m ∈ storedPair.members, m.self = n.self ∧
          doc1 ∈ (m.search.index.map.postings apple).toList) ∨
        (∃ m ∈ storedPair.members, doc1 ∈ (m.search.store.postings apple).toList) ∨
        (∃ d ∈ storedPair.queue.toList, storedPair.Addresses d.dst ∧ ∃ msg docs,
          Message.decode d.data = .ok msg ∧ msg.body = .storeReq apple docs ∧ doc1 ∈ docs)) := by
  have hix : appleIndex.map.Within doc1Corpus := by decide
  have hrun₁ : Run (Publishes doc1Corpus) freshPair joinedPair :=
    (joiningPair_run fun _ _ => ⟨nofun, fun _ => nofun⟩).trans (Run.deliverHeads 3 _)
  -- the join has been answered, and the store request has reached node 1
  have hin : (joinedPair.members[1]?.map (·.ring.inRing)) = some true := by decide +kernel
  have hstored : (storedPair.members[0]?.map fun m => (m.search.store.postings apple).toList) =
      some [doc1] := by
    decide +kernel
  obtain ⟨n, hn, hnin⟩ := Option.map_eq_some_iff.1 hin
  exact ⟨freshPair_reliable, hix, hrun₁, hstored, n, hn, hnin,
    posting_never_lost freshPair_fresh freshPair_unpublished freshPair_onWire freshPair_reliable
      hrun₁ hn hix (Run.deliverHeads 6 _) (by decide)⟩

end Cluster

end ChordSearch
