import ChordSearch.Proofs.Ring.Still

/-! # Publishing once the ring has settled

Placement rests on two things only: a term's postings go to the owner a lookup names, and a
member hands a new predecessor the terms it now owns. A store request resolved against an
older ring can still be on its way when the ring changes; the member it reaches keeps it,
whatever that member owns, and nothing moves it afterwards. Terms are at their owners once
the ring has settled only when publishing waits for the ring.

Runs that publish nothing carry no postings (`Cluster.Unposted`): every index and every
store stays empty, no store request is ever on its way, and every finger stays numbered
below `idBits`. Every handler keeps that for a message that is no store request
(`receive_unposted`), and so does every operator request but publishing (`act_unposted`).
A run that publishes nothing until its cluster is quiescent with a correct ring, and then
holds that ring still, keeps every term at its owner (`settled_ring_places`).
-/

namespace ChordSearch

open NodeM Std.Do

set_option mvcgen.warning false

/-- A node with nothing to publish and nothing stored, its fingers numbered below
`idBits`. -/
structure Node.Unposted (n : Node) : Prop where
  index : n.search.index.map.entries = []
  store : n.search.store.map.entries = []
  fingers : n.FingersIndexed

/-- Bytes that read as no store request. -/
def Unstoring (data : Bytes) : Prop :=
  ∀ m, Message.decode data = .ok m → m.body.kind ≠ .storeReq

/-- A turn whose node has no postings and that sent no store request. -/
structure Turn.Unposted (t : Turn) : Prop where
  node : t.node.Unposted
  sent : ∀ x ∈ t.outgoing, Unstoring x.2

namespace Turn.Unposted

variable {t : Turn}

theorem of_same (h : t.Unposted) {t' : Turn} (hi : t'.node.search.index = t.node.search.index)
    (hs : t'.node.search.store = t.node.search.store)
    (hf : t'.node.ring.fingers = t.node.ring.fingers) (ho : t'.outgoing = t.outgoing) :
    t'.Unposted where
  node := ⟨by rw [hi]; exact h.node.index, by rw [hs]; exact h.node.store,
    fun f hf' => h.node.fingers f (hf ▸ hf')⟩
  sent := by rw [ho]; exact h.sent

theorem noted (h : t.Unposted) (k : EventKind) (p : String) (b : Bytes) :
    (t.noted k p b).Unposted :=
  h.of_same (by simp) (by simp) (by simp) (by simp)

theorem mapMetrics (h : t.Unposted) (f : Metrics → Metrics) : (t.mapMetrics f).Unposted :=
  h.of_same rfl rfl rfl rfl

theorem drawTx (h : t.Unposted) : t.drawTx.Unposted := h.of_same rfl rfl rfl rfl

theorem mapRing (h : t.Unposted) {f : Membership → Membership}
    (hf : ∀ x ∈ (f t.node.ring).fingers, x.index < idBits) : (t.mapRing f).Unposted :=
  ⟨⟨h.node.index, h.node.store, hf⟩, h.sent⟩

theorem mapSearch (h : t.Unposted) {f : SearchState → SearchState}
    (hi : (f t.node.search).index.map.entries = [])
    (hs : (f t.node.search).store.map.entries = []) : (t.mapSearch f).Unposted :=
  ⟨⟨hi, hs, h.node.fingers⟩, h.sent⟩

theorem successorSet (h : t.Unposted) (n : NodeRef) : (t.successorSet n).Unposted :=
  h.of_same (by simp) (by simp) (by simp) (by simp)

theorem pingFailed (h : t.Unposted) (q : PingRequest) : (t.pingFailed q).Unposted :=
  (h.mapMetrics _).noted _ _ _

theorem pingsFailed (h : t.Unposted) (ps : List (Pending PingRequest)) :
    (t.pingsFailed ps).Unposted := by
  induction ps generalizing t with
  | nil => exact h
  | cons q ps ih => exact ih (h.pingFailed q.value)

theorem transmitted_free (h : t.Unposted) {d : Address} {m : Message}
    (hk : m.body.kind ≠ .storeReq) : (t.transmitted d m).Unposted := by
  obtain ⟨ms, hn⟩ := transmitted_node t d m
  refine ⟨by rw [hn]; exact ⟨h.node.index, h.node.store, h.node.fingers⟩, fun x hx m' hd => ?_⟩
  rw [transmitted_outgoing] at hx
  cases he : m.encode with
  | error _ =>
    rw [he] at hx
    exact h.sent x hx m' hd
  | ok data =>
    rw [he] at hx
    dsimp only at hx
    split at hx
    · rcases Array.mem_push.1 hx with hx | rfl
      · exact h.sent x hx m' hd
      · -- the message reads back with the type it was written with
        rw [Message.kind_of_encode_decode he hd]
        exact hk
    · exact h.sent x hx m' hd

theorem sent_free (h : t.Unposted) {d : Address} {tx : UInt32} {b : Body}
    (hk : b.kind ≠ .storeReq) : (t.sent d tx b).Unposted := by
  unfold Turn.sent
  split
  · exact h.transmitted_free hk
  · exact h

theorem handedOver (h : t.Unposted) (n : NodeRef) : (t.handedOver n).Unposted := by
  unfold Turn.handedOver
  split
  · exact h
  · rw [Store.extractNotOwned_eq, TermMap.partition_eq]
    simp only [h.node.store, List.filter_nil, TermMap.isEmpty, List.isEmpty_nil, ↓reduceIte]
    exact h.mapSearch h.node.index rfl

theorem predecessorSet (h : t.Unposted) (n : NodeRef) : (t.predecessorSet n).Unposted := by
  unfold Turn.predecessorSet
  split
  · exact h
  · exact ((h.mapRing (f := fun r => { r with predecessor := n }) h.node.fingers).noted _ _ _).handedOver n

theorem handedAll (h : t.Unposted) (n : NodeRef) : (t.handedAll n).Unposted := by
  unfold Turn.handedAll
  split
  · exact h
  · simp only [Store.takeAll, h.node.store]
    exact ⟨⟨h.node.index, rfl, h.node.fingers⟩, h.sent⟩

end Turn.Unposted

/-! ### The handlers -/

section Handlers

open Turn.Unposted

theorem requestFinger_unposted {f : Finger} :
    ⦃fun t => ⌜t.Unposted⌝⦄ Ring.requestFinger f ⦃⇓ _ t => ⌜t.Unposted⌝⦄ := by
  intro t h
  mvcgen [Ring.requestFinger]
  exact h.drawTx.sent_free (by simp [Body.kind])

theorem initFinger_unposted {i : Nat} :
    ⦃fun t => ⌜t.Unposted⌝⦄ Ring.initFinger i ⦃⇓ _ t => ⌜t.Unposted⌝⦄ := by
  intro t h
  mvcgen [Ring.initFinger, requestFinger_unposted]
  next hc _ =>
  have hi : 1 ≤ i ∧ i ≤ idBits := by simp at hc; omega
  refine h.mapRing fun x hx => ?_
  rcases Array.mem_push.1 hx with hx | rfl
  · exact h.node.fingers x hx
  · show i - 1 < idBits
    omega

theorem fixFinger_unposted {i : Nat} :
    ⦃fun t => ⌜t.Unposted⌝⦄ Ring.fixFinger i ⦃⇓ _ t => ⌜t.Unposted⌝⦄ := by
  intro t h
  have hc := carryOwners_indexed h.node.fingers
  mvcgen [Ring.fixFinger, requestFinger_unposted]
  · exact h.mapRing (hc _).1
  · exact h.mapRing (hc _).1

theorem stabilize_unposted :
    ⦃fun t => ⌜t.Unposted⌝⦄ Ring.stabilize ⦃⇓ _ t => ⌜t.Unposted⌝⦄ := by
  intro t h
  mvcgen [Ring.stabilize, fixFinger_unposted]
  have hs : (t.drawTx.sent t.node.ring.successor.addr (t.node.lastTx + 1)
      (.stabilizeReq t.drawTx.node.self)).Unposted := h.drawTx.sent_free (by simp [Body.kind])
  exact hs.mapRing (indexed_modify hs.node.fingers 0 _)

theorem findSuccessor_unposted {tx : UInt32} {n : NodeRef} {start : RingId} {index : UInt32} :
    ⦃fun t => ⌜t.Unposted⌝⦄ Ring.findSuccessor tx n start index ⦃⇓ _ t => ⌜t.Unposted⌝⦄ := by
  intro t h
  mvcgen [Ring.findSuccessor]
  all_goals exact h.sent_free (by simp [Body.kind])

theorem resolve_unposted {key : RingId} {tx : UInt32} :
    ⦃fun t => ⌜t.Unposted⌝⦄ Ring.resolve key tx ⦃⇓ _ t => ⌜t.Unposted⌝⦄ := by
  intro t h
  mvcgen [Ring.resolve, findSuccessor_unposted]

theorem lookupResolved_unposted {owner : NodeRef} {key : RingId} {tx : UInt32} :
    ⦃fun t => ⌜t.Unposted⌝⦄ Search.lookupResolved owner key tx ⦃⇓ _ t => ⌜t.Unposted⌝⦄ := by
  intro t h
  mvcgen [Search.lookupResolved]
  · exact h.mapSearch h.node.index h.node.store
  · -- the index is empty, so the term is not in it
    have hm := TermMap.mem_of_find? ‹_ = some _›
    simp [h.node.index] at hm
  · exact (h.mapSearch h.node.index h.node.store).transmitted_free (by simp [Body.kind])
  · exact (h.mapSearch h.node.index h.node.store).noted _ _ _

theorem foundSuccessor_unposted {tx : UInt32} {owner : NodeRef} {start : RingId}
    {index : UInt32} :
    ⦃fun t => ⌜t.Unposted⌝⦄ Ring.foundSuccessor tx owner start index ⦃⇓ _ t => ⌜t.Unposted⌝⦄ := by
  intro t h
  mvcgen [Ring.foundSuccessor, lookupResolved_unposted, initFinger_unposted, fixFinger_unposted]
  all_goals exact h.mapRing (indexed_modify h.node.fingers _ _)

theorem stabilizeReply_unposted {q : NodeRef} :
    ⦃fun t => ⌜t.Unposted⌝⦄ Ring.stabilizeReply q ⦃⇓ _ t => ⌜t.Unposted⌝⦄ := by
  intro t h
  mvcgen [Ring.stabilizeReply]
  exact h.successorSet _

theorem stabilizeRequest_unposted {tx : UInt32} {sender : NodeRef} :
    ⦃fun t => ⌜t.Unposted⌝⦄ Ring.stabilizeRequest tx sender ⦃⇓ _ t => ⌜t.Unposted⌝⦄ := by
  intro t h
  mvcgen [Ring.stabilizeRequest]
  · exact (h.predecessorSet _).sent_free (by simp [Body.kind])
  · exact h.sent_free (by simp [Body.kind])

theorem joinRequest_unposted {tx : UInt32} {landmark requester : NodeRef} :
    ⦃fun t => ⌜t.Unposted⌝⦄ Ring.joinRequest tx landmark requester ⦃⇓ _ t => ⌜t.Unposted⌝⦄ := by
  intro t h
  mvcgen [Ring.joinRequest]
  all_goals exact h.sent_free (by simp [Body.kind])

theorem joinReply_unposted {tx : UInt32} {requester landmark successor : NodeRef} :
    ⦃fun t => ⌜t.Unposted⌝⦄ Ring.joinReply tx requester landmark successor
    ⦃⇓ _ t => ⌜t.Unposted⌝⦄ := by
  intro t h
  mvcgen [Ring.joinReply, initFinger_unposted]
  · exact h.sent_free (by simp [Body.kind])
  · exact ((h.mapRing fun _ hx => by simp at hx).successorSet _).noted _ _ _
  · exact h.sent_free (by simp [Body.kind])

theorem departure_unposted {sender conn : NodeRef} :
    ⦃fun t => ⌜t.Unposted⌝⦄ Ring.departure sender conn ⦃⇓ _ t => ⌜t.Unposted⌝⦄ := by
  intro t h
  mvcgen [Ring.departure]
  · exact ((h.predecessorSet _).successorSet _).noted _ _ _
  · exact (h.predecessorSet _).noted _ _ _
  · exact (h.successorSet _).noted _ _ _
  · exact h.noted _ _ _

theorem pingRequest_unposted {from_ : Address} {tx : UInt32} {message : Bytes} :
    ⦃fun t => ⌜t.Unposted⌝⦄ Ring.pingRequest from_ tx message ⦃⇓ _ t => ⌜t.Unposted⌝⦄ := by
  intro t h
  mvcgen [Ring.pingRequest]
  exact (h.noted _ _ _).sent_free (by simp [Body.kind])

theorem pingAnswer_unposted {tx : UInt32} :
    ⦃fun t => ⌜t.Unposted⌝⦄ Ring.pingAnswer tx ⦃⇓ _ t => ⌜t.Unposted⌝⦄ := by
  intro t h
  mvcgen [Ring.pingAnswer, Ring.pingSucceeded]
  apply Turn.Unposted.noted
  apply Turn.Unposted.mapMetrics
  exact h.of_same rfl rfl rfl rfl

theorem ringStatePing_unposted {tx : UInt32} {originator : NodeRef} :
    ⦃fun t => ⌜t.Unposted⌝⦄ Ring.ringStatePing tx originator ⦃⇓ _ t => ⌜t.Unposted⌝⦄ := by
  intro t h
  mvcgen [Ring.ringStatePing]
  exact h.sent_free (by simp [Body.kind])

theorem lookupFor_unposted {errand : Errand} {term : Bytes} :
    ⦃fun t => ⌜t.Unposted⌝⦄ Search.lookupFor errand term ⦃⇓ _ t => ⌜t.Unposted⌝⦄ := by
  intro t h
  mvcgen [Search.lookupFor, resolve_unposted]
  · exact h.drawTx.mapSearch h.node.index h.node.store
  · next h' =>
    exact h'.mapSearch h'.node.index h'.node.store

theorem fetch_unposted {tx originator : UInt32} {key : Bytes} {remaining accumulated : List Bytes} :
    ⦃fun t => ⌜t.Unposted⌝⦄ Search.fetch tx originator key remaining accumulated
    ⦃⇓ _ t => ⌜t.Unposted⌝⦄ := by
  intro t h
  mvcgen [Search.fetch, Search.reply, Search.forward, lookupFor_unposted]
  all_goals exact h.transmitted_free (by simp [Body.kind])

theorem fetchReply_unposted {tx : UInt32} {docs : List Bytes} :
    ⦃fun t => ⌜t.Unposted⌝⦄ Search.fetchReply tx docs ⦃⇓ _ t => ⌜t.Unposted⌝⦄ := by
  intro t h
  mvcgen [Search.fetchReply]
  exact ((h.mapSearch h.node.index h.node.store).mapMetrics _).noted _ _ _

theorem handle_unposted {from_ : Address} {m : Message} (hk : m.body.kind ≠ .storeReq) :
    ⦃fun t => ⌜t.Unposted⌝⦄ Node.handle from_ m ⦃⇓ _ t => ⌜t.Unposted⌝⦄ := by
  rcases m with ⟨tx, b⟩
  cases b with
  | pingReq _ => exact pingRequest_unposted
  | pingRsp _ => exact pingAnswer_unposted
  | joinReq _ _ => exact joinRequest_unposted
  | joinRsp _ _ _ => exact joinReply_unposted
  | departureReq _ _ => exact departure_unposted
  | stabilizeRsp _ => exact stabilizeReply_unposted
  | stabilizeReq _ => exact stabilizeRequest_unposted
  | ringStatePing _ => exact ringStatePing_unposted
  | findSuccessorReq _ _ _ => exact findSuccessor_unposted
  | findSuccessorRsp _ _ _ => exact foundSuccessor_unposted
  | storeReq _ _ => exact absurd rfl hk
  | fetchReq _ _ _ _ => exact fetch_unposted
  | fetchRsp _ => exact fetchReply_unposted

theorem receive_unposted {from_ : Address} {data : Bytes} (hd : Unstoring data) :
    ⦃fun t => ⌜t.Unposted⌝⦄ Node.receive from_ data ⦃⇓ _ t => ⌜t.Unposted⌝⦄ := by
  intro t h
  unfold Node.receive
  split
  · mvcgen
    exact h.mapMetrics _
  · next m hdec =>
    have hh := @handle_unposted from_ m (hd m hdec)
    mvcgen [hh]
    exact h.mapMetrics _

/-! ### Operator requests -/

theorem join_unposted {landmark : NodeRef} :
    ⦃fun t => ⌜t.Unposted⌝⦄ Ring.join landmark ⦃⇓ _ t => ⌜t.Unposted⌝⦄ := by
  intro t h
  mvcgen [Ring.join, Ring.bootstrap]
  · next _ _ _ fs =>
    apply Turn.Unposted.noted
    apply Turn.Unposted.mapRing _ ?_
    · apply Turn.Unposted.predecessorSet
      apply Turn.Unposted.successorSet
      exact h.of_same rfl rfl rfl rfl
    · -- a ring of one numbers its fingers `0` to `idBits - 1`
      intro x hx
      simp only [fs, List.mem_toArray, List.mem_map, List.mem_range] at hx
      obtain ⟨i, hi, rfl⟩ := hx
      exact hi
  · apply Turn.Unposted.sent_free _ (by simp [Body.kind])
    apply Turn.Unposted.drawTx
    exact h.of_same rfl rfl rfl rfl

theorem leave_unposted :
    ⦃fun t => ⌜t.Unposted⌝⦄ Ring.leave ⦃⇓ _ t => ⌜t.Unposted⌝⦄ := by
  intro t h
  have hall := h.handedAll t.node.ring.successor
  mvcgen [Ring.leave]
  · exact ((hall.drawTx.sent_free (by simp [Body.kind])).drawTx.sent_free
      (by simp [Body.kind]) |>.mapRing fun _ hx => by simp at hx).noted _ _ _
  · exact ((hall.drawTx.sent_free (by simp [Body.kind])).mapRing fun _ hx => by simp at hx).noted
      _ _ _
  · exact (hall.mapRing fun _ hx => by simp at hx).noted _ _ _

theorem tick_unposted : ⦃fun t => ⌜t.Unposted⌝⦄ Node.tick ⦃⇓ _ t => ⌜t.Unposted⌝⦄ := by
  mvcgen [Node.tick, stabilize_unposted]
  rename_i h
  exact h.mapMetrics _

theorem sendPing_unposted {dest : NodeRef} {message : Bytes} :
    ⦃fun t => ⌜t.Unposted⌝⦄ Ring.sendPing dest message ⦃⇓ _ t => ⌜t.Unposted⌝⦄ := by
  intro t h
  mvcgen [Ring.sendPing]
  · exact h.drawTx.pingFailed _
  · apply Turn.Unposted.sent_free _ (by simp [Body.kind])
    exact h.of_same rfl rfl rfl rfl

theorem auditPings_unposted :
    ⦃fun t => ⌜t.Unposted⌝⦄ Ring.auditPings ⦃⇓ _ t => ⌜t.Unposted⌝⦄ := by
  intro t h
  mvcgen [Ring.auditPings]
  apply Turn.Unposted.pingsFailed
  exact h.of_same rfl rfl rfl rfl

theorem ringState_unposted :
    ⦃fun t => ⌜t.Unposted⌝⦄ Ring.ringState ⦃⇓ _ t => ⌜t.Unposted⌝⦄ := by
  intro t h
  mvcgen [Ring.ringState]
  exact h.drawTx.sent_free (by simp [Body.kind])

theorem lookup_unposted {term : Bytes} :
    ⦃fun t => ⌜t.Unposted⌝⦄ Search.lookup term ⦃⇓ _ t => ⌜t.Unposted⌝⦄ := by
  intro t h
  mvcgen [Search.lookup, resolve_unposted]
  exact h.drawTx.mapSearch h.node.index h.node.store

theorem query_unposted {via : NodeRef} {terms : List Bytes} :
    ⦃fun t => ⌜t.Unposted⌝⦄ Search.query via terms ⦃⇓ _ t => ⌜t.Unposted⌝⦄ := by
  intro t h
  mvcgen [Search.query]
  exact (h.drawTx.mapSearch h.node.index h.node.store).transmitted_free (by simp [Body.kind])

theorem act_unposted {op : Op} (hop : ∀ ix, op ≠ .publish ix) :
    ⦃fun t => ⌜t.Unposted⌝⦄ op.act ⦃⇓ _ t => ⌜t.Unposted⌝⦄ := by
  cases op with
  | join _ => mvcgen [Op.act, join_unposted]
  | leave => mvcgen [Op.act, leave_unposted]
  | stabilize => mvcgen [Op.act, tick_unposted]
  | ping _ _ => mvcgen [Op.act, sendPing_unposted]
  | auditPings => mvcgen [Op.act, auditPings_unposted]
  | ringState => mvcgen [Op.act, ringState_unposted]
  | resolve _ _ => mvcgen [Op.act, resolve_unposted]
  | lookup _ => mvcgen [Op.act, lookup_unposted]
  | publish ix => exact absurd rfl (hop ix)
  | search _ _ => mvcgen [Op.act, query_unposted]

end Handlers

namespace Cluster

variable {c c' : Cluster}

/-- No member has anything to publish or stored, every member numbers its fingers below
`idBits`, and no store request is on its way. -/
structure Unposted (c : Cluster) : Prop where
  members : ∀ n ∈ c.members, n.Unposted
  queue : ∀ d ∈ c.queue.toList, Unstoring d.data

/-- The requests of runs that publish nothing. -/
def Unpublishing (_ : Cluster) (_ : Nat) (op : Op) : Prop := ∀ ix, op ≠ .publish ix

theorem Fresh.unposted (h : c.Fresh) (hblank : ∀ n ∈ c.members, n.search = {}) :
    c.Unposted where
  members n hn := ⟨by rw [hblank n hn]; rfl, by rw [hblank n hn]; rfl,
    fun f hf => by simp [h.2 n hn] at hf⟩
  queue d hd := by simp [h.1] at hd

theorem Unposted.startTurn (h : c.Unposted) {n : Node} (hn : n ∈ c.members) (c' : Cluster) :
    (c'.startTurn n).Unposted :=
  ⟨h.members n hn, fun x hx => by simp [Cluster.startTurn] at hx⟩

theorem Unposted.afterTurn (h : c.Unposted) {i : Nat} {n : Node} (hi : c.members[i]? = some n)
    {t : Turn} (ht : t.Unposted) : (c.afterTurn i n t).Unposted where
  members m hm := by
    rcases mem_afterTurn hi hm with rfl | hm
    · exact ht.node
    · exact h.members m hm
  queue d hd := by
    rw [afterTurn_queue, List.mem_append] at hd
    rcases hd with hd | hd
    · exact h.queue d hd
    · obtain ⟨x, hx, rfl⟩ := List.mem_map.1 hd
      exact ht.sent x (Array.mem_toList_iff.1 hx)

theorem Unposted.taken (h : c.Unposted) (k : Nat) (d : Datagram) : (c.taken k d).Unposted where
  members := h.members
  queue d' hd' := by
    rw [taken_queue] at hd'
    exact h.queue d' (List.mem_of_mem_eraseIdx hd')

theorem Step.unposted (hs : Step Unpublishing c c') (h : c.Unposted) : c'.Unposted := by
  rcases hs.cases with rfl | ⟨i, n, op, hop, hi, rfl⟩ | ⟨k, d, hd, ⟨rfl, -⟩ | ⟨j, n, hj, hn, rfl⟩⟩
  · exact h
  · exact h.afterTurn hi
      (NodeM.run_of_triple (act_unposted hop) (h.startTurn (Array.mem_of_getElem? hi) c))
  · exact h.taken k d
  · -- the datagram was queued, so it is no store request
    exact (h.taken k d).afterTurn hn
      (NodeM.run_of_triple (receive_unposted (h.queue d (List.mem_of_getElem? hd)))
        ((h.taken k d).startTurn (Array.mem_of_getElem? hn) (c.taken k d)))

theorem Run.unposted (hrun : Run Unpublishing c c') (h : c.Unposted) : c'.Unposted :=
  Run.invariant (fun _ _ h hs => hs.unposted h) hrun h

/-- Terms are at their owners once the ring has settled, when publishing waits for it. From
fresh nodes with nothing to publish and nothing stored, through any run of joins, leaves,
stabilize ticks and every other request but publishing, with datagrams delivered in any
order, to a quiescent cluster whose ring members form a correct ring, and on through any run
that holds that ring still (publishes, ticks, lookups and searches, with no counter wrapping
round), every stored term is held by its owner only. -/
theorem settled_ring_places {c₀ c₁ c : Cluster} (hfresh : c₀.Fresh)
    (hblank : ∀ n ∈ c₀.members, n.search = {}) (hsettle : Run Unpublishing c₀ c₁)
    (hq : c₁.queue.toList = []) (hc : c₁.Correct) (hrun : StillRun c₁ c) : c.Placed := by
  have h₁ := hsettle.unposted (hfresh.unposted hblank)
  -- nothing is stored yet, so every stored term is at its owner
  have hp : c₁.Placed := fun n hn e he => by simp [(h₁.members n hn).store] at he
  exact hrun.placed hc hp hq fun n hn => (h₁.members n hn).fingers

end Cluster

end ChordSearch
