import ChordSearch.Proofs.Search.Handover
import ChordSearch.Proofs.Search.Custody

/-! # Publishing shards the index

A ring member of a quiescent cluster that publishes an index hands every term of its merged
index to the term's owner. Once the datagrams this causes are delivered, in any order and
with nothing else interleaved, the member's index is empty, it waits only for the lookups it
waited for before, and each owner holds what it held and the postings of the terms it owns.

The proof follows the hand-over of each term as a `Leg`: the lookup's request held by a ring
member, its answer on the way back, the postings on their way to the owner, kept.

* `Publication`: what the publishing node started: its member, reference, merged index, the
  terms numbered by their lookup ids, and the lookups it waited for before.
* `Publishing`: the invariant of the hand-over, under legs `σ`: the queue holds exactly the
  datagrams of the legs, every leg is where the ring allows, the publisher still holds the
  terms whose lookups wait, and each member holds what it held and what it has kept.
* `Publishing.start`: the invariant right after the publishing turn.
* `Publishing.deliverAt`: delivering any queued datagram keeps the invariant and lowers the
  weight of the legs, a request being nearer its key after each hop;
  `Publishing.delivering` and `Publishing.drains` follow.
* `Publishing.quiet`: once nothing is in flight, every term has been kept by its owner.
* `Cluster.publish_shards_index`: the whole statement, with what publishing does outside the
  ring and what it answers inside.

The terms and documents must fit the wire (`TermMap.Tidy`): a store request writes its term's
length in two bytes, and a term too long for that is erased from the index when its lookup
returns, while its store request is never sent.
-/

namespace ChordSearch

open NodeM

theorem TermMap.Holds.mem_terms {m : TermMap} {t x : Bytes} (h : m.Holds t x) : t ∈ m.terms := by
  obtain ⟨d, hd, -⟩ := h
  exact List.mem_map_of_mem hd

namespace Cluster

/-- An address of a ring member. -/
def RingAddress (c : Cluster) (a : Address) : Prop := ∃ r, c.InRing r ∧ r.addr = a

/-- `o` is the ring member that owns `key`: the first member clockwise from it. -/
def OwnerOf (c : Cluster) (key : RingId) (o : NodeRef) : Prop :=
  c.InRing o ∧ Ring.FirstFrom c.ringIds key o.id

/-- Runs of deliveries only, in any order. -/
def Delivering : Cluster → Cluster → Prop := Run fun _ _ _ => False

end Cluster

/-- Where the hand-over of one published term stands. -/
inductive Leg where
  /-- The lookup's request, sent from `src`, is held by ring member `holder`. -/
  | asking (src : Address) (holder : NodeRef)
  /-- The answer naming `owner` is on its way from `src` to the publisher. -/
  | answered (src : Address) (owner : NodeRef)
  /-- The term's postings are on their way to `owner`, under id `tx`. -/
  | storing (owner : NodeRef) (tx : UInt32)
  /-- `owner` has added the term's postings to its store. -/
  | kept (owner : NodeRef)

namespace Leg

/-- The lookup is still waiting for its answer. -/
def waiting : Leg → Bool
  | asking .. | answered .. => true
  | _ => false

/-- What the ring of `c` says of a leg for `key`. -/
def Sound (c : Cluster) (key : RingId) : Leg → Prop
  | asking src h => c.RingAddress src ∧ c.InRing h
  | answered src o => c.RingAddress src ∧ c.OwnerOf key o
  | storing o _ => c.OwnerOf key o
  | kept o => c.OwnerOf key o

/-- How many deliveries a leg can still take, at most: a request passes each member between
its holder and the key at most once. -/
def weight (ids : List RingId) (key : RingId) : Leg → Nat
  | asking _ h => Ring.arcCount ids h.id key + 3
  | answered .. => 2
  | storing .. => 1
  | kept _ => 0

/-- The leg of a lookup once ring member `holder`, whose successor is `succ`, handles its
request: an answer naming `succ` when `succ` owns the key, the request passed on to `succ`
otherwise. -/
def next (holder succ : NodeRef) (key : RingId) : Leg :=
  if Arc.owns holder.id key succ.id then .answered holder.addr succ else .asking holder.addr succ

theorem next_waiting (holder succ : NodeRef) (key : RingId) : (next holder succ key).waiting = true := by
  unfold next
  split <;> rfl

theorem next_ne_kept (holder succ : NodeRef) (key : RingId) (o : NodeRef) :
    next holder succ key ≠ .kept o := by
  unfold next
  split <;> simp

theorem next_sound {c : Cluster} {holder succ : NodeRef} {key : RingId} (hh : c.InRing holder)
    (hs : c.InRing succ) (hf : Ring.Follows c.ringIds holder.id succ.id) :
    (next holder succ key).Sound c key := by
  have hid : holder.id ∈ c.ringIds := by
    obtain ⟨n, hn, rfl, hin⟩ := hh
    exact Cluster.mem_ringIds (List.mem_map.2 ⟨n, Array.mem_toList_iff.2 hn, rfl⟩) hin
  unfold next
  split
  · next ho => exact ⟨⟨holder, hh, rfl⟩, hs, (Ring.owns_iff_firstFrom hid hf).1 ho⟩
  · exact ⟨⟨holder, hh, rfl⟩, hs⟩

theorem next_weight_lt {ids : List RingId} {holder succ : NodeRef} {key : RingId}
    (hs : succ.id ∈ ids) : (next holder succ key).weight ids key < Ring.arcCount ids holder.id key + 3 := by
  unfold next
  split
  · simp [weight]
  · next ho =>
    have hlt := Ring.arcCount_lt_of_inside hs (Arc.inside_of_not_owns (Bool.eq_false_iff.2 ho))
    simp only [weight]
    omega

/-- Under legs `σ`, ring member `m` has kept the postings of term `t`. -/
def KeptBy (σ : Bytes → Leg) (m : Node) (t : Bytes) : Prop :=
  m.ring.inRing = true ∧ σ t = .kept m.self

variable {σ : Bytes → Leg} {u : Bytes} {leg : Leg}

theorem kept_update (hold : ∀ o, σ u ≠ .kept o) (hnew : ∀ o, leg ≠ .kept o) (t : Bytes)
    (o : NodeRef) : Function.update σ u leg t = .kept o ↔ σ t = .kept o := by
  by_cases ht : t = u
  · subst ht
    simp [hold, hnew]
  · rw [Function.update_of_ne ht]

theorem waiting_update (hw : leg.waiting = (σ u).waiting) (t : Bytes) :
    (Function.update σ u leg t).waiting = (σ t).waiting := by
  by_cases ht : t = u
  · subst ht
    rw [Function.update_self, hw]
  · rw [Function.update_of_ne ht]

end Leg

structure Publication where
  member : Nat
  me : NodeRef
  index : TermMap
  plan : List (Bytes × UInt32)
  earlier : List (Pending PendingLookup)
  sentAt : Int
  ascending : index.Ascending
  terms_eq : plan.map Prod.fst = index.terms
  ids_nodup : (plan.map Prod.snd).Nodup
  fresh : ∀ e ∈ earlier, ∀ q ∈ plan, e.tx ≠ q.2
  exact : ∀ e ∈ index.entries, Body.Exact (.storeReq e.1 e.2.toList)

namespace Publication

variable (P : Publication)

def lookupOf (q : Bytes × UInt32) : Pending PendingLookup :=
  ⟨q.2, ⟨.store, q.1, RingId.hash q.1⟩, P.sentAt⟩

def datagram (q : Bytes × UInt32) : Leg → Option Datagram
  | .asking src h =>
    some ⟨src, h.addr, Message.bytes ⟨q.2, .findSuccessorReq P.me (RingId.hash q.1) lookupIndex⟩⟩
  | .answered src o =>
    some ⟨src, P.me.addr, Message.bytes ⟨q.2, .findSuccessorRsp o (RingId.hash q.1) lookupIndex⟩⟩
  | .storing o y =>
    some ⟨P.me.addr, o.addr, Message.bytes ⟨y, .storeReq q.1 (P.index.postings q.1).toList⟩⟩
  | .kept _ => none

theorem datagram_next (q : Bytes × UInt32) (p : Peer) :
    P.datagram q (Leg.next p.self p.ring.successor (RingId.hash q.1)) =
      some (p.relay q.2 P.me (RingId.hash q.1) lookupIndex) := by
  unfold Leg.next Peer.relay
  split <;> rfl

/-- The datagrams in flight under legs `σ`, in the order of the plan. -/
def inFlight (σ : Bytes → Leg) : List Datagram := P.plan.filterMap fun q => P.datagram q (σ q.1)

def weight (ids : List RingId) (σ : Bytes → Leg) : Nat :=
  (P.plan.map fun q => (σ q.1).weight ids (RingId.hash q.1)).sum

theorem terms_nodup : (P.plan.map Prod.fst).Nodup := by
  rw [P.terms_eq]
  exact P.ascending.imp fun h heq => by subst heq; simp [Bytes.lexLt_irrefl] at h

theorem eq_of_term {q q' : Bytes × UInt32} (hq : q ∈ P.plan) (hq' : q' ∈ P.plan)
    (h : q'.1 = q.1) : q' = q :=
  List.inj_on_of_nodup_map P.terms_nodup hq' hq h

theorem eq_of_id {q q' : Bytes × UInt32} (hq : q ∈ P.plan) (hq' : q' ∈ P.plan)
    (h : q'.2 = q.2) : q' = q :=
  List.inj_on_of_nodup_map P.ids_nodup hq' hq h

theorem split {q : Bytes × UInt32} (hq : q ∈ P.plan) :
    ∃ pre post, P.plan = pre ++ q :: post ∧ (∀ q' ∈ pre, q'.1 ≠ q.1) ∧ ∀ q' ∈ post, q'.1 ≠ q.1 := by
  obtain ⟨pre, post, hsplit⟩ := List.append_of_mem hq
  have hnd : (pre.map Prod.fst ++ q.1 :: post.map Prod.fst).Nodup := by
    simpa [hsplit] using P.terms_nodup
  refine ⟨pre, post, hsplit, fun q' hq' he => ?_, fun q' hq' he => ?_⟩
  · exact List.disjoint_of_nodup_append hnd (List.mem_map_of_mem hq') (by rw [he]; simp)
  · exact (List.nodup_cons.1 (List.nodup_append.1 hnd).2.1).1 (he ▸ List.mem_map_of_mem hq')

/-- The lookups still waiting under legs `σ`, in the order they were started. -/
def waitingLookups (σ : Bytes → Leg) : List (Pending PendingLookup) :=
  (P.plan.filter fun q => (σ q.1).waiting).map P.lookupOf

/-- The entries of the index still waiting under legs `σ`. -/
def waitingIndex (σ : Bytes → Leg) : TermMap := ⟨P.index.entries.filter fun e => (σ e.1).waiting⟩

section Update

variable {P} {σ : Bytes → Leg} {q : Bytes × UInt32}

theorem inFlight_update (hq : q ∈ P.plan) (leg : Leg) :
    ∃ A B, P.inFlight σ = A ++ (P.datagram q (σ q.1)).toList ++ B ∧
      P.inFlight (Function.update σ q.1 leg) = A ++ (P.datagram q leg).toList ++ B := by
  obtain ⟨pre, post, hsplit, hpre, hpost⟩ := P.split hq
  refine ⟨pre.filterMap fun q' => P.datagram q' (σ q'.1),
    post.filterMap fun q' => P.datagram q' (σ q'.1), ?_, ?_⟩
  · rw [inFlight, hsplit, List.filterMap_append, List.filterMap_cons]
    cases P.datagram q (σ q.1) <;> simp
  · rw [inFlight, hsplit, List.filterMap_append, List.filterMap_cons, Function.update_self,
      List.filterMap_congr fun q' hq' => by rw [Function.update_of_ne (hpre q' hq')],
      List.filterMap_congr (l := post) fun q' hq' => by rw [Function.update_of_ne (hpost q' hq')]]
    cases P.datagram q leg <;> simp

theorem perm_update {Q : List Datagram} (hQ : Q.Perm (P.inFlight σ)) {k : Nat} {d : Datagram}
    (hk : Q[k]? = some d) (hq : q ∈ P.plan) (hd : P.datagram q (σ q.1) = some d) (leg : Leg) :
    (Q.eraseIdx k ++ (P.datagram q leg).toList).Perm (P.inFlight (Function.update σ q.1 leg)) := by
  obtain ⟨A, B, h, h'⟩ := inFlight_update (σ := σ) hq leg
  rw [hd] at h
  obtain ⟨hlt, rfl⟩ := List.getElem?_eq_some_iff.1 hk
  have hrest : (Q.eraseIdx k).Perm (A ++ B) := by
    have h₁ := (List.getElem_cons_eraseIdx_perm hlt).trans hQ
    rw [h] at h₁
    exact (h₁.trans (by simp [List.perm_middle])).cons_inv
  rw [h', List.append_assoc]
  exact (hrest.append_right _).trans (by
    rw [List.append_assoc]
    exact List.Perm.append_left A List.perm_append_comm)

theorem weight_update (hq : q ∈ P.plan) (ids : List RingId) (leg : Leg) :
    P.weight ids (Function.update σ q.1 leg) + (σ q.1).weight ids (RingId.hash q.1) =
      P.weight ids σ + leg.weight ids (RingId.hash q.1) := by
  obtain ⟨pre, post, hsplit, hpre, hpost⟩ := P.split hq
  have hp : (pre.map fun q' => (Function.update σ q.1 leg q'.1).weight ids (RingId.hash q'.1)) =
      pre.map fun q' => (σ q'.1).weight ids (RingId.hash q'.1) :=
    List.map_congr_left fun q' hq' => by rw [Function.update_of_ne (hpre q' hq')]
  have hp' : (post.map fun q' => (Function.update σ q.1 leg q'.1).weight ids (RingId.hash q'.1)) =
      post.map fun q' => (σ q'.1).weight ids (RingId.hash q'.1) :=
    List.map_congr_left fun q' hq' => by rw [Function.update_of_ne (hpost q' hq')]
  simp only [weight, hsplit, List.map_append, List.map_cons, List.sum_append, List.sum_cons, hp, hp',
    Function.update_self]
  omega

theorem waitingLookups_all (hall : ∀ t, (σ t).waiting = true) :
    P.waitingLookups σ = P.plan.map P.lookupOf := by
  simp [waitingLookups, hall]

theorem waitingIndex_all (hall : ∀ t, (σ t).waiting = true) : P.waitingIndex σ = P.index := by
  simp [waitingIndex, hall]

theorem waitingLookups_congr {σ' : Bytes → Leg} (h : ∀ t, (σ' t).waiting = (σ t).waiting) :
    P.waitingLookups σ' = P.waitingLookups σ := by
  simp only [waitingLookups, h]

theorem waitingIndex_congr {σ' : Bytes → Leg} (h : ∀ t, (σ' t).waiting = (σ t).waiting) :
    P.waitingIndex σ' = P.waitingIndex σ := by
  simp only [waitingIndex, h]

theorem peek_waiting (hq : q ∈ P.plan) (hw : (σ q.1).waiting = true) :
    (⟨P.earlier ++ P.waitingLookups σ⟩ : Tracker PendingLookup).peek q.2 = some (P.lookupOf q) := by
  obtain ⟨pre, post, hsplit, hpre, -⟩ := P.split hq
  have hearlier : P.earlier.find? (·.tx == q.2) = none :=
    List.find?_eq_none.2 fun e he => by simpa using P.fresh e he q hq
  have hbefore : ((pre.filter fun q' => (σ q'.1).waiting).map P.lookupOf).find? (·.tx == q.2) = none := by
    refine List.find?_eq_none.2 fun e he => ?_
    obtain ⟨q', hq', rfl⟩ := List.mem_map.1 he
    have hq'p : q' ∈ P.plan := by
      rw [hsplit]
      exact List.mem_append_left _ (List.mem_of_mem_filter hq')
    have hne : q'.2 ≠ q.2 := fun h => hpre q' (List.mem_of_mem_filter hq') (by rw [P.eq_of_id hq hq'p h])
    simpa [lookupOf] using hne
  simp [Tracker.peek, waitingLookups, hsplit, List.filter_append, List.find?_append, hearlier, hw,
    hbefore, lookupOf]

theorem lookups_taken (hq : q ∈ P.plan) {leg : Leg} (hleg : leg.waiting = false) :
    (P.earlier ++ P.waitingLookups σ).filter (·.tx != q.2) =
      P.earlier ++ P.waitingLookups (Function.update σ q.1 leg) := by
  have hearlier : P.earlier.filter (·.tx != q.2) = P.earlier :=
    List.filter_eq_self.2 fun e he => by simpa using P.fresh e he q hq
  rw [List.filter_append, hearlier, waitingLookups, waitingLookups, List.filter_map, List.filter_filter]
  congr 2
  apply List.filter_congr
  intro q' hq'
  by_cases ht : q'.1 = q.1
  · obtain rfl := P.eq_of_term hq hq' ht
    simp [lookupOf, hleg]
  · have hid : q'.2 ≠ q.2 := fun h => ht (by rw [P.eq_of_id hq hq' h])
    simp [lookupOf, Function.update_of_ne ht, hid]

theorem find?_entries (hq : q ∈ P.plan) :
    ∃ e, P.index.entries.find? (·.1 == q.1) = some e ∧ e ∈ P.index.entries ∧ e.1 = q.1 ∧
      P.index.postings q.1 = e.2 := by
  have hmem : q.1 ∈ P.index.terms := by
    rw [← P.terms_eq]
    exact List.mem_map_of_mem hq
  obtain ⟨e, he, hte⟩ := List.mem_map.1 hmem
  obtain ⟨e', hfe'⟩ := Option.isSome_iff_exists.1
    (List.find?_isSome.2 ⟨e, he, by simp [hte]⟩ : (P.index.entries.find? (·.1 == q.1)).isSome)
  refine ⟨e', hfe', List.mem_of_find?_eq_some hfe', by simpa using List.find?_some hfe', ?_⟩
  simp [TermMap.postings, TermMap.find?, hfe']

theorem exact_postings (hq : q ∈ P.plan) :
    Body.Exact (.storeReq q.1 (P.index.postings q.1).toList) := by
  obtain ⟨e, -, he, hte, hpost⟩ := P.find?_entries hq
  rw [hpost, ← hte]
  exact P.exact e he

theorem find?_waitingIndex (hq : q ∈ P.plan) (hw : (σ q.1).waiting = true) :
    (P.waitingIndex σ).find? q.1 = some (P.index.postings q.1) := by
  obtain ⟨e, hfe, -, -, hpost⟩ := P.find?_entries hq
  have hfilter : (P.index.entries.filter fun e => (σ e.1).waiting).find? (·.1 == q.1) = some e := by
    rw [List.find?_filter, ← hfe]
    exact List.find?_congr fun x _ => by
      by_cases hx : x.1 = q.1
      · simp [hx, hw]
      · simp [hx]
  simp [waitingIndex, TermMap.find?, hfilter, hpost]

theorem erase_waitingIndex {leg : Leg} (hleg : leg.waiting = false) :
    (P.waitingIndex σ).erase q.1 = P.waitingIndex (Function.update σ q.1 leg) := by
  simp only [waitingIndex, TermMap.erase, List.filter_filter, TermMap.mk.injEq]
  apply List.filter_congr
  intro e _
  by_cases he : e.1 = q.1
  · simp [he, hleg]
  · simp [he]

end Update

end Publication

/-- The publisher's node under legs `σ`: a ring member at the publisher's reference that
still holds the terms whose legs wait in its index and still waits for their lookups. -/
structure Publication.Waits (P : Publication) (σ : Bytes → Leg) (n : Node) : Prop where
  self : n.self = P.me
  inRing : n.ring.inRing = true
  index : n.search.index.map = P.waitingIndex σ
  lookups : n.search.lookups.entries = P.earlier ++ P.waitingLookups σ

theorem Publication.Waits.congr {P : Publication} {σ σ' : Bytes → Leg} {n n' : Node}
    (h : P.Waits σ n) (hwait : ∀ t, (σ' t).waiting = (σ t).waiting)
    (he : n'.self = n.self ∧ n'.ring = n.ring ∧ n'.search.index = n.search.index ∧
      n'.search.lookups = n.search.lookups) : P.Waits σ' n' := by
  obtain ⟨hs, hr, hidx, hlk⟩ := he
  refine ⟨hs.trans h.self, by rw [hr, h.inRing], ?_, ?_⟩
  · rw [P.waitingIndex_congr hwait, hidx, h.index]
  · rw [P.waitingLookups_congr hwait, hlk, h.lookups]

/-- What holds while the terms of publication `P` are handed to their owners on the ring of
`c₀`, with legs `σ`: the ring is the ring of `c₀`; every leg is where the ring allows; the
queue holds exactly the datagrams in flight; the publisher waits as `σ` says; and each member
holds what it held in `c₀` and, if it is in the ring, the postings of the terms it has
kept. -/
structure Publishing (P : Publication) (c₀ : Cluster) (σ : Bytes → Leg) (c : Cluster) : Prop where
  ring : Cluster.SameRing c c₀
  legs : ∀ q ∈ P.plan, (σ q.1).Sound c₀ (RingId.hash q.1)
  queue : c.queue.toList.Perm (P.inFlight σ)
  publisher : ∃ n, c.members[P.member]? = some n ∧ P.Waits σ n
  stores : ∀ (j : Nat) (m m₀ : Node), c.members[j]? = some m → c₀.members[j]? = some m₀ →
    ∀ t x, m.search.store.map.Holds t x ↔
      m₀.search.store.map.Holds t x ∨ (Leg.KeptBy σ m t ∧ P.index.Holds t x)
  untouched : ∀ (j : Nat) (m m₀ : Node), c.members[j]? = some m → c₀.members[j]? = some m₀ →
    (∀ t ∈ P.index.terms, ¬ Leg.KeptBy σ m t) → m.search.store = m₀.search.store

namespace Cluster

theorem member_of_uncounted {a b : Array Node} (h : a.map Node.uncounted = b.map Node.uncounted)
    {j : Nat} {n : Node} (hj : b[j]? = some n) : ∃ m, a[j]? = some m ∧ m.uncounted = n.uncounted := by
  have h' := congrArg (fun x : Array Node => x[j]?) h
  simp only [Array.getElem?_map, hj, Option.map_some] at h'
  exact Option.map_eq_some_iff.1 h'

theorem SameRing.reach {c c₀ : Cluster} (hs : SameRing c c₀) (hn : c₀.Reaches) {r : NodeRef}
    (hr : c₀.InRing r) :
    ∃ j m, c.handlerOf r.addr = some j ∧ c.members[j]? = some m ∧ m.self = r ∧
      m.ring.inRing = true ∧ r.addr ∉ c.cut ∧ m.peer ∈ c₀.peers := by
  obtain ⟨n₀, hn₀, rfl, hin₀⟩ := hr
  obtain ⟨j, hj₀⟩ := Array.mem_iff_getElem?.1 hn₀
  have hpj : c₀.peers[j]? = some n₀.peer := by
    rw [getElem?_peers, hj₀]
    rfl
  obtain ⟨m, hm, hmp⟩ := hs.member_of_peer hpj
  have hp : n₀.peer ∈ c₀.peers := List.mem_of_getElem? hpj
  refine ⟨j, m, ?_, hm, congrArg Peer.self hmp, congrArg (·.ring.inRing) hmp ▸ hin₀, ?_, hmp ▸ hp⟩
  · rw [hs.handlerOf]
    exact hn.handler j n₀.peer hpj hin₀
  · rw [hs.cut]
    exact hn.uncut n₀.peer hp hin₀

theorem sameRing_taken (c : Cluster) (k : Nat) (d : Datagram) : SameRing (c.taken k d) c :=
  ⟨rfl, rfl, rfl⟩

theorem inRing_of_peer {c : Cluster} {p : Peer} (hp : p ∈ c.peers) (hin : p.ring.inRing = true) :
    c.InRing p.self := by
  obtain ⟨n, hn, rfl⟩ := List.mem_map.1 hp
  exact ⟨n, Array.mem_toList_iff.1 hn, rfl, hin⟩

theorem MembersOnWire.of_inRing {c : Cluster} (hw : c.MembersOnWire) {r : NodeRef}
    (hr : c.InRing r) : r.OnWire := by
  obtain ⟨n, hn, rfl, hin⟩ := hr
  exact hw n.peer (List.mem_map.2 ⟨n, Array.mem_toList_iff.2 hn, rfl⟩) hin

theorem SameRing.handler_unique {c c₀ : Cluster} (hs : SameRing c c₀) (hn : c₀.Reaches)
    {a : Address} {j j' : Nat} {m : Node} (hj : c.handlerOf a = some j)
    (hm : c.members[j']? = some m) (hin : m.ring.inRing = true) (ha : m.self.addr = a) : j' = j := by
  have hpj : c₀.peers[j']? = some m.peer := by
    rw [← hs.peers, getElem?_peers, hm]
    rfl
  have h := hn.handler j' m.peer hpj hin
  rw [← hs.handlerOf] at h
  exact Option.some.inj (h.symm.trans (ha ▸ hj))

theorem deliverAt_member {c : Cluster} {k : Nat} {d : Datagram} {j : Nat} {m : Node}
    (hd : c.queue.toList[k]? = some d) (hsrc : d.src ∉ c.cut) (hdst : d.dst ∉ c.cut)
    (hj : c.handlerOf d.dst = some j) (hm : c.members[j]? = some m) :
    c.deliverAt k = (c.taken k d).afterTurn j m ((Node.receive d.src d.data).run (c.startTurn m)).2 := by
  have hcut : (c.cut.contains d.src || c.cut.contains d.dst) = false := by simp [hsrc, hdst]
  have htk : c.taken k d =
      { c with
        queue := ⟨c.queue.toList.eraseIdx k, []⟩
        seen := c.seen.push ⟨d, false⟩ } := by
    simp only [taken, hcut]
  have hj' : (c.taken k d).handlerOf d.dst = some j := hj
  have hturn := turn_run (c := c.taken k d) hm (Node.receive d.src d.data)
  rw [htk] at hj' hturn
  unfold deliverAt deliverOne
  rw [hd]
  simp only [hcut, Bool.false_eq_true, ↓reduceIte, hj']
  rw [htk]
  exact hturn

theorem sameRing_afterTurn {c : Cluster} {i : Nat} {n : Node} (hi : c.members[i]? = some n)
    {t : Turn} (h : t.node.peer = n.peer) : SameRing (c.afterTurn i n t) c :=
  ⟨by rw [peers, peers, ← Array.toList_map, ← Array.toList_map, afterTurn,
    members_modify_map Node.peer hi h], rfl, rfl⟩

/-- A queued datagram handled by a member whose turn only moves its node, keeping its
reference and ring state, and sends `out`: the member is replaced by a node like the moved
one, the datagram leaves the queue and `out` joins it from the member's address. -/
theorem deliverAt_sendsVia {c : Cluster} {k : Nat} {d : Datagram} {j : Nat} {m n' : Node}
    {out : List (Address × Bytes)} (hd : c.queue.toList[k]? = some d) (hsrc : d.src ∉ c.cut)
    (hdst : d.dst ∉ c.cut) (hj : c.handlerOf d.dst = some j) (hm : c.members[j]? = some m)
    (hs : (Node.receive d.src d.data).SendsVia Node.uncounted (c.startTurn m) n' () out)
    (hp : n'.peer = m.peer) :
    ∃ m', m'.uncounted = n'.uncounted ∧ SameRing (c.deliverAt k) c ∧
      (c.deliverAt k).members = c.members.modify j (fun _ => m') ∧
      (c.deliverAt k).queue.toList =
        c.queue.toList.eraseIdx k ++ out.map fun p => ⟨m.self.addr, p.1, p.2⟩ := by
  obtain ⟨t', hrun, hsent⟩ := hs
  have hout : ({ c.startTurn m with node := n' } : Turn).outgoing.toList = [] := rfl
  rw [deliverAt_member hd hsrc hdst hj hm, hrun]
  refine ⟨t'.node, hsent.node, ?_, rfl, ?_⟩
  · exact (sameRing_afterTurn (c := c.taken k d) hm ((hsent.peer forgets_uncounted).trans hp)).trans
      (sameRing_taken c k d)
  · rw [afterTurn_queue, taken_queue, hsent.outgoing, hout, List.nil_append]

theorem related_of_modify {R : Node → Node → Prop} (hrefl : ∀ n, R n n) {xs : Array Node}
    {j : Nat} {m m' : Node} (hm : xs[j]? = some m) (hR : R m' m) {j' : Nat} {n : Node}
    (h : (xs.modify j fun _ => m')[j']? = some n) : ∃ n₀, xs[j']? = some n₀ ∧ R n n₀ := by
  rw [Array.getElem?_modify] at h
  split at h
  · next hjj =>
    subst hjj
    rw [hm] at h
    obtain rfl := Option.some.inj h
    exact ⟨m, hm, hR⟩
  · exact ⟨n, h, hrefl n⟩

theorem Routes.inRing_eq {c : Cluster} (hr : c.Routes) {r : NodeRef} (hr' : c.InRing r) {j : Nat}
    {m : Node} (hm : c.members[j]? = some m) (hin : m.ring.inRing = true) (hid : r.id = m.self.id) :
    r = m.self := by
  obtain ⟨n, hn, rfl, hnin⟩ := hr'
  obtain ⟨a, ha⟩ := Array.mem_iff_getElem?.1 hn
  have hpa : c.peers[a]? = some n.peer := by rw [getElem?_peers, ha]; rfl
  have hpj : c.peers[j]? = some m.peer := by rw [getElem?_peers, hm]; rfl
  obtain rfl := hr.index_unique hpa hpj hnin hin hid
  rw [ha] at hm
  obtain rfl := Option.some.inj hm
  rfl

theorem deliverAt_of_length_le {c : Cluster} {k : Nat} (hk : c.queue.toList.length ≤ k) :
    c.deliverAt k = c := by
  unfold deliverAt
  rw [List.getElem?_eq_none hk]

end Cluster

namespace Publishing

variable {P : Publication} {c₀ c c' : Cluster} {σ σ' : Bytes → Leg}

/-- A step that keeps every member's reference, ring state and store, moves the legs on to
legs kept by the same members, and leaves the publisher waiting as the new legs say, keeps
the invariant. -/
theorem of_kept (h : Publishing P c₀ σ c) (hring : Cluster.SameRing c' c₀)
    (hlegs : ∀ q ∈ P.plan, (σ' q.1).Sound c₀ (RingId.hash q.1))
    (hqueue : c'.queue.toList.Perm (P.inFlight σ'))
    (hpub : ∃ n, c'.members[P.member]? = some n ∧ P.Waits σ' n)
    (hkept : ∀ t o, σ' t = .kept o ↔ σ t = .kept o)
    (hmem : ∀ (j : Nat) (m' : Node), c'.members[j]? = some m' → ∃ m, c.members[j]? = some m ∧
      m'.self = m.self ∧ m'.ring = m.ring ∧ m'.search.store = m.search.store) :
    Publishing P c₀ σ' c' := by
  have hsame : ∀ (j : Nat) (m' : Node), c'.members[j]? = some m' → ∃ m, c.members[j]? = some m ∧
      (∀ t, Leg.KeptBy σ' m' t ↔ Leg.KeptBy σ m t) ∧ m'.search.store = m.search.store := by
    intro j m' hj
    obtain ⟨m, hm, hs, hr, hst⟩ := hmem j m' hj
    exact ⟨m, hm, fun t => by simp only [Leg.KeptBy, hkept, hs, hr], hst⟩
  refine ⟨hring, hlegs, hqueue, hpub, fun j m' m₀ hj hj₀ t x => ?_, fun j m' m₀ hj hj₀ hno => ?_⟩
  · obtain ⟨m, hm, hk, hst⟩ := hsame j m' hj
    rw [hst, hk]
    exact h.stores j m m₀ hm hj₀ t x
  · obtain ⟨m, hm, hk, hst⟩ := hsame j m' hj
    rw [hst]
    exact h.untouched j m m₀ hm hj₀ fun t ht hkt => hno t ht ((hk t).2 hkt)

theorem of_counted (h : Publishing P c₀ σ c) (hring : Cluster.SameRing c' c₀)
    (hlegs : ∀ q ∈ P.plan, (σ' q.1).Sound c₀ (RingId.hash q.1))
    (hqueue : c'.queue.toList.Perm (P.inFlight σ'))
    (hwait : ∀ t, (σ' t).waiting = (σ t).waiting) (hkept : ∀ t o, σ' t = .kept o ↔ σ t = .kept o)
    (hmem : c'.members.map Node.uncounted = c.members.map Node.uncounted) :
    Publishing P c₀ σ' c' := by
  have hsame : ∀ (j : Nat) (m' : Node), c'.members[j]? = some m' → ∃ m, c.members[j]? = some m ∧
      m'.self = m.self ∧ m'.ring = m.ring ∧ m'.search = m.search := by
    intro j m' hj
    obtain ⟨m, hm, he⟩ := Cluster.member_of_uncounted hmem.symm hj
    obtain ⟨hs, hr, hse, -⟩ := Node.eq_of_uncounted he
    exact ⟨m, hm, hs.symm, hr.symm, hse.symm⟩
  refine h.of_kept hring hlegs hqueue ?_ hkept fun j m' hj => ?_
  · obtain ⟨n, hn, hwaits⟩ := h.publisher
    obtain ⟨n', hn', he⟩ := Cluster.member_of_uncounted hmem hn
    obtain ⟨hs, hr, hse, -⟩ := Node.eq_of_uncounted he
    exact ⟨n', hn', hwaits.congr hwait ⟨hs, hr, by rw [hse], by rw [hse]⟩⟩
  · obtain ⟨m, hm, hs, hr, hse⟩ := hsame j m' hj
    exact ⟨m, hm, hs, hr, congrArg SearchState.store hse⟩

theorem inRing_me (h : Publishing P c₀ σ c) : c₀.InRing P.me := by
  obtain ⟨n, hn, hwaits⟩ := h.publisher
  have hp : n.peer ∈ c₀.peers := by
    rw [← h.ring.peers]
    exact List.mem_map.2 ⟨n, Array.mem_toList_iff.2 (Array.mem_of_getElem? hn), rfl⟩
  obtain ⟨n₀, hn₀, he⟩ := List.mem_map.1 hp
  exact ⟨n₀, Array.mem_toList_iff.1 hn₀, (congrArg Peer.self he).trans hwaits.self,
    (congrArg (·.ring.inRing) he).trans hwaits.inRing⟩

theorem legs_update (h : Publishing P c₀ σ c) {q : Bytes × UInt32} {leg : Leg}
    (hleg : leg.Sound c₀ (RingId.hash q.1)) :
    ∀ q' ∈ P.plan, (Function.update σ q.1 leg q'.1).Sound c₀ (RingId.hash q'.1) := by
  intro q' hq'
  by_cases ht : q'.1 = q.1
  · rw [ht, Function.update_self]
    exact hleg
  · rw [Function.update_of_ne ht]
    exact h.legs q' hq'

variable (hr : c₀.Routes) (hn : c₀.Reaches) (hw : c₀.MembersOnWire)
include hr hn hw

/-- A lookup's request reaches the member it is addressed to, which answers the publisher
with its successor, the key's owner, or passes the request on to its successor, nearer to
the key. -/
theorem deliver_asking (h : Publishing P c₀ σ c) {q : Bytes × UInt32} (hq : q ∈ P.plan)
    {src : Address} {holder : NodeRef} (hσ : σ q.1 = .asking src holder) {k : Nat}
    (hk : c.queue.toList[k]? = some ⟨src, holder.addr,
      Message.bytes ⟨q.2, .findSuccessorReq P.me (RingId.hash q.1) lookupIndex⟩⟩) :
    ∃ leg, Publishing P c₀ (Function.update σ q.1 leg) (c.deliverAt k) ∧
      leg.weight c₀.ringIds (RingId.hash q.1) < (σ q.1).weight c₀.ringIds (RingId.hash q.1) := by
  have hsound := h.legs q hq
  rw [hσ] at hsound
  obtain ⟨⟨r, hrin, rfl⟩, hhold⟩ := hsound
  obtain ⟨-, -, -, -, -, -, hsrc, -⟩ := h.ring.reach hn hrin
  obtain ⟨j, m, hj, hm, hmself, hmin, hdst, hmp⟩ := h.ring.reach hn hhold
  obtain ⟨s, hs, hsin, hsself, hfol⟩ := hr.successor m.peer hmp hmin
  have hl : (c.startTurn m).linkOpen = true :=
    Cluster.linkOpen_of_handlerOf (show c.handlerOf m.self.addr = some j by rw [hmself]; exact hj)
  obtain ⟨m', hun, hring, hmembers, hqueue⟩ := Cluster.deliverAt_sendsVia hk hsrc hdst hj hm
    (.of_sends (receive_request_relays (t := c.startTurn m) hmin hl (hw.of_inRing h.inRing_me)
      (hsself ▸ hw s hs hsin))) rfl
  let leg := Leg.next m.peer.self m.peer.ring.successor (RingId.hash q.1)
  have hsound : leg.Sound c₀ (RingId.hash q.1) :=
    Leg.next_sound (show c₀.InRing m.self from hmself ▸ hhold)
      (hsself ▸ Cluster.inRing_of_peer hs hsin) (hsself ▸ hfol)
  refine ⟨leg, h.of_counted (hring.trans h.ring) (h.legs_update hsound) ?_ ?_ ?_ ?_, ?_⟩
  · have hd : (⟨m.self.addr, (m.peer.relay q.2 P.me (RingId.hash q.1) lookupIndex).dst,
        (m.peer.relay q.2 P.me (RingId.hash q.1) lookupIndex).data⟩ : Datagram) =
        m.peer.relay q.2 P.me (RingId.hash q.1) lookupIndex := Peer.relay_eq m.peer _ _ _ _
    have hperm := Publication.perm_update h.queue hk hq (by rw [hσ]; rfl) leg
    rw [P.datagram_next, Option.toList_some] at hperm
    have hnode : (c.startTurn m).node = m := rfl
    rw [hqueue, hnode]
    simpa only [List.map_cons, List.map_nil, hd] using hperm
  · exact Leg.waiting_update (by rw [Leg.next_waiting, hσ]; rfl)
  · exact Leg.kept_update (by simp [hσ]) (Leg.next_ne_kept _ _ _)
  · rw [hmembers]
    exact Cluster.members_modify_map Node.uncounted hm hun
  · rw [hσ]
    show _ < Ring.arcCount c₀.ringIds holder.id (RingId.hash q.1) + 3
    rw [← hmself]
    exact Leg.next_weight_lt (hsself ▸ Cluster.mem_ringIds hs hsin)

omit hr in
theorem deliver_answered (h : Publishing P c₀ σ c) {q : Bytes × UInt32} (hq : q ∈ P.plan)
    {src : Address} {o : NodeRef} (hσ : σ q.1 = .answered src o) {k : Nat}
    (hk : c.queue.toList[k]? = some ⟨src, P.me.addr,
      Message.bytes ⟨q.2, .findSuccessorRsp o (RingId.hash q.1) lookupIndex⟩⟩) :
    ∃ leg, Publishing P c₀ (Function.update σ q.1 leg) (c.deliverAt k) ∧
      leg.weight c₀.ringIds (RingId.hash q.1) < (σ q.1).weight c₀.ringIds (RingId.hash q.1) := by
  have hsound := h.legs q hq
  rw [hσ] at hsound
  obtain ⟨⟨r, hrin, rfl⟩, hown⟩ := hsound
  obtain ⟨-, -, -, -, -, -, hsrc, -⟩ := h.ring.reach hn hrin
  obtain ⟨n, hpn, hwaits⟩ := h.publisher
  obtain ⟨j, m, hj, hm, -, -, hdst, -⟩ := h.ring.reach hn h.inRing_me
  obtain rfl : P.member = j := h.ring.handler_unique hn hj hpn hwaits.inRing (by rw [hwaits.self])
  obtain rfl : n = m := Option.some.inj (hpn.symm.trans hm)
  have hl : (c.startTurn n).linkOpen = true :=
    Cluster.linkOpen_of_handlerOf (show c.handlerOf n.self.addr = some P.member by
      rw [hwaits.self]; exact hj)
  have hwait : (σ q.1).waiting = true := by rw [hσ]; rfl
  have hpeek : (c.startTurn n).node.search.lookups.peek q.2 = some (P.lookupOf q) := by
    show Tracker.peek ⟨n.search.lookups.entries⟩ q.2 = _
    rw [hwaits.lookups]
    exact P.peek_waiting hq hwait
  have hfind : (c.startTurn n).node.search.index.map.find? q.1 = some (P.index.postings q.1) := by
    show n.search.index.map.find? q.1 = _
    rw [hwaits.index]
    exact P.find?_waitingIndex hq hwait
  obtain ⟨m', hun, hring, hmembers, hqueue⟩ := Cluster.deliverAt_sendsVia hk hsrc hdst hj hpn
    (receive_answer_stores (.of_onWire (hw.of_inRing hown.1)) hpeek hfind (P.exact_postings hq) hl)
    rfl
  obtain ⟨hs', hr', hse', -⟩ := Node.eq_of_uncounted hun
  let leg : Leg := .storing o (n.lastTx + 1)
  have hstop : leg.waiting = false := rfl
  have hsound : leg.Sound c₀ (RingId.hash q.1) := hown
  refine ⟨leg, h.of_kept (hring.trans h.ring) (h.legs_update hsound) ?_ ?_
    (Leg.kept_update (by simp [hσ]) (by simp [leg])) ?_, ?_⟩
  · have hperm := Publication.perm_update h.queue hk hq (by rw [hσ]; rfl) leg
    have hnode : (c.startTurn n).node = n := rfl
    rw [hqueue, hnode, hwaits.self]
    simpa [Publication.datagram, leg] using hperm
  · refine ⟨m', by simp [hmembers, Array.getElem?_modify, hpn], hs'.trans hwaits.self,
      hr' ▸ hwaits.inRing, ?_, ?_⟩
    · rw [hse']
      show (n.search.index.map.erase q.1) = _
      rw [hwaits.index]
      exact P.erase_waitingIndex hstop
    · rw [hse']
      show n.search.lookups.entries.filter (·.tx != q.2) = _
      rw [hwaits.lookups]
      exact P.lookups_taken hq hstop
  · intro j' m'' hj'
    rw [hmembers] at hj'
    exact Cluster.related_of_modify (R := fun a b => a.self = b.self ∧ a.ring = b.ring ∧
      a.search.store = b.search.store) (fun _ => ⟨rfl, rfl, rfl⟩) hpn ⟨hs', hr', by rw [hse']; rfl⟩ hj'
  · simp [leg, hσ, Leg.weight]

omit hr hw in
theorem deliver_storing (h : Publishing P c₀ σ c) {q : Bytes × UInt32} (hq : q ∈ P.plan)
    {o : NodeRef} {y : UInt32} (hσ : σ q.1 = .storing o y) {k : Nat}
    (hk : c.queue.toList[k]? = some ⟨P.me.addr, o.addr,
      Message.bytes ⟨y, .storeReq q.1 (P.index.postings q.1).toList⟩⟩) :
    ∃ leg, Publishing P c₀ (Function.update σ q.1 leg) (c.deliverAt k) ∧
      leg.weight c₀.ringIds (RingId.hash q.1) < (σ q.1).weight c₀.ringIds (RingId.hash q.1) := by
  have hown : c₀.OwnerOf (RingId.hash q.1) o := by simpa [hσ, Leg.Sound] using h.legs q hq
  obtain ⟨-, -, -, -, -, -, hsrc, -⟩ := h.ring.reach hn h.inRing_me
  obtain ⟨j, m, hj, hm, hmself, hmin, hdst, -⟩ := h.ring.reach hn hown.1
  obtain ⟨m', hun, hring, hmembers, hqueue⟩ := Cluster.deliverAt_sendsVia hk hsrc hdst hj hm
    (receive_store_keeps (P.exact_postings hq)) rfl
  obtain ⟨hs', hr', hse', -⟩ := Node.eq_of_uncounted hun
  have hself : m'.self = o := hs'.trans hmself
  have hring' : m'.ring = m.ring := hr'
  have hidx : m'.search.index = m.search.index := by rw [hse']; rfl
  have hlk : m'.search.lookups = m.search.lookups := by rw [hse']; rfl
  have hstore : m'.search.store = m.search.store.add q.1 (P.index.postings q.1).toList := by
    rw [hse']
    rfl
  let σ' := Function.update σ q.1 (.kept o)
  have hwait : ∀ t, (σ' t).waiting = (σ t).waiting := Leg.waiting_update (by rw [hσ]; rfl)
  have hother : ∀ j' m'', c.members[j']? = some m'' → j' ≠ j → ∀ t,
      Leg.KeptBy σ' m'' t ↔ Leg.KeptBy σ m'' t := by
    intro j' m'' hm'' hne t
    by_cases ht : t = q.1
    · subst ht
      simp only [Leg.KeptBy, σ', Function.update_self, hσ, Leg.kept.injEq, reduceCtorEq, and_false,
        iff_false, not_and]
      intro hin heq
      exact hne (h.ring.handler_unique hn hj hm'' hin (by rw [← heq]))
    · simp only [Leg.KeptBy, σ', Function.update_of_ne ht]
  have hkept : Leg.KeptBy σ' m' q.1 := ⟨hring' ▸ hmin, by simp [σ', hself]⟩
  refine ⟨.kept o, ⟨hring.trans h.ring, h.legs_update hown, ?_, ?_, ?_, ?_⟩, by simp [hσ, Leg.weight]⟩
  · rw [hqueue]
    simpa [Publication.datagram] using
      Publication.perm_update h.queue hk hq (by rw [hσ]; rfl) (.kept o)
  · obtain ⟨n, hpn, hwaits⟩ := h.publisher
    by_cases hpj : P.member = j
    · subst hpj
      obtain rfl : n = m := Option.some.inj (hpn.symm.trans hm)
      exact ⟨m', by simp [hmembers, Array.getElem?_modify, hpn],
        hwaits.congr hwait ⟨hs', hring', hidx, hlk⟩⟩
    · refine ⟨n, ?_, hwaits.congr hwait ⟨rfl, rfl, rfl, rfl⟩⟩
      rw [hmembers, Array.getElem?_modify, if_neg (Ne.symm hpj), hpn]
  · intro j' m'' m₀ hj' hj₀ t x
    rw [hmembers, Array.getElem?_modify] at hj'
    split at hj'
    · next hjj =>
      subst hjj
      rw [hm] at hj'
      obtain rfl := Option.some.inj hj'
      have hk' : Leg.KeptBy σ' m' t ↔ Leg.KeptBy σ m t ∨ t = q.1 := by
        by_cases ht : t = q.1
        · subst ht
          simp [hkept]
        · simp only [Leg.KeptBy, σ', Function.update_of_ne ht, hring', hself, hmself, ht, or_false]
      rw [hstore, Store.add, TermMap.holds_add, h.stores j m m₀ hm hj₀ t x, DocSet.mem_ofList,
        ← TermMap.holds_iff_postings P.ascending, hk']
      by_cases ht : t = q.1
      · subst ht
        tauto
      · simp [ht]
    · next hjj =>
      rw [hother j' m'' hj' (Ne.symm hjj)]
      exact h.stores j' m'' m₀ hj' hj₀ t x
  · intro j' m'' m₀ hj' hj₀ hno
    rw [hmembers, Array.getElem?_modify] at hj'
    split at hj'
    · next hjj =>
      subst hjj
      rw [hm] at hj'
      obtain rfl := Option.some.inj hj'
      exact absurd hkept (hno q.1 (P.terms_eq ▸ List.mem_map_of_mem hq))
    · next hjj =>
      exact h.untouched j' m'' m₀ hj' hj₀ fun t ht hkt =>
        hno t ht ((hother j' m'' hj' (Ne.symm hjj) t).2 hkt)

theorem deliverAt (h : Publishing P c₀ σ c) {k : Nat} (hk : k < c.queue.toList.length) :
    ∃ σ', Publishing P c₀ σ' (c.deliverAt k) ∧ P.weight c₀.ringIds σ' < P.weight c₀.ringIds σ := by
  have hd : c.queue.toList[k]? = some c.queue.toList[k] := List.getElem?_eq_getElem hk
  obtain ⟨q, hq, hqd⟩ := List.mem_filterMap.1 (h.queue.subset (List.getElem_mem hk))
  have hstep : ∃ leg, Publishing P c₀ (Function.update σ q.1 leg) (c.deliverAt k) ∧
      leg.weight c₀.ringIds (RingId.hash q.1) < (σ q.1).weight c₀.ringIds (RingId.hash q.1) := by
    rw [← hqd] at hd
    cases hσ : σ q.1 with
    | asking src holder =>
      rw [hσ] at hd
      rw [← hσ]
      exact h.deliver_asking hr hn hw hq hσ hd
    | answered src o =>
      rw [hσ] at hd
      rw [← hσ]
      exact h.deliver_answered hn hw hq hσ hd
    | storing o y =>
      rw [hσ] at hd
      rw [← hσ]
      exact h.deliver_storing hn hq hσ hd
    | kept o =>
      rw [hσ] at hqd
      cases hqd
  obtain ⟨leg, h', hlt⟩ := hstep
  have hw' := P.weight_update hq c₀.ringIds leg (σ := σ)
  exact ⟨_, h', by omega⟩

theorem delivering (h : Publishing P c₀ σ c) (hrun : Cluster.Delivering c c') :
    ∃ σ', Publishing P c₀ σ' c' := by
  refine Cluster.Run.invariant (I := fun c => ∃ σ, Publishing P c₀ σ c) ?_ hrun ⟨σ, h⟩
  rintro c₁ c₂ ⟨σ₁, h₁⟩ hstep
  cases hstep with
  | act hno => exact hno.elim
  | deliver k =>
    by_cases hk : k < c₁.queue.toList.length
    · obtain ⟨σ₂, h₂, -⟩ := h₁.deliverAt hr hn hw hk
      exact ⟨σ₂, h₂⟩
    · rw [Cluster.deliverAt_of_length_le (Nat.le_of_not_lt hk)]
      exact ⟨σ₁, h₁⟩

theorem drains (h : Publishing P c₀ σ c) :
    ∃ c', Cluster.Delivering c c' ∧ c'.queue.toList = [] := by
  induction hW : P.weight c₀.ringIds σ using Nat.strong_induction_on generalizing σ c with
  | _ W ih =>
    cases hq : c.queue.toList with
    | nil => exact ⟨c, .refl, hq⟩
    | cons d ds =>
      have hk : 0 < c.queue.toList.length := by simp [hq]
      obtain ⟨σ', h', hlt⟩ := h.deliverAt hr hn hw hk
      obtain ⟨c', hrun, hempty⟩ := ih _ (hW ▸ hlt) h' rfl
      exact ⟨c', .head (.deliver 0) hrun, hempty⟩

/-! ### Quiescence -/

omit hn hw

omit hr in
theorem kept_of_quiet (h : Publishing P c₀ σ c) (hq : c.queue.toList = []) {q : Bytes × UInt32}
    (hqp : q ∈ P.plan) : ∃ o, σ q.1 = .kept o ∧ c₀.OwnerOf (RingId.hash q.1) o := by
  have hnil : P.inFlight σ = [] := List.Perm.eq_nil (hq ▸ h.queue).symm
  have hnone : P.datagram q (σ q.1) = none := List.filterMap_eq_nil_iff.1 hnil q hqp
  have hsound := h.legs q hqp
  cases hσ : σ q.1 with
  | kept o =>
    rw [hσ] at hsound
    exact ⟨o, rfl, hsound⟩
  | _ =>
    rw [hσ] at hnone
    cases hnone

theorem keptBy_iff_owner (h : Publishing P c₀ σ c) (hq : c.queue.toList = [])
    {j : Nat} {m m₀ : Node} (hj : c.members[j]? = some m) (hj₀ : c₀.members[j]? = some m₀)
    {t : Bytes} (ht : t ∈ P.index.terms) :
    Leg.KeptBy σ m t ↔ m₀.ring.inRing = true ∧ Ring.FirstFrom c₀.ringIds (RingId.hash t) m₀.self.id := by
  rw [← P.terms_eq] at ht
  obtain ⟨q, hqp, rfl⟩ := List.mem_map.1 ht
  obtain ⟨o, hσ, ho, hfirst⟩ := h.kept_of_quiet hq hqp
  have hpeer : m.peer = m₀.peer := by
    have hp : c.peers[j]? = some m.peer := by rw [Cluster.getElem?_peers, hj]; rfl
    rw [h.ring.peers, Cluster.getElem?_peers, hj₀] at hp
    exact (Option.some.inj hp).symm
  have hself : m.self = m₀.self := congrArg Peer.self hpeer
  have hring : m.ring = m₀.ring := congrArg Peer.ring hpeer
  simp only [Leg.KeptBy, hσ, hself, hring, Leg.kept.injEq]
  constructor
  · rintro ⟨hin, rfl⟩
    exact ⟨hin, hfirst⟩
  · rintro ⟨hin, hfirst₀⟩
    exact ⟨hin, hr.inRing_eq ho hj₀ hin (Ring.FirstFrom.unique hfirst hfirst₀)⟩

/-- Once nothing is in flight: the publisher's index is empty and it waits only for the
lookups it waited for before; every member holds what it held in `c₀` and, if it owns a
term of the publication in the ring of `c₀`, that term's postings; and a member that owns no
term of the publication has the store it had. -/
theorem quiet (h : Publishing P c₀ σ c) (hq : c.queue.toList = []) :
    (∃ n, c.members[P.member]? = some n ∧ n.search.index.map = TermMap.empty ∧
      n.search.lookups.entries = P.earlier) ∧
    ∀ (j : Nat) (m m₀ : Node), c.members[j]? = some m → c₀.members[j]? = some m₀ →
      (∀ t x, m.search.store.map.Holds t x ↔ m₀.search.store.map.Holds t x ∨
        (m₀.ring.inRing = true ∧ Ring.FirstFrom c₀.ringIds (RingId.hash t) m₀.self.id ∧
          P.index.Holds t x)) ∧
      ((∀ t ∈ P.index.terms,
          ¬ (m₀.ring.inRing = true ∧ Ring.FirstFrom c₀.ringIds (RingId.hash t) m₀.self.id)) →
        m.search.store = m₀.search.store) := by
  have hstill : ∀ t ∈ P.index.terms, (σ t).waiting = false := by
    intro t ht
    rw [← P.terms_eq] at ht
    obtain ⟨q, hqp, rfl⟩ := List.mem_map.1 ht
    obtain ⟨o, hσ, -⟩ := h.kept_of_quiet hq hqp
    rw [hσ]
    rfl
  refine ⟨?_, fun j m m₀ hj hj₀ => ⟨fun t x => ?_, fun hno => ?_⟩⟩
  · obtain ⟨n, hn, hwaits⟩ := h.publisher
    refine ⟨n, hn, ?_, ?_⟩
    · rw [hwaits.index, Publication.waitingIndex, TermMap.empty, TermMap.mk.injEq,
        List.filter_eq_nil_iff]
      intro e he
      simpa using hstill e.1 (List.mem_map_of_mem he)
    · have hnone : P.waitingLookups σ = [] := by
        rw [Publication.waitingLookups, List.map_eq_nil_iff, List.filter_eq_nil_iff]
        intro q hq'
        simpa using hstill q.1 (P.terms_eq ▸ List.mem_map_of_mem hq')
      rw [hwaits.lookups, hnone, List.append_nil]
  · rw [h.stores j m m₀ hj hj₀ t x]
    refine or_congr_right ⟨?_, ?_⟩
    · rintro ⟨hk, hx⟩
      obtain ⟨hin, hfirst⟩ := (h.keptBy_iff_owner hr hq hj hj₀ hx.mem_terms).1 hk
      exact ⟨hin, hfirst, hx⟩
    · rintro ⟨hin, hfirst, hx⟩
      exact ⟨(h.keptBy_iff_owner hr hq hj hj₀ hx.mem_terms).2 ⟨hin, hfirst⟩, hx⟩
  · exact h.untouched j m m₀ hj hj₀ fun t ht hk =>
      hno t ht ((h.keptBy_iff_owner hr hq hj hj₀ ht).1 hk)

/-! ### The start -/

include hn hw

/-- A ring member of a quiescent cluster publishing an index it can hand over: right after
its turn, under legs that all start from it, the invariant holds for the publication of its
merged index, with the lookups it waited for before as the earlier ones. -/
theorem start (hq : c₀.queue.toList = []) {i : Nat} {n : Node} (hi : c₀.members[i]? = some n)
    (hin : n.ring.inRing = true) {K : Corpus} {ix : Index} (hK : n.search.index.map.Tidy K)
    (hix : ix.map.Within K) (hfresh : ∀ e ∈ n.search.lookups.entries, e.tx.toNat ≤ n.lastTx.toNat)
    (hroom : n.lastTx.toNat + (n.search.index.merge ix).terms.length < 2 ^ 32) :
    ∃ P σ, P.member = i ∧ P.me = n.self ∧ P.index = (n.search.index.merge ix).map ∧
      P.earlier = n.search.lookups.entries ∧ Publishing P c₀ σ (c₀.turn i (Search.publish ix)).2 := by
  have hnp : n.peer ∈ c₀.peers :=
    List.mem_map.2 ⟨n, Array.mem_toList_iff.2 (Array.mem_of_getElem? hi), rfl⟩
  have hpi : c₀.peers[i]? = some n.peer := by rw [Cluster.getElem?_peers, hi]; rfl
  have hme : c₀.InRing n.self := ⟨n, Array.mem_of_getElem? hi, rfl, hin⟩
  have hl : (c₀.startTurn n).linkOpen = true :=
    Cluster.linkOpen_of_handlerOf (hn.handler i n.peer hpi hin)
  obtain ⟨s, hs, hsin, hsself, hfol⟩ := hr.successor n.peer hnp hin
  have hsucc : n.ring.successor = s.self := hsself.symm
  have hfol' : Ring.Follows c₀.ringIds n.self.id n.ring.successor.id := hsucc ▸ hfol
  obtain ⟨t', hrun, hsent⟩ := publish_sendsVia ix (t := c₀.startTurn n) hin hl (hw.of_inRing hme)
    (hsucc ▸ hw s hs hsin)
  have htidy : (n.search.index.merge ix).map.Tidy K := hK.merge hix
  have hfresh' : ∀ e ∈ n.search.lookups.entries, ∀ q ∈ numbered n.lastTx (n.search.index.merge ix).terms,
      e.tx ≠ q.2 := by
    intro e he q hq heq
    have h₁ := (numbered_bounds hroom q hq).1
    have h₂ := hfresh e he
    rw [heq] at h₂
    omega
  let P : Publication :=
    { member := i
      me := n.self
      index := (n.search.index.merge ix).map
      plan := numbered n.lastTx (n.search.index.merge ix).terms
      earlier := n.search.lookups.entries
      sentAt := c₀.clock
      ascending := htidy.1
      terms_eq := numbered_fst _ _
      ids_nodup := numbered_nodup hroom
      fresh := hfresh'
      exact := fun e he => ⟨(htidy.2 e he).1, K.exactSet (htidy.2 e he).2⟩ }
  let σ : Bytes → Leg := fun t => Leg.next n.self n.ring.successor (RingId.hash t)
  have hwait : ∀ t, (σ t).waiting = true := fun t => Leg.next_waiting _ _ _
  refine ⟨P, σ, rfl, rfl, rfl, rfl, ?_⟩
  rw [Cluster.turn_run hi, hrun]
  let n₁ : Node := { n with search := { n.search with index := n.search.index.merge ix } }
  have hnode : t'.node.uncounted = (n₁.startLookups c₀.clock (n.search.index.merge ix).terms).uncounted :=
    hsent.node
  obtain ⟨hself, hring, hsearch, -⟩ := Node.eq_of_uncounted hnode
  obtain ⟨hself', hring', hindex', hstore'⟩ :=
    Node.startLookups_keeps n₁ c₀.clock (n.search.index.merge ix).terms
  have hlookups :=
    Node.startLookups_lookups n₁ c₀.clock (n.search.index.merge ix).terms hfresh' (numbered_nodup hroom)
  have hstore : t'.node.search.store = n.search.store := by rw [hsearch]; exact hstore'
  have hpeer : t'.node.peer = n.peer := by
    simp only [Node.peer, hself, hring]
    exact congrArg₂ Peer.mk hself' hring'
  have hnot : ∀ m t, ¬ Leg.KeptBy σ m t := fun m t hk => Leg.next_ne_kept _ _ _ _ hk.2
  refine ⟨Cluster.sameRing_afterTurn hi hpeer, fun q _ => Leg.next_sound hme
    (hsucc ▸ Cluster.inRing_of_peer hs hsin) hfol', ?_, ?_, ?_, ?_⟩
  · have hout : ({ c₀.startTurn n with node :=
        { n with search := { n.search with index := n.search.index.merge ix } } } : Turn).outgoing.toList = [] := rfl
    have hflight : P.inFlight σ = P.plan.map fun q => n.peer.relay q.2 n.self (RingId.hash q.1) lookupIndex := by
      simp only [Publication.inFlight, σ]
      exact List.filterMap_eq_map_iff_forall_eq_some.2 fun q _ => P.datagram_next q n.peer
    have hd : ∀ q : Bytes × UInt32, (⟨n.self.addr, (n.peer.relay q.2 n.self (RingId.hash q.1) lookupIndex).dst,
        (n.peer.relay q.2 n.self (RingId.hash q.1) lookupIndex).data⟩ : Datagram) =
        n.peer.relay q.2 n.self (RingId.hash q.1) lookupIndex := fun q => Peer.relay_eq n.peer _ _ _ _
    have hn₀ : (c₀.startTurn n).node = n := rfl
    rw [Cluster.afterTurn_queue, hq, hsent.outgoing, hout, hflight, hn₀]
    simp [Peer.hops, Function.comp_def, hd, P]
  · refine ⟨t'.node, by rw [Cluster.getElem?_afterTurn hi, if_pos rfl], ⟨hself.trans hself',
      by rw [hring, hring', hin], ?_, ?_⟩⟩
    · rw [hsearch, hindex', P.waitingIndex_all hwait]
    · rw [hsearch, hlookups, P.waitingLookups_all hwait]
      rfl
  · intro j m m₀ hj hj₀ t x
    rw [Cluster.getElem?_afterTurn hi] at hj
    split at hj
    · next hji =>
      subst hji
      rw [hi] at hj₀
      obtain rfl := Option.some.inj hj
      obtain rfl := Option.some.inj hj₀
      simp [hstore, hnot]
    · rw [hj] at hj₀
      obtain rfl := Option.some.inj hj₀
      simp [hnot]
  · intro j m m₀ hj hj₀ _
    rw [Cluster.getElem?_afterTurn hi] at hj
    split at hj
    · next hji =>
      subst hji
      rw [hi] at hj₀
      obtain rfl := Option.some.inj hj
      obtain rfl := Option.some.inj hj₀
      exact hstore
    · rw [hj] at hj₀
      obtain rfl := Option.some.inj hj₀
      rfl

end Publishing

namespace Cluster

/-- Publishing shards the index exactly. Outside the ring, publishing `ix` merges it into
the node's unpublished index `U`, answers `notInRing` and does nothing else; inside, it
answers with the number of terms of `U`. When the node is member `i` of a quiescent cluster
whose ring routes every key and reaches every member, and its terms and documents fit the
wire with room for the ids of its lookups, the deliveries that follow always can empty the
queue, and whenever they have: the member's index is empty, it waits for the lookups it
waited for before, every member holds what it held and, if it owns a term of `U`, that
term's postings in `U`, and a member owning no term of `U` has the store it had. -/
theorem publish_shards_index {c : Cluster} (hr : c.Routes) (hn : c.Reaches) (hw : c.MembersOnWire)
    (hq : c.queue.toList = []) {i : Nat} {n : Node} (hi : c.members[i]? = some n)
    (hin : n.ring.inRing = true) {K : Corpus} {ix : Index} (hK : n.search.index.map.Tidy K)
    (hix : ix.map.Within K) (hfresh : ∀ e ∈ n.search.lookups.entries, e.tx.toNat ≤ n.lastTx.toNat)
    (hroom : n.lastTx.toNat + (n.search.index.merge ix).terms.length < 2 ^ 32) :
    (∀ t : Turn, t.node.ring.inRing = false →
      (Search.publish ix).run t =
        (.error .notInRing, t.mapSearch fun s => { s with index := s.index.merge ix })) ∧
    (∀ t : Turn, t.node.ring.inRing = true →
      ((Search.publish ix).run t).1 = .ok (t.node.search.index.merge ix).terms.length) ∧
    (∃ c', Delivering (c.turn i (Search.publish ix)).2 c' ∧ c'.queue.toList = []) ∧
    ∀ c', Delivering (c.turn i (Search.publish ix)).2 c' → c'.queue.toList = [] →
      (∃ n', c'.members[i]? = some n' ∧ n'.search.index.map = TermMap.empty ∧
        n'.search.lookups.entries = n.search.lookups.entries) ∧
      ∀ (j : Nat) (m m₀ : Node), c'.members[j]? = some m → c.members[j]? = some m₀ →
        (∀ t x, m.search.store.map.Holds t x ↔ m₀.search.store.map.Holds t x ∨
          (m₀.ring.inRing = true ∧ Ring.FirstFrom c.ringIds (RingId.hash t) m₀.self.id ∧
            (n.search.index.merge ix).map.Holds t x)) ∧
        ((∀ t ∈ (n.search.index.merge ix).terms,
            ¬ (m₀.ring.inRing = true ∧ Ring.FirstFrom c.ringIds (RingId.hash t) m₀.self.id)) →
          m.search.store = m₀.search.store) := by
  refine ⟨fun t h => publish_run_of_not_inRing ix t h,
    fun t h => NodeM.run_of_triple publish_ok ⟨h, rfl⟩, ?_⟩
  obtain ⟨P, σ, hmember, -, hindex, hearlier, hP⟩ := Publishing.start hr hn hw hq hi hin hK hix hfresh hroom
  refine ⟨hP.drains hr hn hw, fun c' hrun hq' => ?_⟩
  obtain ⟨σ', hP'⟩ := hP.delivering hr hn hw hrun
  obtain ⟨⟨n', hn', hidx, hlk⟩, hstores⟩ := hP'.quiet hr hq'
  rw [hmember] at hn'
  rw [hearlier] at hlk
  rw [hindex] at hstores
  exact ⟨⟨n', hn', hidx, hlk⟩, hstores⟩

/-- The term `banana`. -/
def banana : Bytes := [98, 97, 110, 97, 110, 97]

/-- `doc1` under `apple`, which node 1 of `stillPair` owns, and under `banana`, which node 2
owns. -/
def fruitIndex : Index :=
  ⟨⟨[(apple, DocSet.empty.insert doc1), (banana, DocSet.empty.insert doc1)]⟩⟩

/-- Node 1 of `stillPair` publishing `fruitIndex`: it keeps `apple` and sends `banana` to
node 2. -/
theorem publish_shards_index_stillPair :
    stillPair.Routes ∧ stillPair.Reaches ∧ stillPair.MembersOnWire ∧ stillPair.queue.toList = [] ∧
    stillPair.members[0]? = some (pairedWith refOne refTwo) ∧
    (pairedWith refOne refTwo).ring.inRing = true ∧
    (pairedWith refOne refTwo).search.index.map.Tidy doc1Corpus ∧ fruitIndex.map.Within doc1Corpus ∧
    (∀ e ∈ (pairedWith refOne refTwo).search.lookups.entries,
      e.tx.toNat ≤ (pairedWith refOne refTwo).lastTx.toNat) ∧
    (pairedWith refOne refTwo).lastTx.toNat +
      ((pairedWith refOne refTwo).search.index.merge fruitIndex).terms.length < 2 ^ 32 ∧
    (∀ t : Turn, t.node.ring.inRing = false →
      (Search.publish fruitIndex).run t =
        (.error .notInRing, t.mapSearch fun s => { s with index := s.index.merge fruitIndex })) ∧
    (∀ t : Turn, t.node.ring.inRing = true →
      ((Search.publish fruitIndex).run t).1 =
        .ok (t.node.search.index.merge fruitIndex).terms.length) ∧
    (∃ c', Delivering (stillPair.turn 0 (Search.publish fruitIndex)).2 c' ∧ c'.queue.toList = []) ∧
    ∀ c', Delivering (stillPair.turn 0 (Search.publish fruitIndex)).2 c' → c'.queue.toList = [] →
      (∃ n', c'.members[0]? = some n' ∧ n'.search.index.map = TermMap.empty ∧
        n'.search.lookups.entries = (pairedWith refOne refTwo).search.lookups.entries) ∧
      ∀ (j : Nat) (m m₀ : Node), c'.members[j]? = some m → stillPair.members[j]? = some m₀ →
        (∀ t x, m.search.store.map.Holds t x ↔ m₀.search.store.map.Holds t x ∨
          (m₀.ring.inRing = true ∧
            Ring.FirstFrom stillPair.ringIds (RingId.hash t) m₀.self.id ∧
            ((pairedWith refOne refTwo).search.index.merge fruitIndex).map.Holds t x)) ∧
        ((∀ t ∈ ((pairedWith refOne refTwo).search.index.merge fruitIndex).terms,
            ¬ (m₀.ring.inRing = true ∧
              Ring.FirstFrom stillPair.ringIds (RingId.hash t) m₀.self.id)) →
          m.search.store = m₀.search.store) := by
  have hK : (pairedWith refOne refTwo).search.index.map.Tidy doc1Corpus := TermMap.tidy_empty
  have hix : fruitIndex.map.Within doc1Corpus := by decide
  have hfresh : ∀ e ∈ (pairedWith refOne refTwo).search.lookups.entries,
      e.tx.toNat ≤ (pairedWith refOne refTwo).lastTx.toNat := nofun
  have hroom : (pairedWith refOne refTwo).lastTx.toNat +
      ((pairedWith refOne refTwo).search.index.merge fruitIndex).terms.length < 2 ^ 32 := by
    decide
  exact ⟨stillPair_routes, stillPair_reaches, stillPair_membersOnWire, rfl, rfl, rfl, hK, hix,
    hfresh, hroom, publish_shards_index stillPair_routes stillPair_reaches stillPair_membersOnWire
      rfl rfl rfl hK hix hfresh hroom⟩

end Cluster

end ChordSearch
