import ChordSearch.Proofs.Ring.Lookup
import ChordSearch.Proofs.Wire.Decoded

/-! # Requests routed along successors always end

A find-successor request, for a finger or a lookup, and a join request travel alike: a ring
member whose successor owns the request's key answers it, any other member passes it on to
its successor (`Ring.findSuccessor`, `Ring.joinRequest`). The walk ends on every ring,
whatever its successor pointers: they need not be sorted, nor form a single cycle.

A member that passes a request on has a successor strictly between itself and the key
(`Arc.inside_of_not_owns`), so every hop lowers the number of ring members strictly between
the holder and the key (`Ring.arcCount_lt_of_inside`), and that number starts below the
number of ring members (`Ring.arcCount_lt_length`).

* `Routed`: the two requests and their keys.
* `Cluster.Chain c S`: the peers in `S` are ring members, reached by the network, whose
  successor is set and is again in `S`. For the members reached from a request's first
  holder by following successors, it is all the walk needs.
* `handle_forwards`: what a member that does not answer sends.
* `Cluster.route_deliver`, `Cluster.route_forward`: one delivery of the walk.
* `Cluster.routed_answered`: the whole walk. A request handed to a member of the chain is
  handled at most as many times as there are ring members, the last time by a member whose
  successor owns its key, and each handling is a delivery of the same request.
-/

namespace ChordSearch

open NodeM

/-- A request routed along successors to the member whose successor owns its key: a
find-successor request, for a finger or a lookup, keyed by its start; or a join request,
keyed by the joiner's position. -/
inductive Routed where
  | findSuccessor (node : NodeRef) (start : RingId) (index : UInt32)
  | join (landmark requester : NodeRef)

namespace Routed

/-- The body the request travels in. -/
def body : Routed → Body
  | findSuccessor n s i => .findSuccessorReq n s i
  | join l r => .joinReq l r

/-- The position whose owner the request looks for. -/
def key : Routed → RingId
  | findSuccessor _ s _ => s
  | join _ r => r.id

theorem exact_of_decode {q : Routed} {tx : UInt32} {data : Bytes}
    (h : Message.decode data = .ok ⟨tx, q.body⟩) : q.body.Exact := by
  have hr := Message.decode_refsExact h
  cases q <;> exact hr

end Routed

theorem handle_forwards {t : Turn} {src : Address} {tx : UInt32} {q : Routed}
    (hin : t.node.ring.inRing = true)
    (ho : Arc.owns t.node.self.id q.key t.node.ring.successor.id = false)
    (hset : t.node.ring.successor.addr.isSet = true) (hb : q.body.Exact)
    (hl : t.linkOpen = true) :
    (Node.handle src ⟨tx, q.body⟩).Sends Node.uncounted t ()
      [(t.node.ring.successor.addr, (⟨tx, q.body⟩ : Message).bytes)] := by
  have h : (send t.node.ring.successor.addr tx q.body).Sends Node.uncounted t ()
      [(t.node.ring.successor.addr, (⟨tx, q.body⟩ : Message).bytes)] :=
    send_sends forgets_uncounted hset hb hl
  obtain ⟨t', hrun, hsent⟩ := h
  refine ⟨t', ?_, hsent⟩
  cases q with
  | findSuccessor n s i =>
    simp only [Routed.key] at ho
    simpa [Node.handle, Routed.body, Ring.findSuccessor, ring, self, hin, ho] using hrun
  | join l r =>
    simp only [Routed.key] at ho
    simpa [Node.handle, Routed.body, Ring.joinRequest, ring, self, hin, ho] using hrun

namespace Cluster

/-- Peers closed under successor, which the network reaches: ring members whose successor is
set and is again one of them, each the member that datagrams to its address go to, at an
address not cut off. The successors may point anywhere among them. -/
structure Chain (c : Cluster) (S : Peer → Prop) : Prop where
  mem : ∀ p, S p → p ∈ c.peers
  inRing : ∀ p, S p → p.ring.inRing = true
  successor : ∀ p, S p → p.ring.successor.addr.isSet = true ∧ ∃ s, S s ∧ s.self = p.ring.successor
  handler : ∀ i p, c.peers[i]? = some p → S p → c.handlerOf p.self.addr = some i
  uncut : ∀ p, S p → p.self.addr ∉ c.cut

variable {c : Cluster} {S : Peer → Prop} {Q : List Datagram} {next : Cluster → Cluster}

/-- A delivery of the walk: the datagram queued last, from an address not cut off to a peer
of the chain, reaches that peer's member, which handles it; it is logged, and the rest of
the queue stays. -/
theorem route_deliver (hch : c.Chain S) (hnext : DeliversLast Q next)
    {c' : Cluster} (hc : c'.uncounted = c.uncounted) {p : Peer} (hp : S p) {d : Datagram}
    (hsrc : d.src ∉ c.cut) (hdst : d.dst = p.self.addr) (hq : c'.queue.toList = Q ++ [d]) :
    ∃ (j : Nat) (c₁ : Cluster), c.peers[j]? = some p ∧ c₁.uncounted = c.uncounted ∧
      c₁.queue.toList = Q ∧
      c₁.seen.toList = c'.seen.toList ++ [⟨d, false⟩] ∧
      next c' = (c₁.turn j (Node.receive d.src d.data)).2 := by
  obtain ⟨j, hj⟩ := List.mem_iff_getElem?.1 (hch.mem p hp)
  obtain ⟨Q', hQ', hstep⟩ := hnext c' d hq
  have hcQ : ({ c' with queue := Q' } : Cluster).uncounted = c.uncounted := hc
  have hring := sameRing_of_uncounted hcQ
  have hhandler : ({ c' with queue := Q' } : Cluster).handlerOf d.dst = some j := by
    rw [hring.handlerOf, hdst]
    exact hch.handler j p hj hp
  have hscut : d.src ∉ ({ c' with queue := Q' } : Cluster).cut := by
    rw [hring.cut]
    exact hsrc
  have hdcut : d.dst ∉ ({ c' with queue := Q' } : Cluster).cut := by
    rw [hring.cut, hdst]
    exact hch.uncut p hp
  obtain ⟨c₁, hc₁, hq₁, hs₁, hdeliver⟩ := deliverOne_member hscut hdcut hhandler
  refine ⟨j, c₁, hj, (hc₁ Node.uncounted).trans hcQ, by rw [hq₁, hQ'], by simp [hs₁], ?_⟩
  rw [hstep, hdeliver]

/-- A delivery that passes the request on: the member, whose successor does not own the key,
queues the request for its successor, again a peer of the chain, in place of the datagram it
was handed. -/
theorem route_forward (hch : c.Chain S) (hnext : DeliversLast Q next)
    {q : Routed} {tx : UInt32} (hb : q.body.Exact) {c' : Cluster}
    (hc : c'.uncounted = c.uncounted) {p : Peer} (hp : S p) {src : Address} (hsrc : src ∉ c.cut)
    {data : Bytes} (hdata : Message.decode data = .ok ⟨tx, q.body⟩)
    (ho : Arc.owns p.self.id q.key p.ring.successor.id = false)
    (hq : c'.queue.toList = Q ++ [⟨src, p.self.addr, data⟩]) :
    ∃ s, S s ∧ s.self = p.ring.successor ∧ (next c').uncounted = c.uncounted ∧
      (next c').queue.toList = Q ++ [⟨p.self.addr, s.self.addr, Message.bytes ⟨tx, q.body⟩⟩] ∧
      (next c').seen.toList = c'.seen.toList ++ [⟨⟨src, p.self.addr, data⟩, false⟩] := by
  obtain ⟨hset, s, hs, hself⟩ := hch.successor p hp
  obtain ⟨j, c₁, hj, hc₁, hq₁, hs₁, hstep⟩ := route_deliver hch hnext hc hp hsrc rfl hq
  obtain ⟨m, hm, hmp⟩ := (sameRing_of_uncounted hc₁).member_of_peer hj
  have hmself : m.self = p.self := congrArg Peer.self hmp
  have hopen : c₁.linkOpen m.self.addr = true := by
    have h : c₁.handlerOf m.self.addr = some j := by
      rw [(sameRing_of_uncounted hc₁).handlerOf, hmself]
      exact hch.handler j p hj hp
    exact linkOpen_of_handlerOf h
  have hsends : (Node.receive src data).Sends Node.uncounted (c₁.startTurn m) ()
      [(p.ring.successor.addr, (⟨tx, q.body⟩ : Message).bytes)] :=
    receive_sends forgets_uncounted src hdata fun t₁ h₁ => by
      have hpeer : t₁.node.peer = p := (h₁.peer forgets_uncounted).trans hmp
      have hring : t₁.node.ring = p.ring := congrArg Peer.ring hpeer
      have hselfp : t₁.node.self = p.self := congrArg Peer.self hpeer
      have hin : t₁.node.ring.inRing = true := by
        rw [hring]
        exact hch.inRing p hp
      have ho₁ : Arc.owns t₁.node.self.id q.key t₁.node.ring.successor.id = false := by
        rw [hselfp, hring]
        exact ho
      have hset₁ : t₁.node.ring.successor.addr.isSet = true := by
        rw [hring]
        exact hset
      have h := @handle_forwards t₁ src tx q hin ho₁ hset₁ hb (h₁.linkOpen.trans hopen)
      rwa [hring] at h
  obtain ⟨c₂, hturn, hc₂, hseen, hqueue⟩ := turn_sends hm hsends
  have hnext' : next c' = c₂ := by
    rw [hstep, hturn]
  refine ⟨s, hs, hself, ?_, ?_, ?_⟩
  · rw [hnext']
    exact hc₂.trans hc₁
  · rw [hnext', hqueue, hq₁, hmself, hself]
    rfl
  · rw [hnext', hseen, hs₁]

/-- The walk from the moment the request is queued for a peer `p` of the chain: it ends at a
peer whose successor owns the key, after at most one handling for each ring member strictly
between `p` and the key. The induction is on that number, which each hop lowers. -/
theorem route_walk (hch : c.Chain S) (hnext : DeliversLast Q next)
    {q : Routed} {tx : UInt32} (hb : q.body.Exact) (n : Nat) :
    ∀ (c' : Cluster) (p : Peer) (src : Address) (data : Bytes),
      c'.uncounted = c.uncounted → S p → src ∉ c.cut →
      Message.decode data = .ok ⟨tx, q.body⟩ → Ring.arcCount c.ringIds p.self.id q.key = n →
      c'.queue.toList = Q ++ [⟨src, p.self.addr, data⟩] →
      ∃ (reqs : List Delivery) (a : Peer) (j : Nat) (d : Datagram) (c₂ : Cluster),
        reqs.length ≤ n ∧
        (∀ e ∈ reqs ++ [⟨d, false⟩],
          e.dropped = false ∧ Message.decode e.datagram.data = .ok ⟨tx, q.body⟩) ∧
        c.peers[j]? = some a ∧ S a ∧ d.dst = a.self.addr ∧
        Arc.owns a.self.id q.key a.ring.successor.id = true ∧
        c₂.uncounted = c.uncounted ∧ c₂.queue.toList = Q ∧
        c₂.seen.toList = c'.seen.toList ++ reqs ++ [⟨d, false⟩] ∧
        next^[reqs.length + 1] c' = (c₂.turn j (Node.receive d.src d.data)).2 := by
  induction n using Nat.strong_induction_on with
  | _ n ih =>
  intro c' p src data hc hp hsrc hdata hk hq
  cases ho : Arc.owns p.self.id q.key p.ring.successor.id with
  | true =>
    obtain ⟨j, c₁, hj, hc₁, hq₁, hs₁, hstep⟩ := route_deliver hch hnext hc hp hsrc rfl hq
    refine ⟨[], p, j, ⟨src, p.self.addr, data⟩, c₁, Nat.zero_le _, ?_, hj, hp, rfl, ho, hc₁,
      hq₁, by simpa using hs₁, by simpa using hstep⟩
    simpa using hdata
  | false =>
    obtain ⟨s, hs, hself, hc', hq', hseen'⟩ :=
      route_forward hch hnext hb hc hp hsrc hdata ho hq
    have hlt : Ring.arcCount c.ringIds s.self.id q.key < n := by
      rw [← hk]
      refine Ring.arcCount_lt_of_inside (mem_ringIds (hch.mem s hs) (hch.inRing s hs)) ?_
      rw [hself]
      exact Arc.inside_of_not_owns ho
    obtain ⟨reqs, a, j, d, c₂, hlen, hreqs, hj, ha, hd, hao, hc₂, hq₂, hs₂, hrun⟩ :=
      ih _ hlt (next c') s p.self.addr _ hc' hs (hch.uncut p hp) (Message.decode_bytes hb) rfl hq'
    refine ⟨⟨⟨src, p.self.addr, data⟩, false⟩ :: reqs, a, j, d, c₂, ?_, ?_, hj, ha, hd, hao, hc₂,
      hq₂, ?_, ?_⟩
    · rw [List.length_cons]
      omega
    · intro e he
      rcases List.mem_cons.1 he with rfl | he
      · exact ⟨rfl, hdata⟩
      · exact hreqs e he
    · rw [hs₂, hseen']
      simp
    · rw [List.length_cons, Function.iterate_succ_apply, hrun]

/-- A find-successor or join request handed to a peer of a chain, and delivered before
anything queued earlier, is handled at most as many times as there are ring members, the
last time by a member whose successor owns the request's key. Every handling is a delivery
of the same request, and the rest of the queue is left as it was. -/
theorem routed_answered (hch : c.Chain S) (hnext : DeliversLast Q next)
    (q : Routed) (tx : UInt32) {p : Peer} (hp : S p) {src : Address} (hsrc : src ∉ c.cut)
    {data : Bytes} (hdata : Message.decode data = .ok ⟨tx, q.body⟩) {c' : Cluster}
    (hc : c'.uncounted = c.uncounted) (hq : c'.queue.toList = Q ++ [⟨src, p.self.addr, data⟩]) :
    ∃ (reqs : List Delivery) (a : Peer) (j : Nat) (d : Datagram) (c₂ : Cluster),
      reqs.length + 1 ≤ c.ringIds.length ∧
      (∀ e ∈ reqs ++ [⟨d, false⟩],
        e.dropped = false ∧ Message.decode e.datagram.data = .ok ⟨tx, q.body⟩) ∧
      c.peers[j]? = some a ∧ S a ∧ d.dst = a.self.addr ∧
      Arc.owns a.self.id q.key a.ring.successor.id = true ∧
      c₂.uncounted = c.uncounted ∧ c₂.queue.toList = Q ∧
      c₂.seen.toList = c'.seen.toList ++ reqs ++ [⟨d, false⟩] ∧
      next^[reqs.length + 1] c' = (c₂.turn j (Node.receive d.src d.data)).2 := by
  obtain ⟨reqs, a, j, d, c₂, hlen, hrest⟩ := route_walk hch hnext
    (Routed.exact_of_decode hdata) _ c' p src data hc hp hsrc hdata rfl hq
  -- the count of members before the key, from a ring member, is below the number of members
  have hbound := Ring.arcCount_lt_length (mem_ringIds (hch.mem p hp) (hch.inRing p hp)) q.key
  exact ⟨reqs, a, j, d, c₂, by omega, hrest⟩

/-- Node `1` at `10.0.0.1`. -/
def rhoA : NodeRef := NodeRef.make 1 (.v4 [10, 0, 0, 1])

/-- Node `2` at `10.0.0.2`. -/
def rhoB : NodeRef := NodeRef.make 2 (.v4 [10, 0, 0, 2])

/-- A ring member at `me` whose successor is `succ`. -/
def memberWith (me succ : NodeRef) : Node :=
  { self := me, config := {}, directory := ⟨[]⟩, lastTx := 0, reportsEvents := true,
    ring := { successor := succ, predecessor := NodeRef.unset, inRing := true } }

/-- Two ring members whose successors form no cycle through both: node `1` points at node
`2`, which points at itself. -/
def rhoRing : Cluster :=
  { members := #[memberWith rhoA rhoB, memberWith rhoB rhoB],
    endpoints := [⟨rhoA.addr, false⟩, ⟨rhoB.addr, false⟩] }

/-- `rhoRing` with a lookup of position zero, on behalf of node `1`, queued for node `1`. -/
def rhoLookup : Cluster :=
  { rhoRing with
    queue := ⟨[⟨rhoA.addr, rhoA.addr, Message.bytes ⟨7, .findSuccessorReq rhoA RingId.zero lookupIndex⟩⟩], []⟩ }

theorem rhoRing_peers : rhoRing.peers = [(memberWith rhoA rhoB).peer, (memberWith rhoB rhoB).peer] :=
  rfl

theorem rhoRing_chain : rhoRing.Chain (· ∈ rhoRing.peers) := by
  have hb : (memberWith rhoB rhoB).peer ∈ rhoRing.peers := by simp [rhoRing_peers]
  refine ⟨fun _ hp => hp, fun p hp => ?_, fun p hp => ?_, fun i p hp _ => ?_,
    fun p _ => List.not_mem_nil⟩
  · rw [rhoRing_peers] at hp
    rcases List.mem_pair.1 hp with rfl | rfl <;> rfl
  · -- both successors are node `2`
    rw [rhoRing_peers] at hp
    rcases List.mem_pair.1 hp with rfl | rfl <;> exact ⟨rfl, _, hb, rfl⟩
  · -- each member is the one its address reaches
    rw [rhoRing_peers] at hp
    match i, hp with
    | 0, hp =>
      cases hp
      decide
    | 1, hp =>
      cases hp
      decide

theorem routed_answered_rhoRing :
    rhoRing.Chain (· ∈ rhoRing.peers) ∧
    ∃ (reqs : List Delivery) (a : Peer) (j : Nat) (d : Datagram) (c₂ : Cluster),
      reqs.length + 1 ≤ rhoRing.ringIds.length ∧
      (∀ e ∈ reqs ++ [⟨d, false⟩], e.dropped = false ∧
        Message.decode e.datagram.data =
          .ok ⟨7, (Routed.findSuccessor rhoA RingId.zero lookupIndex).body⟩) ∧
      rhoRing.peers[j]? = some a ∧ a ∈ rhoRing.peers ∧ d.dst = a.self.addr ∧
      Arc.owns a.self.id (Routed.findSuccessor rhoA RingId.zero lookupIndex).key
        a.ring.successor.id = true ∧
      c₂.uncounted = rhoRing.uncounted ∧ c₂.queue.toList = [] ∧
      c₂.seen.toList = rhoLookup.seen.toList ++ reqs ++ [⟨d, false⟩] ∧
      deliverNewest^[reqs.length + 1] rhoLookup = (c₂.turn j (Node.receive d.src d.data)).2 := by
  have hA : (memberWith rhoA rhoB).peer ∈ rhoRing.peers := by simp [rhoRing_peers]
  have hdata : Message.decode (Message.bytes ⟨7, .findSuccessorReq rhoA RingId.zero lookupIndex⟩) =
      .ok ⟨7, (Routed.findSuccessor rhoA RingId.zero lookupIndex).body⟩ :=
    Message.decode_bytes (NodeRef.Exact.of_onWire ⟨[10, 0, 0, 1], rfl, rfl, by decide⟩)
  exact ⟨rhoRing_chain, routed_answered rhoRing_chain (deliversLast_newest []) _ 7 hA
    List.not_mem_nil hdata rfl rfl⟩

end Cluster

end ChordSearch
