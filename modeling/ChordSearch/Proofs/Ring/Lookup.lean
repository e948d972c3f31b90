import ChordSearch.Proofs.Cluster.Delivery

/-! # Lookups reach the owner of their key

A request for the owner of a key walks the ring: a member whose successor owns the key
answers the requester, any other member passes the request to its successor
(`Ring.findSuccessor`). On a ring whose successor pointers route (`Cluster.Routes`), over a
network that reaches every member (`Cluster.Reaches`) and a wire that carries every member's
reference (`Cluster.MembersOnWire`), the walk ends at the owner, the first member clockwise
from the key (`Ring.FirstFrom`), and it does so without help: each delivery hands exactly
one datagram on.

* `findSuccessor_sends`: what one member sends, `Peer.relay`.
* `Cluster.relay_answer`, `Cluster.relay_forward`: one delivery of the walk, at the member
  before the owner and at any other member.
* `Cluster.walk_answers`: the whole walk, by induction on the number of members between the
  member holding the request and the owner. The requester ends up handling exactly one
  answer, naming the owner, after one request handling per member passed.
* `Cluster.resolve_reaches_owner`: a lookup started by `Ring.resolve` at a ring member,
  with every datagram it causes delivered newest first, so that nothing else in the queue
  interleaves, ends with the member's search layer told the owner once, after fewer request
  handlings than there are members.
-/

namespace ChordSearch

open NodeM

/-- What ring member `p` sends when asked, under `tx`, for the owner of `key` on behalf of
`r`: the answer to `r` when its successor owns the key, the request passed on to its
successor otherwise. -/
def Peer.relay (p : Peer) (tx : UInt32) (r : NodeRef) (key : RingId) (idx : UInt32) : Datagram :=
  if Arc.owns p.self.id key p.ring.successor.id then
    ⟨p.self.addr, r.addr, Message.bytes ⟨tx, .findSuccessorRsp p.ring.successor key idx⟩⟩
  else
    ⟨p.self.addr, p.ring.successor.addr, Message.bytes ⟨tx, .findSuccessorReq r key idx⟩⟩

theorem Peer.relay_eq (p : Peer) (tx : UInt32) (r : NodeRef) (key : RingId) (idx : UInt32) :
    (⟨p.self.addr, (p.relay tx r key idx).dst, (p.relay tx r key idx).data⟩ : Datagram) =
      p.relay tx r key idx := by
  unfold relay
  split <;> rfl

theorem findSuccessor_sends {t : Turn} {tx idx : UInt32} {r : NodeRef} {key : RingId}
    (hin : t.node.ring.inRing = true) (hl : t.linkOpen = true) (hr : r.OnWire)
    (hs : t.node.ring.successor.OnWire) :
    (Ring.findSuccessor tx r key idx).Sends Node.uncounted t ()
      [((t.node.peer.relay tx r key idx).dst, (t.node.peer.relay tx r key idx).data)] := by
  by_cases ho : Arc.owns t.node.self.id key t.node.ring.successor.id = true
  · have h : (send r.addr tx (.findSuccessorRsp t.node.ring.successor key idx)).Sends
        Node.uncounted t ()
        [(r.addr, (⟨tx, .findSuccessorRsp t.node.ring.successor key idx⟩ : Message).bytes)] :=
      send_sends forgets_uncounted hr.isSet (NodeRef.Exact.of_onWire hs) hl
    obtain ⟨t', hrun, hsent⟩ := h
    refine ⟨t', ?_, ?_⟩
    · simp [Ring.findSuccessor, ring, self, hin, ho, hrun]
    · simpa [Peer.relay, Node.peer, ho] using hsent
  · have h : (send t.node.ring.successor.addr tx (.findSuccessorReq r key idx)).Sends
        Node.uncounted t ()
        [(t.node.ring.successor.addr, (⟨tx, .findSuccessorReq r key idx⟩ : Message).bytes)] :=
      send_sends forgets_uncounted hs.isSet (NodeRef.Exact.of_onWire hr) hl
    obtain ⟨t', hrun, hsent⟩ := h
    refine ⟨t', ?_, ?_⟩
    · simp [Ring.findSuccessor, ring, self, hin, ho, hrun]
    · simpa [Peer.relay, Node.peer, ho] using hsent

theorem resolve_sends {t : Turn} {tx : UInt32} {key : RingId} (hin : t.node.ring.inRing = true)
    (hl : t.linkOpen = true) (hr : t.node.self.OnWire) (hs : t.node.ring.successor.OnWire) :
    (Ring.resolve key tx).Sends Node.uncounted t (.ok ())
      [((t.node.peer.relay tx t.node.self key lookupIndex).dst,
        (t.node.peer.relay tx t.node.self key lookupIndex).data)] := by
  obtain ⟨t', hrun, hsent⟩ := @findSuccessor_sends t tx lookupIndex t.node.self key hin hl hr hs
  refine ⟨t', ?_, hsent⟩
  simp [Ring.resolve, ring, self, hin, hrun]
  rfl

theorem foundSuccessor_lookup (tx : UInt32) (owner : NodeRef) (key : RingId) :
    Ring.foundSuccessor tx owner key lookupIndex = Search.lookupResolved owner key tx := by
  simp [Ring.foundSuccessor]

namespace Cluster

variable {c : Cluster} {q : List Datagram} {next : Cluster → Cluster} {tx idx : UInt32}
  {key : RingId}

theorem relay_answer (hr : c.Routes) (hn : c.Reaches) (hw : c.MembersOnWire)
    (hnext : DeliversLast q next) {i : Nat} {rp : Peer} (hi : c.peers[i]? = some rp)
    (hrin : rp.ring.inRing = true) {c' : Cluster} (hc : c'.uncounted = c.uncounted) {p : Peer}
    (hp : p ∈ c.peers) (hpin : p.ring.inRing = true)
    (ho : Arc.owns p.self.id key p.ring.successor.id = true)
    (hq : c'.queue.toList = q ++ [p.relay tx rp.self key idx]) :
    ∃ c₂ : Cluster, c₂.uncounted = c.uncounted ∧ c₂.queue.toList = q ∧
      c₂.seen.toList = c'.seen.toList ++ [⟨p.relay tx rp.self key idx, false⟩] ∧
      next c' = (c₂.turn i (Ring.foundSuccessor tx p.ring.successor key idx)).2 := by
  have hd : p.relay tx rp.self key idx = ⟨p.self.addr, rp.self.addr,
      Message.bytes ⟨tx, .findSuccessorRsp p.ring.successor key idx⟩⟩ := by
    simp [Peer.relay, ho]
  rw [hd] at hq ⊢
  obtain ⟨Q, hQ, hstep⟩ := hnext c' _ hq
  obtain ⟨s, hs, hsin, hself, -⟩ := hr.successor p hp hpin
  have hbody : Body.Exact (.findSuccessorRsp p.ring.successor key idx) :=
    NodeRef.Exact.of_onWire (hself ▸ hw s hs hsin)
  have hrp : rp ∈ c.peers := List.mem_of_getElem? hi
  have hcQ : ({ c' with queue := Q } : Cluster).uncounted = c.uncounted := hc
  have hcut : c'.cut = c.cut := (sameRing_of_uncounted hc).cut
  have hsrc : p.self.addr ∉ c'.cut := hcut ▸ hn.uncut p hp hpin
  have hdst : rp.self.addr ∉ c'.cut := hcut ▸ hn.uncut rp hrp hrin
  have hhandler : ({ c' with queue := Q } : Cluster).handlerOf rp.self.addr = some i := by
    rw [(sameRing_of_uncounted hcQ).handlerOf]
    exact hn.handler i rp hi hrin
  obtain ⟨c₁, hc₁, hq₁, hs₁, hdeliver⟩ := deliverOne_member (c := { c' with queue := Q })
    (d := ⟨p.self.addr, rp.self.addr, Message.bytes ⟨tx, .findSuccessorRsp p.ring.successor key idx⟩⟩)
    hsrc hdst hhandler
  rw [hstep, hdeliver, receive_eq (Message.decode_bytes hbody)]
  obtain ⟨m, hm, -⟩ := (sameRing_of_uncounted ((hc₁ Node.uncounted).trans hcQ)).member_of_peer hi
  rw [turn_bind forgets_uncounted _ hm (modifyMetrics_sends forgets_uncounted _ _)]
  obtain ⟨c₂, hturn, hc₂, hseen, hqueue⟩ := turn_sends hm (modifyMetrics_sends forgets_uncounted _ _)
  refine ⟨c₂, hc₂.trans ((hc₁ Node.uncounted).trans hcQ), ?_, ?_, ?_⟩
  · simpa [hq₁, hQ] using hqueue
  · simp [hseen, hs₁]
  · rw [hturn]
    rfl

/-- Any other delivery of the walk: a member whose successor does not own the key passes
the request on, and the successor, a member, relays it in turn; the datagram is replaced by
the successor's. -/
theorem relay_forward (hr : c.Routes) (hn : c.Reaches) (hw : c.MembersOnWire)
    (hnext : DeliversLast q next) {r : NodeRef} (hro : r.OnWire) {c' : Cluster}
    (hc : c'.uncounted = c.uncounted) {p : Peer} (hp : p ∈ c.peers) (hpin : p.ring.inRing = true)
    (ho : Arc.owns p.self.id key p.ring.successor.id = false)
    (hq : c'.queue.toList = q ++ [p.relay tx r key idx]) :
    ∃ s ∈ c.peers, s.ring.inRing = true ∧ s.self = p.ring.successor ∧
      Ring.Follows c.ringIds p.self.id s.self.id ∧ (next c').uncounted = c.uncounted ∧
      (next c').queue.toList = q ++ [s.relay tx r key idx] ∧
      (next c').seen.toList = c'.seen.toList ++ [⟨p.relay tx r key idx, false⟩] := by
  obtain ⟨s, hs, hsin, hself, hfol⟩ := hr.successor p hp hpin
  refine ⟨s, hs, hsin, hself, hfol, ?_⟩
  have hd : p.relay tx r key idx =
      ⟨p.self.addr, s.self.addr, Message.bytes ⟨tx, .findSuccessorReq r key idx⟩⟩ := by
    simp [Peer.relay, ho, hself]
  rw [hd] at hq ⊢
  obtain ⟨Q, hQ, hstep⟩ := hnext c' _ hq
  obtain ⟨j, hj⟩ := List.mem_iff_getElem?.1 hs
  have hcQ : ({ c' with queue := Q } : Cluster).uncounted = c.uncounted := hc
  have hcut : c'.cut = c.cut := (sameRing_of_uncounted hc).cut
  have hsrc : p.self.addr ∉ c'.cut := hcut ▸ hn.uncut p hp hpin
  have hdst : s.self.addr ∉ c'.cut := hcut ▸ hn.uncut s hs hsin
  have hhandler : ({ c' with queue := Q } : Cluster).handlerOf s.self.addr = some j := by
    rw [(sameRing_of_uncounted hcQ).handlerOf]
    exact hn.handler j s hj hsin
  have hbody : Body.Exact (.findSuccessorReq r key idx) := NodeRef.Exact.of_onWire hro
  obtain ⟨c₁, hc₁, hq₁, hs₁, hdeliver⟩ := deliverOne_member (c := { c' with queue := Q })
    (d := ⟨p.self.addr, s.self.addr, Message.bytes ⟨tx, .findSuccessorReq r key idx⟩⟩)
    hsrc hdst hhandler
  rw [hstep, hdeliver]
  obtain ⟨m, hm, hmp⟩ := (sameRing_of_uncounted ((hc₁ Node.uncounted).trans hcQ)).member_of_peer hj
  have hmself : m.self = s.self := congrArg Peer.self hmp
  obtain ⟨s', hs', hs'in, hself', -⟩ := hr.successor s hs hsin
  have hopen : c₁.linkOpen m.self.addr = true := by
    have h : c₁.handlerOf m.self.addr = some j := by
      rw [(sameRing_of_uncounted (hc₁ Node.uncounted)).handlerOf, hmself]
      exact hhandler
    exact linkOpen_of_handlerOf h
  have hsends : (Node.receive p.self.addr (Message.bytes ⟨tx, .findSuccessorReq r key idx⟩)).Sends
      Node.uncounted (c₁.startTurn m) () [((s.relay tx r key idx).dst, (s.relay tx r key idx).data)] :=
    receive_sends forgets_uncounted _ (Message.decode_bytes hbody) fun t₁ h₁ => by
    have hpeer : t₁.node.peer = s := (h₁.peer forgets_uncounted).trans hmp
    have hring : t₁.node.ring = s.ring := congrArg Peer.ring hpeer
    have h := @findSuccessor_sends t₁ tx idx r key (hring ▸ hsin) (h₁.linkOpen.trans hopen) hro
      (hring ▸ hself' ▸ hw s' hs' hs'in)
    rw [hpeer] at h
    exact h
  obtain ⟨c₂, hturn, hc₂, hseen, hqueue⟩ := turn_sends hm hsends
  rw [hturn]
  refine ⟨hc₂.trans ((hc₁ Node.uncounted).trans hcQ), ?_, by simp [hseen, hs₁]⟩
  rw [hqueue, hq₁, hQ, hmself]
  simp [Peer.relay_eq]

/-- The whole walk, from the moment member `p` has relayed the request: it ends at the
owner of the key, the first member clockwise from it, after one request handling for each
member between `p` and the owner; the requester, member `i`, then handles the owner's
answer, the only answer of the walk, and the queue holds what it held before the walk. The
induction is on the number of members between `p` and the owner, which each forwarding
lowers by one. -/
theorem walk_answers (hr : c.Routes) (hn : c.Reaches) (hw : c.MembersOnWire)
    (hnext : DeliversLast q next) {i : Nat} {rp : Peer} (hi : c.peers[i]? = some rp)
    (hrin : rp.ring.inRing = true) {oid : RingId} (hown : Ring.FirstFrom c.ringIds key oid)
    (k : Nat) :
    ∀ (c' : Cluster) (p : Peer), c'.uncounted = c.uncounted → p ∈ c.peers →
      p.ring.inRing = true → Ring.arcCount c.ringIds p.self.id oid = k →
      c'.queue.toList = q ++ [p.relay tx rp.self key idx] →
      ∃ (owner : NodeRef) (reqs : List Delivery) (src : Address) (c₂ : Cluster),
        owner.id = oid ∧ owner ∈ c.ringMembers ∧ reqs.length = k ∧
        (∀ e ∈ reqs, e.dropped = false ∧
          e.datagram.data = Message.bytes ⟨tx, .findSuccessorReq rp.self key idx⟩) ∧
        c₂.uncounted = c.uncounted ∧ c₂.queue.toList = q ∧
        c₂.seen.toList = c'.seen.toList ++ reqs ++
          [⟨⟨src, rp.self.addr, Message.bytes ⟨tx, .findSuccessorRsp owner key idx⟩⟩, false⟩] ∧
        next^[k + 1] c' = (c₂.turn i (Ring.foundSuccessor tx owner key idx)).2 := by
  have hro : rp.self.OnWire := hw rp (List.mem_of_getElem? hi) hrin
  induction k with
  | zero =>
    intro c' p hc hp hpin hk hq
    obtain ⟨s, hs, hsin, hself, hfol⟩ := hr.successor p hp hpin
    have hso : s.self.id = oid := by
      by_contra hne
      have := Ring.arcCount_follows hr.nodup (mem_ringIds hp hpin) hfol hown.1 hne
      omega
    have ho : Arc.owns p.self.id key p.ring.successor.id = true := by
      rw [← hself, Ring.owns_iff_firstFrom (mem_ringIds hp hpin) hfol, hso]
      exact hown
    obtain ⟨c₂, hc₂, hq₂, hs₂, hstep⟩ := relay_answer hr hn hw hnext hi hrin hc hp hpin ho hq
    refine ⟨s.self, [], p.self.addr, c₂, hso, mem_ringMembers hs hsin, rfl, by simp, hc₂, hq₂,
      ?_, ?_⟩
    · rw [hs₂]
      simp [Peer.relay, ho, hself]
    · rw [Function.iterate_one, hstep, hself]
  | succ k ih =>
    intro c' p hc hp hpin hk hq
    obtain ⟨s, hs, hsin, hself, hfol⟩ := hr.successor p hp hpin
    have hso : s.self.id ≠ oid := by
      intro heq
      rw [← heq, hfol.arcCount_eq_zero] at hk
      omega
    have ho : Arc.owns p.self.id key p.ring.successor.id = false := by
      rw [← Bool.not_eq_true, ← hself, Ring.owns_iff_firstFrom (mem_ringIds hp hpin) hfol]
      exact fun h => hso (h.unique hown)
    obtain ⟨s', hs', hs'in, hself', hfol', hc', hq', hseen'⟩ :=
      relay_forward hr hn hw hnext hro hc hp hpin ho hq
    have hss : s'.self = s.self := hself'.trans hself.symm
    have hk' : Ring.arcCount c.ringIds s'.self.id oid = k := by
      have := Ring.arcCount_follows hr.nodup (mem_ringIds hp hpin) hfol' hown.1 (hss ▸ hso)
      omega
    obtain ⟨owner, reqs, src, c₂, ho₁, ho₂, hlen, hreqs, hc₂, hq₂, hs₂, hrun⟩ :=
      ih (next c') s' hc' hs' hs'in hk' hq'
    refine ⟨owner, ⟨p.relay tx rp.self key idx, false⟩ :: reqs, src, c₂, ho₁, ho₂,
      by simp [hlen], ?_, hc₂, hq₂, ?_, ?_⟩
    · intro e he
      rcases List.mem_cons.1 he with rfl | he
      · simp [Peer.relay, ho]
      · exact hreqs e he
    · rw [hs₂, hseen']
      simp
    · rw [Function.iterate_succ_apply, hrun]

/-- A lookup of `key` started by `Ring.resolve` under `tx` at ring member `i`, with every
datagram it causes delivered newest first, so that nothing queued before it interleaves:
the member's search layer is told the owner exactly once, the owner being the first member
clockwise from the key, after fewer request handlings than there are members. Every delivery
before the answer is a request of this lookup, and the walk leaves the queue as it found it. -/
theorem resolve_reaches_owner {c : Cluster} (hr : c.Routes) (hn : c.Reaches)
    (hw : c.MembersOnWire) {i : Nat} {n : Node} (hi : c.members[i]? = some n)
    (hin : n.ring.inRing = true) (key : RingId) (tx : UInt32) :
    ∃ (c₁ : Cluster) (owner : NodeRef) (reqs : List Delivery) (src : Address) (c₂ : Cluster),
      c.turn i (Ring.resolve key tx) = (some (.ok ()), c₁) ∧
      Ring.FirstFrom c.ringIds key owner.id ∧ owner ∈ c.ringMembers ∧
      reqs.length < c.ringIds.length ∧
      (∀ e ∈ reqs, e.dropped = false ∧
        e.datagram.data = Message.bytes ⟨tx, .findSuccessorReq n.self key lookupIndex⟩) ∧
      c₂.uncounted = c.uncounted ∧ c₂.queue.toList = c.queue.toList ∧
      c₂.seen.toList = c.seen.toList ++ reqs ++
        [⟨⟨src, n.self.addr, Message.bytes ⟨tx, .findSuccessorRsp owner key lookupIndex⟩⟩, false⟩] ∧
      deliverNewest^[reqs.length + 1] c₁ = (c₂.turn i (Search.lookupResolved owner key tx)).2 := by
  have hpi : c.peers[i]? = some n.peer := by
    rw [getElem?_peers, hi]
    rfl
  have hp : n.peer ∈ c.peers := List.mem_of_getElem? hpi
  obtain ⟨s, hs, hsin, hself, -⟩ := hr.successor n.peer hp hin
  -- the member relays the lookup as if it had been asked
  have hopen : c.linkOpen n.self.addr = true := linkOpen_of_handlerOf (hn.handler i n.peer hpi hin)
  have hsends := @resolve_sends (c.startTurn n) tx key hin hopen (hw _ hp hin)
    (hself ▸ hw s hs hsin)
  obtain ⟨c₁, hturn, hc₁, hseen₁, hq₁⟩ := turn_sends hi hsends
  have hq : c₁.queue.toList = c.queue.toList ++ [n.peer.relay tx n.self key lookupIndex] := by
    rw [hq₁]
    exact congrArg (fun d => c.queue.toList ++ [d]) (Peer.relay_eq n.peer tx n.self key lookupIndex)
  -- the walk ends at the first member from the key
  obtain ⟨oid, hown⟩ := Ring.exists_firstFrom (List.ne_nil_of_mem (mem_ringIds hp hin)) key
  obtain ⟨owner, reqs, src, c₂, ho₁, ho₂, hlen, hreqs, hc₂, hq₂, hs₂, hrun⟩ :=
    walk_answers hr hn hw (deliversLast_newest c.queue.toList) hpi hin hown _ c₁ n.peer hc₁ hp hin
      rfl hq
  refine ⟨c₁, owner, reqs, src, c₂, hturn, ho₁ ▸ hown, ho₂, ?_, hreqs, hc₂, hq₂, ?_, ?_⟩
  · rw [hlen]
    exact Ring.arcCount_lt_length (mem_ringIds hp hin) oid
  · rw [hs₂, hseen₁]
    rfl
  · rw [hlen, hrun, foundSuccessor_lookup]

/-! ### Two members -/

/-- Node `1` at `10.0.0.1`, with its position written out. -/
def refOne : NodeRef :=
  ⟨1, .v4 [10, 0, 0, 1], RingId.ofNat 1353530293286508438472405927992205576473478375739,
    by decide +kernel⟩

/-- Node `2` at `10.0.0.2`, with its position written out. -/
def refTwo : NodeRef :=
  ⟨2, .v4 [10, 0, 0, 2], RingId.ofNat 517768238927394844486912546978639307722693532857,
    by decide +kernel⟩

/-- A ring member at `me` with `other` as its successor and its predecessor. -/
def pairedWith (me other : NodeRef) : Node :=
  { self := me, config := {}, directory := ⟨[]⟩, lastTx := 0, reportsEvents := true,
    ring := { successor := other, predecessor := other, inRing := true } }

/-- Nodes 1 and 2, each the other's neighbour on both sides, with nothing stored and nothing
in flight. -/
def stillPair : Cluster :=
  { members := #[pairedWith refOne refTwo, pairedWith refTwo refOne],
    endpoints := [⟨refOne.addr, false⟩, ⟨refTwo.addr, false⟩] }

theorem mem_stillPair {n : Node} (hn : n ∈ stillPair.members) :
    n = pairedWith refOne refTwo ∨ n = pairedWith refTwo refOne := by
  simpa [stillPair] using hn


theorem stillPair_peers :
    stillPair.peers = [(pairedWith refOne refTwo).peer, (pairedWith refTwo refOne).peer] := rfl

theorem stillPair_routes : stillPair.Routes := by
  have hids : stillPair.ringIds = [refOne.id, refTwo.id] := rfl
  refine ⟨by rw [hids]; decide +kernel, fun p hp _ => ?_⟩
  unfold Ring.Follows
  rw [hids]
  rw [stillPair_peers, List.mem_pair] at hp
  rcases hp with rfl | rfl
  · exact ⟨(pairedWith refTwo refOne).peer, by simp [stillPair_peers], rfl, rfl, by decide +kernel⟩
  · exact ⟨(pairedWith refOne refTwo).peer, by simp [stillPair_peers], rfl, rfl, by decide +kernel⟩

theorem stillPair_reaches : stillPair.Reaches := by
  refine ⟨fun i p hp _ => ?_, fun p _ _ => List.not_mem_nil⟩
  rw [stillPair_peers] at hp
  match i, hp with
  | 0, hp =>
    cases hp
    decide
  | 1, hp =>
    cases hp
    decide

theorem stillPair_membersOnWire : stillPair.MembersOnWire := by
  intro p hp _
  rw [stillPair_peers, List.mem_pair] at hp
  rcases hp with rfl | rfl
  · exact ⟨[10, 0, 0, 1], rfl, rfl, by decide⟩
  · exact ⟨[10, 0, 0, 2], rfl, rfl, by decide⟩

/-- Node 2 resolves the key `0`, which it owns across the wrap: the key does not lie between
node 2 and its successor, so the request goes to node 1, which answers with node 2. -/
theorem resolve_reaches_owner_stillPair :
    stillPair.Routes ∧ stillPair.Reaches ∧ stillPair.MembersOnWire ∧
    stillPair.members[1]? = some (pairedWith refTwo refOne) ∧
    (pairedWith refTwo refOne).ring.inRing = true ∧
    ∃ (c₁ : Cluster) (owner : NodeRef) (reqs : List Delivery) (src : Address) (c₂ : Cluster),
      stillPair.turn 1 (Ring.resolve RingId.zero 7) = (some (.ok ()), c₁) ∧
      Ring.FirstFrom stillPair.ringIds RingId.zero owner.id ∧ owner ∈ stillPair.ringMembers ∧
      reqs.length < stillPair.ringIds.length ∧
      (∀ e ∈ reqs, e.dropped = false ∧
        e.datagram.data = Message.bytes ⟨7, .findSuccessorReq refTwo RingId.zero lookupIndex⟩) ∧
      c₂.uncounted = stillPair.uncounted ∧ c₂.queue.toList = stillPair.queue.toList ∧
      c₂.seen.toList = stillPair.seen.toList ++ reqs ++
        [⟨⟨src, refTwo.addr,
          Message.bytes ⟨7, .findSuccessorRsp owner RingId.zero lookupIndex⟩⟩, false⟩] ∧
      deliverNewest^[reqs.length + 1] c₁ =
        (c₂.turn 1 (Search.lookupResolved owner RingId.zero 7)).2 :=
  ⟨stillPair_routes, stillPair_reaches, stillPair_membersOnWire, rfl, rfl,
    resolve_reaches_owner stillPair_routes stillPair_reaches stillPair_membersOnWire (i := 1)
      (n := pairedWith refTwo refOne) rfl rfl RingId.zero 7⟩

end Cluster

end ChordSearch
