import ChordSearch.Proofs.Ring.Repair
import ChordSearch.Proofs.Ring.Closer
import ChordSearch.Proofs.Ring.Still
import ChordSearch.Proofs.Search.Sharding

/-! # A stabilize tick makes the finger table exact on a correct ring

A ring member with a complete table that runs a stabilize tick on a quiescent correct ring
ends, once every datagram the tick causes is delivered, in whatever order and with nothing
else interleaved, with every entry naming the first member at or after its start, whatever
the owners were before (`Cluster.stabilize_repairs_table`).

The tick sets off two things that do not interact. The stabilize exchange: the request goes
to the successor, whose predecessor is the member, so the successor answers with the member
itself, which the member ignores (`Exchange`). And the repair of the table (`Turn.repaired`):
owners carried forward, and the first entry that cannot be carried asked for; the lookup is
relayed along successors to the entry's owner, whose predecessor answers, and the answer
resumes the repair from the next entry (`FingerLookup`).

* `Turn.Ends`, `Cluster.deliverAt_ends`: what a delivery does to the member it reaches, as the
  repair sees it.
* `Cluster.SameLinks`: members in the same places of the ring, whatever their tables; a
  correct ring depends on nothing more (`Cluster.Correct.of_sameLinks`).
* `Repairing`: the invariant, under the stage of the exchange and of the lookup in flight;
  `Repairing.deliverAt` keeps it through any delivery and lowers the weight, so
  `Repairing.drains` and `Repairing.delivering` follow.
* `Repairing.start`: the invariant right after the tick.

* `Repairing.start_solo`: alone in the ring, the member's tick asks for nothing.

The members' references must be carried by the wire unchanged (`Cluster.MembersOnWire`):
node `0` at `0.0.0.0` is written as the unset reference, so an answer naming it as an owner
would name no node. That node only ever forms a ring of one, where no answer names it: its
request to itself reads as naming nobody and is answered to nobody
(`Repairing.deliver_request_unwired`).
-/

namespace ChordSearch

open NodeM

/-! ### Turns, as the repair sees them -/

namespace Turn

theorem sent_sent {t : Turn} {dest : Address} (tx : UInt32) {b : Body} (hset : dest.isSet = true)
    (hb : b.Exact) (hl : t.linkOpen = true) :
    t.Sent Node.uncounted (t.sent dest tx b) [(dest, (⟨tx, b⟩ : Message).bytes)] := by
  have h : (send dest tx b).Sends Node.uncounted t () [(dest, (⟨tx, b⟩ : Message).bytes)] :=
    send_sends forgets_uncounted hset hb hl
  obtain ⟨t', hrun, hs⟩ := h
  rw [send_run] at hrun
  have ht : t' = t.sent dest tx b := (congrArg Prod.snd hrun).symm
  rw [← ht]
  exact hs

theorem Message.bytes_wire (tx : UInt32) (b : Body) :
    (⟨tx, b.wire⟩ : Message).bytes = (⟨tx, b⟩ : Message).bytes := by
  simp only [Message.bytes, Message.encode_wire]

theorem sent_wire (t : Turn) (dest : Address) (tx : UInt32) (b : Body) :
    t.sent dest tx b.wire = t.sent dest tx b := by
  simp only [sent, transmitted, Message.encode_wire, Body.kind_wire]

theorem sent_sent_wired {t : Turn} {dest : Address} (tx : UInt32) {b : Body}
    (hset : dest.isSet = true) (hb : b.wire.Exact) (hl : t.linkOpen = true) :
    t.Sent Node.uncounted (t.sent dest tx b) [(dest, (⟨tx, b⟩ : Message).bytes)] := by
  rw [← sent_wire t dest tx b, ← Message.bytes_wire tx b]
  exact sent_sent tx hset hb hl

/-- A turn that started at node `m` ended at `t`, as the repair sees it: the node holds its
place in the ring, its table is `fs`, and it sent `out`. -/
structure Ends (m : Node) (fs : Array Finger) (out : List (Address × Bytes)) (t : Turn) : Prop where
  links : t.node.links = m.links
  fingers : t.node.ring.fingers = fs
  outgoing : t.outgoing.toList = out

theorem Ends.of_sends {act : NodeM Unit} {t : Turn} {out : List (Address × Bytes)}
    (h : act.Sends Node.uncounted t () out) (ht : t.outgoing.toList = []) :
    (act.run t).2.Ends t.node t.node.ring.fingers out := by
  obtain ⟨t', hrun, hs⟩ := h
  obtain ⟨hself, hring, -, -⟩ := Node.eq_of_uncounted hs.node
  rw [hrun]
  refine ⟨Node.links_eq.2 ⟨hself, by rw [hring], by rw [hring], by rw [hring]⟩, by rw [hring], ?_⟩
  rw [hs.outgoing, ht, List.nil_append]

/-- The request for a finger's owner that the repair sends, under the id it draws. -/
def asked (t : Turn) (f : Finger) : Address × Bytes :=
  (t.node.ring.successor.addr,
    (⟨t.node.lastTx + 1, .findSuccessorReq t.node.self f.start (UInt32.ofNat f.index)⟩ : Message).bytes)

theorem repaired_ends {t : Turn} {j : Nat} {fs : Array Finger} {ask : Option Finger}
    (hc : Ring.carryOwners t.node.ring.fingers (List.range' j (idBits - j)) = (fs, ask))
    (hl : t.linkOpen = true) (hme : t.node.self.OnWire) (hs : t.node.ring.successor.OnWire) :
    (t.repaired j).Ends t.node fs (t.outgoing.toList ++ ask.toList.map t.asked) := by
  cases ask with
  | none =>
    have he : t.repaired j = t.mapRing fun r => { r with fingers := fs } := by
      simp only [repaired, hc]
    rw [he]
    exact ⟨rfl, rfl, by simp [mapRing]⟩
  | some f =>
    have he : t.repaired j = (t.mapRing fun r => { r with fingers := fs }).drawTx.sent
        t.node.ring.successor.addr (t.node.lastTx + 1)
        (.findSuccessorReq t.node.self f.start (UInt32.ofNat f.index)) := by
      simp only [repaired, hc]
      rfl
    have hsent := sent_sent (t := (t.mapRing fun r => { r with fingers := fs }).drawTx)
      (t.node.lastTx + 1) hs.isSet
      (show Body.Exact (.findSuccessorReq t.node.self f.start (UInt32.ofNat f.index)) from
        NodeRef.Exact.of_onWire hme) hl
    rw [he]
    refine ⟨by simp [Node.links, mapRing, drawTx], by simp [mapRing, drawTx], ?_⟩
    rw [hsent.outgoing]
    rfl

end Turn

/-! ### Handling the datagrams of a tick -/

theorem receive_stabilizeReq (src : Address) (tx : UInt32) {t : Turn} {r : NodeRef}
    (hin : t.node.ring.inRing = true) (hpred : t.node.ring.predecessor = r) (hr : r.OnWire)
    (hl : t.linkOpen = true) :
    (Node.receive src (Message.bytes ⟨tx, .stabilizeReq r⟩)).Sends Node.uncounted t ()
      [(r.addr, (⟨tx, .stabilizeRsp r⟩ : Message).bytes)] :=
  receive_sends forgets_uncounted src (Message.decode_bytes (NodeRef.Exact.of_onWire hr))
    fun t₁ h₁ => by
    have hring : t₁.node.ring = t.node.ring := congrArg Peer.ring (h₁.peer forgets_uncounted)
    refine ⟨t₁.sent r.addr tx (.stabilizeRsp r), ?_, ?_⟩
    · -- the asker is the predecessor already, so the predecessor stays
      show (Ring.stabilizeRequest tx r).run t₁ = _
      rw [stabilizeRequest_run, hring, hin, if_pos rfl, adopts_eq_false (.inr hpred.symm)]
      simp only [Bool.false_eq_true, ↓reduceIte, hring, hpred]
    · exact Turn.sent_sent tx hr.isSet (show Body.Exact (.stabilizeRsp r) from .of_onWire hr)
        (h₁.linkOpen.trans hl)

theorem receive_stabilizeRsp_self (src : Address) (tx : UInt32) {t : Turn}
    (hr : t.node.self.OnWire) :
    (Node.receive src (Message.bytes ⟨tx, .stabilizeRsp t.node.self⟩)).Sends Node.uncounted t ()
      [] :=
  receive_sends forgets_uncounted src (Message.decode_bytes (NodeRef.Exact.of_onWire hr))
    fun t₁ h₁ => by
    have hself : t₁.node.self = t.node.self := congrArg Peer.self (h₁.peer forgets_uncounted)
    refine ⟨t₁, ?_, .refl _ t₁⟩
    show (Ring.stabilizeReply t.node.self).run t₁ = _
    rw [stabilizeReply_run, hself]
    simp

theorem receive_stabilizeReq_unset (src : Address) (tx : UInt32) (t : Turn) :
    (Node.receive src (Message.bytes ⟨tx, .stabilizeReq NodeRef.unset⟩)).Sends Node.uncounted t ()
      [] :=
  receive_sends forgets_uncounted src
    (Message.decode_bytes (show Body.Exact (.stabilizeReq NodeRef.unset) from .inl rfl))
    fun t₁ _ => by
    refine ⟨t₁, ?_, .refl _ t₁⟩
    show (Ring.stabilizeRequest tx NodeRef.unset).run t₁ = _
    rw [stabilizeRequest_run, adopts_eq_false (.inl rfl)]
    cases t₁.node.ring.inRing <;>
      simp [Turn.sent, NodeRef.unset, NodeRef.unsetWith, NodeRef.make, Address.isSet]

theorem NodeRef.Wired.wire_of_not_onWire {r : NodeRef} (h : r.Wired) (hoff : ¬ r.OnWire) :
    r.wire = NodeRef.unset := by
  obtain ⟨os, hos, hlen⟩ := h
  have hz : r.num = 0 ∧ os = [0, 0, 0, 0] := by
    by_contra hz
    exact hoff ⟨os, hos, hlen, hz⟩
  unfold NodeRef.wire
  rw [if_pos ⟨hz.1, by rw [hos, hz.2]⟩]

theorem receive_fingerAnswer (src : Address) (tx : UInt32) {t : Turn} {o : NodeRef} {k : Nat}
    {f : Finger} (hk : k < idBits) (hin : t.node.ring.inRing = true)
    (hsize : t.node.ring.fingers.size = idBits) (hf : t.node.ring.fingers[k]? = some f)
    (ho : o.OnWire) :
    ∃ g : Metrics → Metrics,
      (Node.receive src (Message.bytes ⟨tx, .findSuccessorRsp o f.start (UInt32.ofNat k)⟩)).run t =
        ((), ((t.mapMetrics g).mapRing fun r => { r with
          fingers := r.fingers.modify k fun c => { c with owner := o } }).repaired (k + 1)) := by
  let g : Metrics → Metrics := fun ms => { ms with
    received := ms.received.bump (Body.findSuccessorRsp o f.start (UInt32.ofNat k)).kind.name }
  refine ⟨g, ?_⟩
  rw [receive_eq (Message.decode_bytes (show Body.Exact (.findSuccessorRsp o f.start _) from
    NodeRef.Exact.of_onWire ho)), StateT.run_bind]
  exact foundSuccessor_run (t := t.mapMetrics g) hk hin hsize hf tx o

namespace Cluster

/-- A queued datagram handled by member `j` in a turn that ends as `Turn.Ends` says: the
member is replaced by a node in its place with the table `fs`, the datagram leaves the
queue and `out` joins it from the member's address. -/
theorem deliverAt_ends {c : Cluster} {k : Nat} {d : Datagram} {j : Nat} {m : Node}
    {fs : Array Finger} {out : List (Address × Bytes)} (hd : c.queue.toList[k]? = some d)
    (hsrc : d.src ∉ c.cut) (hdst : d.dst ∉ c.cut) (hj : c.handlerOf d.dst = some j)
    (hm : c.members[j]? = some m)
    (ht : ((Node.receive d.src d.data).run (c.startTurn m)).2.Ends m fs out) :
    ∃ m', m'.links = m.links ∧ m'.ring.fingers = fs ∧
      (c.deliverAt k).members = c.members.modify j (fun _ => m') ∧
      (c.deliverAt k).queue.toList =
        c.queue.toList.eraseIdx k ++ out.map (fun p => ⟨m.self.addr, p.1, p.2⟩) ∧
      (c.deliverAt k).endpoints = c.endpoints ∧ (c.deliverAt k).cut = c.cut := by
  rw [deliverAt_member hd hsrc hdst hj hm]
  refine ⟨_, ht.links, ht.fingers, rfl, ?_, rfl, rfl⟩
  rw [afterTurn_queue, taken_queue, ht.outgoing]

/-! ### Members in the same places -/

/-- Two clusters whose members hold the same places in the ring, at the same indices, behind
the same endpoints and cuts: the same ring, whatever the members' tables and counters. -/
structure SameLinks (c' c : Cluster) : Prop where
  links : c'.members.map Node.links = c.members.map Node.links
  endpoints : c'.endpoints = c.endpoints
  cut : c'.cut = c.cut

namespace SameLinks

variable {c c' c'' : Cluster}

theorem refl (c : Cluster) : SameLinks c c := ⟨rfl, rfl, rfl⟩

theorem symm (h : SameLinks c' c) : SameLinks c c' := ⟨h.links.symm, h.endpoints.symm, h.cut.symm⟩

theorem trans (h₁ : SameLinks c'' c') (h₂ : SameLinks c' c) : SameLinks c'' c :=
  ⟨h₁.links.trans h₂.links, h₁.endpoints.trans h₂.endpoints, h₁.cut.trans h₂.cut⟩

theorem member (h : SameLinks c' c) {j : Nat} {n : Node} (hj : c.members[j]? = some n) :
    ∃ m, c'.members[j]? = some m ∧ m.links = n.links := by
  have h' := congrArg (fun a : Array (NodeRef × Bool × NodeRef × NodeRef) => a[j]?) h.links
  simp only [Array.getElem?_map, hj, Option.map_some] at h'
  exact Option.map_eq_some_iff.1 h'

theorem mem_members (h : SameLinks c' c) {m : Node} (hm : m ∈ c'.members) :
    ∃ n ∈ c.members, m.links = n.links := by
  obtain ⟨j, hj⟩ := Array.mem_iff_getElem?.1 hm
  obtain ⟨n, hn, hl⟩ := h.symm.member hj
  exact ⟨n, Array.mem_of_getElem? hn, hl.symm⟩

theorem selves (h : SameLinks c' c) :
    c'.members.toList.map (·.self) = c.members.toList.map (·.self) := by
  have h' := congrArg (fun a : Array (NodeRef × Bool × NodeRef × NodeRef) => a.toList.map Prod.fst)
    h.links
  simpa [Node.links, Function.comp_def] using h'

theorem handlerOf (h : SameLinks c' c) : c'.handlerOf = c.handlerOf :=
  handlerOf_of_selves h.selves h.endpoints

theorem inRing (h : SameLinks c' c) {r : NodeRef} (hr : c.InRing r) : c'.InRing r := by
  obtain ⟨n, hn, rfl, hin⟩ := hr
  obtain ⟨j, hj⟩ := Array.mem_iff_getElem?.1 hn
  obtain ⟨m, hm, hl⟩ := h.member hj
  obtain ⟨hs, hi, -, -⟩ := Node.links_eq.1 hl
  exact ⟨m, Array.mem_of_getElem? hm, hs, hi.trans hin⟩

theorem ringMembers (h : SameLinks c' c) : c'.ringMembers = c.ringMembers := by
  have hp : c'.members.toList.map (fun n => (n.self, n.ring.inRing)) =
      c.members.toList.map (fun n => (n.self, n.ring.inRing)) := by
    have h' := congrArg
      (fun a : Array (NodeRef × Bool × NodeRef × NodeRef) => a.toList.map fun l => (l.1, l.2.1))
      h.links
    simpa [Node.links, Function.comp_def] using h'
  have hr : ∀ c : Cluster, c.ringMembers =
      ((c.members.toList.map fun n => (n.self, n.ring.inRing)).filter (·.2)).map (·.1) := by
    intro c
    simp [Cluster.ringMembers, peers, List.filter_map, Function.comp_def, Node.peer]
  rw [hr, hr, hp]

theorem ringIds (h : SameLinks c' c) : c'.ringIds = c.ringIds := by
  rw [Cluster.ringIds, Cluster.ringIds, h.ringMembers]

end SameLinks

theorem Correct.of_sameLinks {c c' : Cluster} (hc : c.Correct) (h : SameLinks c' c) : c'.Correct where
  nodup := h.ringIds ▸ hc.nodup
  addressed m hm := by
    obtain ⟨n, hn, hl⟩ := h.mem_members hm
    rw [(Node.links_eq.1 hl).1]
    exact hc.addressed n hn
  wired m hm hin := by
    obtain ⟨n, hn, hl⟩ := h.mem_members hm
    obtain ⟨hs, hi, -, -⟩ := Node.links_eq.1 hl
    rw [hs]
    exact hc.wired n hn (hi ▸ hin)
  handler j m hj hin := by
    obtain ⟨n, hn, hl⟩ := h.symm.member hj
    obtain ⟨hs, hi, -, -⟩ := Node.links_eq.1 hl
    rw [h.handlerOf, ← hs]
    exact hc.handler j n hn (hi ▸ hin)
  successor m hm hin := by
    obtain ⟨n, hn, hl⟩ := h.mem_members hm
    obtain ⟨hs, hi, hsucc, -⟩ := Node.links_eq.1 hl
    obtain ⟨hr, hf⟩ := hc.successor n hn (hi ▸ hin)
    rw [hs, hsucc, h.ringIds]
    exact ⟨h.inRing hr, hf⟩
  predecessor m hm hin := by
    obtain ⟨n, hn, hl⟩ := h.mem_members hm
    obtain ⟨hs, hi, -, hpred⟩ := Node.links_eq.1 hl
    obtain ⟨hr, hf⟩ := hc.predecessor n hn (hi ▸ hin)
    rw [hs, hpred, h.ringIds]
    exact ⟨h.inRing hr, hf⟩

end Cluster

namespace Cluster

variable {c c₀ : Cluster}

theorem sameLinks_modify {c' : Cluster} {j : Nat} {m m' : Node} (hm : c.members[j]? = some m)
    (hl : m'.links = m.links) (hmem : c'.members = c.members.modify j fun _ => m')
    (hend : c'.endpoints = c.endpoints) (hcut : c'.cut = c.cut) : c'.SameLinks c :=
  ⟨by rw [hmem]; exact members_modify_map Node.links hm hl, hend, hcut⟩

theorem SameLinks.reach (h : c.SameLinks c₀) (hc : c₀.Correct)
    (hcut : ∀ n ∈ c₀.members, n.ring.inRing = true → n.self.addr ∉ c₀.cut) {j : Nat} {m₀ : Node}
    (hj : c₀.members[j]? = some m₀) (hin : m₀.ring.inRing = true) :
    c.handlerOf m₀.self.addr = some j ∧ m₀.self.addr ∉ c.cut ∧
      ∃ m, c.members[j]? = some m ∧ m.links = m₀.links := by
  refine ⟨?_, ?_, h.member hj⟩
  · rw [h.handlerOf]
    exact hc.handler j m₀ hj hin
  · rw [h.cut]
    exact hcut m₀ (Array.mem_of_getElem? hj) hin

end Cluster

theorem Finger.place_of_places {fs : Array Finger} {n₀ : Node}
    (hp : fs.map Finger.place = n₀.ring.fingers.map Finger.place) (hs : n₀.Shaped) {k : Nat}
    {f : Finger} (hf : fs[k]? = some f) : f.index = k ∧ f.start = n₀.self.id.addPow2 k := by
  have hshape : Membership.Shaped n₀.self.id { n₀.ring with fingers := fs } := hs.of_places hp rfl
  obtain ⟨hk, rfl⟩ := Array.getElem?_eq_some_iff.1 hf
  exact hshape.entry k hk

theorem List.perm_eraseIdx_of_perm_cons {α : Type} {Q X : List α} {k : Nat} {d : α}
    (hk : Q[k]? = some d) (hQ : Q.Perm (d :: X)) : (Q.eraseIdx k).Perm X := by
  obtain ⟨hlt, rfl⟩ := List.getElem?_eq_some_iff.1 hk
  exact ((List.getElem_cons_eraseIdx_perm hlt).trans hQ).cons_inv

/-! ### The tick in flight -/

/-- Where the stabilize exchange of a tick stands: the request on its way to the successor,
the successor's answer on its way back, or over. -/
inductive Exchange where
  | request
  | answer
  | ended

namespace Exchange

/-- The datagram in flight of the exchange of member `n`, under the id its tick drew. -/
def datagram (n : Node) : Exchange → Option Datagram
  | request => some ⟨n.self.addr, n.ring.successor.addr,
      Message.bytes ⟨n.lastTx + 1, .stabilizeReq n.self⟩⟩
  | answer => some ⟨n.ring.successor.addr, n.self.addr,
      Message.bytes ⟨n.lastTx + 1, .stabilizeRsp n.self⟩⟩
  | ended => none

/-- Deliveries left. -/
def weight : Exchange → Nat
  | request => 2
  | answer => 1
  | ended => 0

end Exchange

/-- The lookup a repair sent for the owner of entry `k`'s start, under id `tx`, standing at
`leg`. -/
structure FingerLookup where
  k : Nat
  tx : UInt32
  leg : Leg

namespace FingerLookup

/-- The datagram in flight of a lookup for the table of `me`: the request held by a member,
or the answer on its way back. -/
def datagram (me : NodeRef) (l : FingerLookup) : Option Datagram :=
  match l.leg with
  | .asking src h => some ⟨src, h.addr,
      Message.bytes ⟨l.tx, .findSuccessorReq me (me.id.addPow2 l.k) (UInt32.ofNat l.k)⟩⟩
  | .answered src o => some ⟨src, me.addr,
      Message.bytes ⟨l.tx, .findSuccessorRsp o (me.id.addPow2 l.k) (UInt32.ofNat l.k)⟩⟩
  | _ => none

/-- Deliveries left, at most, on the ring `ids`: the lookup's own, and those of a lookup for
each later entry, which passes each member at most once. -/
def weight (ids : List RingId) (me : NodeRef) (l : FingerLookup) : Nat :=
  (idBits - l.k) * (ids.length + 3) + l.leg.weight ids (me.id.addPow2 l.k)

theorem datagram_next (me : NodeRef) (k : Nat) (tx : UInt32) (p : Peer) :
    (⟨k, tx, Leg.next p.self p.ring.successor (me.id.addPow2 k)⟩ : FingerLookup).datagram me =
      some (p.relay tx me (me.id.addPow2 k) (UInt32.ofNat k)) := by
  unfold Leg.next Peer.relay
  split <;> rfl

end FingerLookup

theorem Turn.asked_datagram (t : Turn) {f : Finger} {k : Nat} (hi : f.index = k)
    (hs : f.start = t.node.self.id.addPow2 k) :
    (⟨k, t.node.lastTx + 1, .asking t.node.self.addr t.node.ring.successor⟩ :
      FingerLookup).datagram t.node.self = some ⟨t.node.self.addr, (t.asked f).1, (t.asked f).2⟩ := by
  simp [Turn.asked, FingerLookup.datagram, hi, hs]

/-- The repair of the table `fs` of `me` on the ring of `c₀`, with the lookup `w` in flight:
over, with every entry exact; or a lookup for entry `k` under way, its answer to name the
start's owner, with every entry before `k` exact. -/
def Walks (c₀ : Cluster) (me : NodeRef) (fs : Array Finger) : Option FingerLookup → Prop
  | none => ∀ f ∈ fs, f.Exact c₀.ringMembers
  | some l => l.k < idBits ∧ l.leg.waiting = true ∧ l.leg.Sound c₀ (me.id.addPow2 l.k) ∧
      ∀ k < l.k, ∀ f, fs[k]? = some f → f.Exact c₀.ringMembers

/-- What holds while the tick of member `i`, which was `n₀` in `c₀`, is delivered: the ring is
the ring of `c₀`; the member's table has the entries of `n₀`'s, repaired as far as the
lookup `w` in flight says; and the queue holds exactly the datagrams of the exchange at `e`
and of `w`. -/
structure Repairing (c₀ : Cluster) (i : Nat) (n₀ : Node) (e : Exchange) (w : Option FingerLookup)
    (c : Cluster) : Prop where
  ring : c.SameLinks c₀
  table : ∃ n, c.members[i]? = some n ∧
    n.ring.fingers.map Finger.place = n₀.ring.fingers.map Finger.place ∧
    Walks c₀ n₀.self n.ring.fingers w
  queue : c.queue.toList.Perm ((e.datagram n₀).toList ++ (w.bind (·.datagram n₀.self)).toList)

/-- Deliveries left of the tick of `n₀` on the ring `ids`, at most, with the exchange at `e`
and the lookup `w` in flight. -/
def tickWeight (ids : List RingId) (n₀ : Node) (e : Exchange) (w : Option FingerLookup) : Nat :=
  e.weight + w.elim 0 (·.weight ids n₀.self)

namespace Repairing

variable {c₀ c : Cluster} {i : Nat} {n₀ : Node} {e : Exchange} {w : Option FingerLookup}

theorem table_keep {P : Array Finger → Prop} (h : ∃ n, c.members[i]? = some n ∧ P n.ring.fingers)
    {j : Nat} {m m' : Node} (hm : c.members[j]? = some m) (hf : m'.ring.fingers = m.ring.fingers) :
    ∃ n, (c.members.modify j fun _ => m')[i]? = some n ∧ P n.ring.fingers := by
  obtain ⟨n, hn, hp⟩ := h
  rw [Array.getElem?_modify]
  split
  · next hji =>
    subst hji
    rw [hm] at hn
    obtain rfl := Option.some.inj hn
    exact ⟨m', by rw [hm]; rfl, hf ▸ hp⟩
  · exact ⟨n, hn, hp⟩

theorem quiet (h : Repairing c₀ i n₀ e w c) (hq : c.queue.toList = []) :
    ∃ n, c.members[i]? = some n ∧
      n.ring.fingers.map Finger.place = n₀.ring.fingers.map Finger.place ∧
      ∀ f ∈ n.ring.fingers, f.Exact c₀.ringMembers := by
  have hnil := List.Perm.eq_nil (hq ▸ h.queue).symm
  obtain ⟨n, hn, hplaces, hwalk⟩ := h.table
  refine ⟨n, hn, hplaces, ?_⟩
  cases w with
  | none => exact hwalk
  | some l =>
    obtain ⟨kk, tx, leg⟩ := l
    obtain ⟨-, hwait, -⟩ := hwalk
    cases leg with
    | asking => simp [FingerLookup.datagram] at hnil
    | answered => simp [FingerLookup.datagram] at hnil
    | storing => cases hwait
    | kept => cases hwait

theorem exact_table (h : Repairing c₀ i n₀ e w c) (hq : c.queue.toList = []) (hshape : n₀.Shaped)
    (hsize : n₀.ring.fingers.size = idBits) :
    c.members.map Node.links = c₀.members.map Node.links ∧
      ∃ n, c.members[i]? = some n ∧ n.ring.fingers.size = idBits ∧
        ∀ j < idBits, ∃ f, n.ring.fingers[j]? = some f ∧ f.start = n₀.self.id.addPow2 j ∧
          f.Exact c₀.ringMembers := by
  obtain ⟨n, hn, hplaces, hexact⟩ := h.quiet hq
  have hsz : n.ring.fingers.size = idBits := by simpa [hsize] using congrArg Array.size hplaces
  refine ⟨h.ring.links, n, hn, hsz, fun j hj => ?_⟩
  obtain ⟨f, hf⟩ : ∃ f, n.ring.fingers[j]? = some f := ⟨_, Array.getElem?_eq_getElem (by omega)⟩
  exact ⟨f, hf, (Finger.place_of_places hplaces hshape hf).2, hexact f (Array.mem_of_getElem? hf)⟩

variable (hc : c₀.Correct) (hw : c₀.MembersOnWire)
  (hcut : ∀ n ∈ c₀.members, n.ring.inRing = true → n.self.addr ∉ c₀.cut)
  (hi : c₀.members[i]? = some n₀) (hin : n₀.ring.inRing = true)
include hc hw hcut hi hin

theorem deliver_request (h : Repairing c₀ i n₀ .request w c) {k : Nat}
    (hk : c.queue.toList[k]? = some ⟨n₀.self.addr, n₀.ring.successor.addr,
      Message.bytes ⟨n₀.lastTx + 1, .stabilizeReq n₀.self⟩⟩) :
    Repairing c₀ i n₀ .answer w (c.deliverAt k) := by
  have hmem₀ := Array.mem_of_getElem? hi
  have hme : c₀.InRing n₀.self := ⟨n₀, hmem₀, rfl, hin⟩
  obtain ⟨⟨ns, hns, hsself, hsin⟩, hfol⟩ := hc.successor n₀ hmem₀ hin
  obtain ⟨js, hjs⟩ := Array.mem_iff_getElem?.1 hns
  obtain ⟨hj, hdst, ms, hms, hml⟩ := h.ring.reach hc hcut hjs hsin
  obtain ⟨-, hsrc, -⟩ := h.ring.reach hc hcut hi hin
  have hpred : ns.ring.predecessor = n₀.self := by
    obtain ⟨hpr, hpf⟩ := hc.predecessor ns hns hsin
    rw [hsself] at hpf
    exact hc.inRing_inj hpr hme (Ring.Follows.left_unique hpr.id_mem hme.id_mem hpf hfol)
  obtain ⟨hmself, hmin, -, hmpred⟩ := Node.links_eq.1 hml
  rw [hsself] at hj hdst
  have hl : (c.startTurn ms).linkOpen = true :=
    Cluster.linkOpen_of_handlerOf (show c.handlerOf ms.self.addr = some js by rw [hmself, hsself]; exact hj)
  have hends := Turn.Ends.of_sends (receive_stabilizeReq n₀.self.addr (n₀.lastTx + 1)
    (t := c.startTurn ms) (hmin.trans hsin) (hmpred.trans hpred) (hw.of_inRing hme) hl) rfl
  obtain ⟨m', hl', hf', hmem, hq, hend, hcut'⟩ := Cluster.deliverAt_ends hk hsrc hdst hj hms hends
  refine ⟨(Cluster.sameLinks_modify hms hl' hmem hend hcut').trans h.ring, ?_, ?_⟩
  · rw [hmem]
    exact table_keep (P := fun fs => fs.map Finger.place = n₀.ring.fingers.map Finger.place ∧
      Walks c₀ n₀.self fs w) h.table hms hf'
  · have hrest := List.perm_eraseIdx_of_perm_cons hk (by simpa [Exchange.datagram] using h.queue)
    rw [hq]
    simp only [Exchange.datagram, Option.toList_some, List.map_cons, List.map_nil, hmself, hsself]
    exact (hrest.append_right _).trans List.perm_append_comm

theorem deliver_answer (h : Repairing c₀ i n₀ .answer w c) {k : Nat}
    (hk : c.queue.toList[k]? = some ⟨n₀.ring.successor.addr, n₀.self.addr,
      Message.bytes ⟨n₀.lastTx + 1, .stabilizeRsp n₀.self⟩⟩) :
    Repairing c₀ i n₀ .ended w (c.deliverAt k) := by
  have hmem₀ := Array.mem_of_getElem? hi
  obtain ⟨⟨ns, hns, hsself, hsin⟩, -⟩ := hc.successor n₀ hmem₀ hin
  obtain ⟨js, hjs⟩ := Array.mem_iff_getElem?.1 hns
  obtain ⟨-, hsrc, -⟩ := h.ring.reach hc hcut hjs hsin
  obtain ⟨hj, hdst, m, hm, hml⟩ := h.ring.reach hc hcut hi hin
  obtain ⟨hmself, -, -, -⟩ := Node.links_eq.1 hml
  rw [hsself] at hsrc
  have hends := Turn.Ends.of_sends (receive_stabilizeRsp_self n₀.ring.successor.addr
    (n₀.lastTx + 1) (t := c.startTurn m)
    (show m.self.OnWire by rw [hmself]; exact hw.of_inRing ⟨n₀, hmem₀, rfl, hin⟩)) rfl
  rw [show (c.startTurn m).node.self = n₀.self from hmself] at hends
  obtain ⟨m', hl', hf', hmem, hq, hend, hcut'⟩ := Cluster.deliverAt_ends hk hsrc hdst hj hm hends
  refine ⟨(Cluster.sameLinks_modify hm hl' hmem hend hcut').trans h.ring, ?_, ?_⟩
  · rw [hmem]
    exact table_keep (P := fun fs => fs.map Finger.place = n₀.ring.fingers.map Finger.place ∧
      Walks c₀ n₀.self fs w) h.table hm hf'
  · have hrest := List.perm_eraseIdx_of_perm_cons hk (by simpa [Exchange.datagram] using h.queue)
    rw [hq]
    simpa [Exchange.datagram] using hrest

/-- A lookup's request reaches the member holding it, which relays it: the answer naming its
successor when the successor owns the entry's start, the request passed on to the successor,
nearer the start, otherwise. -/
theorem deliver_asking {kk : Nat} {tx : UInt32} {src : Address} {hd : NodeRef}
    (h : Repairing c₀ i n₀ e (some ⟨kk, tx, .asking src hd⟩) c) {k : Nat}
    (hk : c.queue.toList[k]? = some ⟨src, hd.addr, Message.bytes
      ⟨tx, .findSuccessorReq n₀.self (n₀.self.id.addPow2 kk) (UInt32.ofNat kk)⟩⟩) :
    ∃ leg, Repairing c₀ i n₀ e (some ⟨kk, tx, leg⟩) (c.deliverAt k) ∧
      leg.weight c₀.ringIds (n₀.self.id.addPow2 kk) <
        (Leg.asking src hd).weight c₀.ringIds (n₀.self.id.addPow2 kk) := by
  obtain ⟨n, hn, hplaces, hkk, -, ⟨⟨r, hr, rfl⟩, hhold⟩, hpre⟩ := h.table
  obtain ⟨nr, hnr, rfl, hrin⟩ := hr
  obtain ⟨jr, hjr⟩ := Array.mem_iff_getElem?.1 hnr
  obtain ⟨-, hsrc, -⟩ := h.ring.reach hc hcut hjr hrin
  obtain ⟨m₀, hm₀, rfl, hmin₀⟩ := hhold
  obtain ⟨j, hj₀⟩ := Array.mem_iff_getElem?.1 hm₀
  obtain ⟨hj, hdst, m, hm, hml⟩ := h.ring.reach hc hcut hj₀ hmin₀
  obtain ⟨hmself, hmin, hmsucc, -⟩ := Node.links_eq.1 hml
  obtain ⟨hsr, hfol⟩ := hc.successor m₀ hm₀ hmin₀
  have hl : (c.startTurn m).linkOpen = true :=
    Cluster.linkOpen_of_handlerOf (show c.handlerOf m.self.addr = some j by rw [hmself]; exact hj)
  have hends := Turn.Ends.of_sends (@receive_request_relays (c.startTurn m) nr.self.addr tx
    (UInt32.ofNat kk) n₀.self (n₀.self.id.addPow2 kk) (hmin.trans hmin₀) hl
    (hw.of_inRing ⟨n₀, Array.mem_of_getElem? hi, rfl, hin⟩)
    (show m.ring.successor.OnWire by rw [hmsucc]; exact hw.of_inRing hsr)) rfl
  obtain ⟨m', hl', hf', hmem, hq, hend, hcut'⟩ := Cluster.deliverAt_ends hk hsrc hdst hj hm hends
  let leg := Leg.next m.peer.self m.peer.ring.successor (n₀.self.id.addPow2 kk)
  have hsound : leg.Sound c₀ (n₀.self.id.addPow2 kk) := by
    show (Leg.next m.self m.ring.successor _).Sound c₀ _
    rw [hmself, hmsucc]
    exact Leg.next_sound ⟨m₀, hm₀, rfl, hmin₀⟩ hsr hfol
  refine ⟨leg, ⟨(Cluster.sameLinks_modify hm hl' hmem hend hcut').trans h.ring, ?_, ?_⟩, ?_⟩
  · rw [hmem]
    exact table_keep (P := fun fs => fs.map Finger.place = n₀.ring.fingers.map Finger.place ∧
      Walks c₀ n₀.self fs (some ⟨kk, tx, leg⟩)) ⟨n, hn, hplaces, hkk, Leg.next_waiting _ _ _, hsound,
        hpre⟩ hm hf'
  · have hrest := List.perm_eraseIdx_of_perm_cons hk (by
      simpa only [Option.bind_some, FingerLookup.datagram, Option.toList_some,
        List.singleton_append] using h.queue.trans List.perm_append_comm)
    rw [hq]
    have hd : (⟨kk, tx, leg⟩ : FingerLookup).datagram n₀.self =
        some (m.peer.relay tx n₀.self (n₀.self.id.addPow2 kk) (UInt32.ofNat kk)) :=
      FingerLookup.datagram_next n₀.self kk tx m.peer
    show (c.queue.toList.eraseIdx k ++ [(⟨m.peer.self.addr,
      (m.peer.relay tx n₀.self (n₀.self.id.addPow2 kk) (UInt32.ofNat kk)).dst,
      (m.peer.relay tx n₀.self (n₀.self.id.addPow2 kk) (UInt32.ofNat kk)).data⟩ : Datagram)]).Perm
        ((e.datagram n₀).toList ++ ((⟨kk, tx, leg⟩ : FingerLookup).datagram n₀.self).toList)
    rw [Peer.relay_eq, hd]
    exact hrest.append_right _
  · show (Leg.next m.self m.ring.successor _).weight _ _ < Ring.arcCount _ m₀.self.id _ + 3
    rw [hmself, hmsucc]
    exact Leg.next_weight_lt hsr.id_mem

/-- A lookup's answer reaches the member, which gives the entry the owner it names and goes
on repairing from the next entry: every entry is then exact, or the next entry that needs it
is asked for. -/
theorem deliver_answered (hshape : n₀.Shaped) (hsize : n₀.ring.fingers.size = idBits)
    {kk : Nat} {tx : UInt32} {src : Address} {o : NodeRef}
    (h : Repairing c₀ i n₀ e (some ⟨kk, tx, .answered src o⟩) c) {k : Nat}
    (hk : c.queue.toList[k]? = some ⟨src, n₀.self.addr, Message.bytes
      ⟨tx, .findSuccessorRsp o (n₀.self.id.addPow2 kk) (UInt32.ofNat kk)⟩⟩) :
    ∃ w', Repairing c₀ i n₀ e w' (c.deliverAt k) ∧
      w'.elim 0 (·.weight c₀.ringIds n₀.self) <
        (⟨kk, tx, .answered src o⟩ : FingerLookup).weight c₀.ringIds n₀.self := by
  obtain ⟨n, hn, hplaces, hkk, -, ⟨⟨r, hr, rfl⟩, hown⟩, hpre⟩ := h.table
  obtain ⟨nr, hnr, rfl, hrin⟩ := hr
  obtain ⟨jr, hjr⟩ := Array.mem_iff_getElem?.1 hnr
  obtain ⟨-, hsrc, -⟩ := h.ring.reach hc hcut hjr hrin
  obtain ⟨hj, hdst, m, hm, hml⟩ := h.ring.reach hc hcut hi hin
  obtain rfl : m = n := Option.some.inj (hm.symm.trans hn)
  obtain ⟨hmself, hmin, hmsucc, -⟩ := Node.links_eq.1 hml
  have hme : c₀.InRing n₀.self := ⟨n₀, Array.mem_of_getElem? hi, rfl, hin⟩
  obtain ⟨hsr, -⟩ := hc.successor n₀ (Array.mem_of_getElem? hi) hin
  have hmsize : m.ring.fingers.size = idBits := by
    simpa [hsize] using congrArg Array.size hplaces
  have hkk' : kk < idBits := hkk
  obtain ⟨f, hf⟩ : ∃ f, m.ring.fingers[kk]? = some f :=
    ⟨_, Array.getElem?_eq_getElem (by omega)⟩
  have hfs := (Finger.place_of_places hplaces hshape hf).2
  rw [← hfs] at hk
  have hl : (c.startTurn m).linkOpen = true :=
    Cluster.linkOpen_of_handlerOf (show c.handlerOf m.self.addr = some i by rw [hmself]; exact hj)
  obtain ⟨g, hrun⟩ := receive_fingerAnswer nr.self.addr tx (t := c.startTurn m) hkk'
    (hmin.trans hin) hmsize hf (hw.of_inRing hown.1)
  obtain ⟨T, hT⟩ : ∃ T : Turn, T = ((c.startTurn m).mapMetrics g).mapRing fun r => { r with
      fingers := r.fingers.modify kk fun c => { c with owner := o } } := ⟨_, rfl⟩
  rw [← hT] at hrun
  have hTf : T.node.ring.fingers = m.ring.fingers.modify kk fun c => { c with owner := o } := by
    rw [hT]
    rfl
  have hTl : T.node.links = m.links := by
    rw [hT]
    rfl
  obtain ⟨hTself, -, hTsucc, -⟩ := Node.links_eq.1 hTl
  obtain ⟨fs', ask, hcarry⟩ : ∃ fs' ask, Ring.carryOwners T.node.ring.fingers
      (List.range' (kk + 1) (idBits - (kk + 1))) = (fs', ask) := ⟨_, _, rfl⟩
  have hends := Turn.repaired_ends hcarry (by rw [hT]; exact hl)
    (by rw [hTself, hmself]; exact hw.of_inRing hme) (by rw [hTsucc, hmsucc]; exact hw.of_inRing hsr)
  have hends' : ((Node.receive nr.self.addr (Message.bytes ⟨tx, .findSuccessorRsp o f.start
      (UInt32.ofNat kk)⟩)).run (c.startTurn m)).2.Ends m fs' (ask.toList.map T.asked) := by
    rw [hrun]
    refine ⟨hends.links.trans hTl, hends.fingers, ?_⟩
    rw [hends.outgoing, hT]
    rfl
  obtain ⟨m', hl', hf', hmem, hq, hend, hcut'⟩ := Cluster.deliverAt_ends hk hsrc hdst hj hm hends'
  have hprefix : ∀ (k' : Nat) (g' : Finger), k' < kk + 1 → T.node.ring.fingers[k']? = some g' →
      g'.Exact c₀.ringMembers := by
    intro k' g' hk' hg'
    rw [hTf, Array.getElem?_modify] at hg'
    split at hg'
    · next he =>
      subst he
      rw [hf, Option.map_some, Option.some.injEq] at hg'
      rw [← hg']
      exact ⟨hown.1.mem_ringMembers, hfs ▸ hown.2⟩
    · exact hpre k' (show k' < kk by omega) g' hg'
  have hplaces' : fs'.map Finger.place = n₀.ring.fingers.map Finger.place := by
    have hc' := Finger.places_carryOwners T.node.ring.fingers (List.range' (kk + 1) (idBits - (kk + 1)))
    rw [hcarry, hTf, Finger.places_modify] at hc'
    exact hc'.trans hplaces
  have hring := (Cluster.sameLinks_modify hm hl' hmem hend hcut').trans h.ring
  have hnew : (c.deliverAt k).members[i]? = some m' := by
    rw [hmem, Array.getElem?_modify, if_pos rfl, hm]
    rfl
  have hrest := List.perm_eraseIdx_of_perm_cons hk (by
    simpa only [Option.bind_some, FingerLookup.datagram, Option.toList_some,
      List.singleton_append, hfs] using h.queue.trans List.perm_append_comm)
  rcases carryOwners_exact (idBits - (kk + 1)) T.node.ring.fingers (kk + 1) (by omega)
      (by rw [hTf, Array.size_modify, hmsize]; omega) hprefix fs' ask hcarry with
    ⟨rfl, hall⟩ | ⟨k', f', hk', rfl, hf'', hbelow⟩
  · -- the whole table is exact, and nothing more is asked
    refine ⟨none, ⟨hring, ⟨m', hnew, hf' ▸ hplaces', fun g' hg' => ?_⟩, ?_⟩, ?_⟩
    · obtain ⟨k'', hk''⟩ := Array.mem_iff_getElem?.1 (hf' ▸ hg')
      exact hall k'' g' hk''
    · rw [hq]
      simpa using hrest
    · simp only [Option.elim, FingerLookup.weight, Leg.weight]
      omega
  · -- the next entry that needs it is asked for, from the member's successor
    obtain ⟨hidx, hstart⟩ := Finger.place_of_places hplaces' hshape hf''
    have hk'lt : k' < idBits := by
      have hsz : fs'.size = idBits := by simpa [hsize] using congrArg Array.size hplaces'
      have := (Array.getElem?_eq_some_iff.1 hf'').1
      omega
    have had := T.asked_datagram hidx (by rw [hTself, hmself]; exact hstart)
    rw [hTself, hTsucc, hmself, hmsucc] at had
    refine ⟨some ⟨k', T.node.lastTx + 1, .asking n₀.self.addr n₀.ring.successor⟩,
      ⟨hring, ⟨m', hnew, hf' ▸ hplaces', hk'lt, rfl, ⟨⟨n₀.self, hme, rfl⟩, hsr⟩,
        fun k'' hk'' g' hg' => hbelow k'' g' hk'' (hf' ▸ hg')⟩, ?_⟩, ?_⟩
    · rw [hq]
      simp only [Option.toList_some, List.map_cons, List.map_nil, Option.bind_some, had, hmself]
      exact hrest.append_right _
    · -- a later entry, and a request that passes each member at most once
      have harc := Ring.arcCount_lt_length hsr.id_mem (n₀.self.id.addPow2 k')
      have h₁ : (idBits - k') * (c₀.ringIds.length + 3) ≤
          (idBits - kk - 1) * (c₀.ringIds.length + 3) := Nat.mul_le_mul_right _ (by omega)
      have h₂ : (idBits - kk - 1) * (c₀.ringIds.length + 3) + (c₀.ringIds.length + 3) =
          (idBits - kk) * (c₀.ringIds.length + 3) := by
        rw [← Nat.succ_mul]
        congr 1
        omega
      simp only [Option.elim, FingerLookup.weight, Leg.weight]
      omega

theorem deliverAt (hshape : n₀.Shaped) (hsize : n₀.ring.fingers.size = idBits)
    (h : Repairing c₀ i n₀ e w c) {k : Nat} (hk : k < c.queue.toList.length) :
    ∃ e' w', Repairing c₀ i n₀ e' w' (c.deliverAt k) ∧
      tickWeight c₀.ringIds n₀ e' w' < tickWeight c₀.ringIds n₀ e w := by
  have hd : c.queue.toList[k]? = some c.queue.toList[k] := List.getElem?_eq_getElem hk
  rcases List.mem_append.1 (h.queue.subset (List.getElem_mem hk)) with hx | hx
  · -- the exchange's datagram
    cases e with
    | request =>
      rw [List.mem_singleton.1 hx] at hd
      refine ⟨.answer, w, h.deliver_request hc hw hcut hi hin hd, ?_⟩
      simp only [tickWeight, Exchange.weight]
      omega
    | answer =>
      rw [List.mem_singleton.1 hx] at hd
      refine ⟨.ended, w, h.deliver_answer hc hw hcut hi hin hd, ?_⟩
      simp only [tickWeight, Exchange.weight]
      omega
    | ended => cases hx
  · -- the lookup's datagram
    cases w with
    | none => cases hx
    | some l =>
      obtain ⟨kk, tx, leg⟩ := l
      cases leg with
      | asking src hd' =>
        rw [List.mem_singleton.1 hx] at hd
        obtain ⟨leg', h', hlt⟩ := h.deliver_asking hc hw hcut hi hin hd
        refine ⟨e, some ⟨kk, tx, leg'⟩, h', ?_⟩
        simp only [tickWeight, Option.elim_some, FingerLookup.weight]
        omega
      | answered src o =>
        rw [List.mem_singleton.1 hx] at hd
        obtain ⟨w', h', hlt⟩ := h.deliver_answered hc hw hcut hi hin hshape hsize hd
        refine ⟨e, w', h', ?_⟩
        simp only [tickWeight, Option.elim_some]
        omega
      | storing _ _ => cases hx
      | kept _ => cases hx

theorem delivering (hshape : n₀.Shaped) (hsize : n₀.ring.fingers.size = idBits)
    (h : Repairing c₀ i n₀ e w c) {c' : Cluster} (hrun : Cluster.Delivering c c') :
    ∃ e' w', Repairing c₀ i n₀ e' w' c' := by
  refine Cluster.Run.invariant (I := fun c => ∃ e w, Repairing c₀ i n₀ e w c) ?_ hrun ⟨e, w, h⟩
  rintro c₁ c₂ ⟨e₁, w₁, h₁⟩ hstep
  cases hstep with
  | act hno => exact hno.elim
  | deliver k =>
    by_cases hk : k < c₁.queue.toList.length
    · obtain ⟨e₂, w₂, h₂, -⟩ := h₁.deliverAt hc hw hcut hi hin hshape hsize hk
      exact ⟨e₂, w₂, h₂⟩
    · rw [Cluster.deliverAt_of_length_le (Nat.le_of_not_lt hk)]
      exact ⟨e₁, w₁, h₁⟩

theorem drains (hshape : n₀.Shaped) (hsize : n₀.ring.fingers.size = idBits)
    (h : Repairing c₀ i n₀ e w c) : ∃ c', Cluster.Delivering c c' ∧ c'.queue.toList = [] := by
  induction hW : tickWeight c₀.ringIds n₀ e w using Nat.strong_induction_on generalizing e w c with
  | _ W ih =>
    cases hq : c.queue.toList with
    | nil => exact ⟨c, .refl, hq⟩
    | cons d ds =>
      have hk : 0 < c.queue.toList.length := by simp [hq]
      obtain ⟨e', w', h', hlt⟩ := h.deliverAt hc hw hcut hi hin hshape hsize hk
      obtain ⟨c', hrun, hempty⟩ := ih _ (hW ▸ hlt) h' rfl
      exact ⟨c', .head (.deliver 0) hrun, hempty⟩

omit hcut in
/-- Right after the tick, the invariant holds with the exchange's request in flight: entry 0
names the successor, the entries the repair carried an owner into are exact, and the first
entry it could not carry into is asked for. -/
theorem start (hshape : n₀.Shaped) (hsize : n₀.ring.fingers.size = idBits)
    (hq : c₀.queue.toList = []) : ∃ w, Repairing c₀ i n₀ .request w (c₀.turn i Ring.stabilize).2 := by
  have hmem₀ := Array.mem_of_getElem? hi
  have hme : c₀.InRing n₀.self := ⟨n₀, hmem₀, rfl, hin⟩
  obtain ⟨hsr, hfol⟩ := hc.successor n₀ hmem₀ hin
  have hl : (c₀.startTurn n₀).linkOpen = true :=
    Cluster.linkOpen_of_handlerOf (hc.handler i n₀ hi hin)
  obtain ⟨T₂, hT₂⟩ : ∃ T₂ : Turn, T₂ = ((c₀.startTurn n₀).drawTx.sent
      (c₀.startTurn n₀).node.ring.successor.addr ((c₀.startTurn n₀).node.lastTx + 1)
      (.stabilizeReq (c₀.startTurn n₀).node.self)).mapRing fun r => { r with
        fingers := r.fingers.modify 0 fun f => { f with owner := r.successor } } := ⟨_, rfl⟩
  have hrun := stabilize_run (t := c₀.startTurn n₀) hin hsize
  rw [← hT₂] at hrun
  have hsent := Turn.sent_sent (t := (c₀.startTurn n₀).drawTx) (n₀.lastTx + 1)
    (hw.of_inRing hsr).isSet (show Body.Exact (.stabilizeReq n₀.self) from
      .of_onWire (hw.of_inRing hme)) hl
  have hTl : T₂.node.links = n₀.links := by
    rw [hT₂]
    simp [Node.links, Turn.mapRing, Turn.drawTx, Cluster.startTurn]
  have hTf : T₂.node.ring.fingers =
      n₀.ring.fingers.modify 0 fun f => { f with owner := n₀.ring.successor } := by
    rw [hT₂]
    simp [Turn.mapRing, Turn.drawTx, Cluster.startTurn]
  obtain ⟨hTself, -, hTsucc, -⟩ := Node.links_eq.1 hTl
  have hTout : T₂.outgoing.toList = [(n₀.ring.successor.addr,
      (⟨n₀.lastTx + 1, .stabilizeReq n₀.self⟩ : Message).bytes)] := by
    rw [hT₂]
    exact hsent.outgoing
  obtain ⟨fs, ask, hcarry⟩ : ∃ fs ask, Ring.carryOwners T₂.node.ring.fingers
      (List.range' 1 (idBits - 1)) = (fs, ask) := ⟨_, _, rfl⟩
  have hends := Turn.repaired_ends hcarry (by rw [hT₂]; exact hsent.linkOpen.trans hl)
    (by rw [hTself]; exact hw.of_inRing hme) (by rw [hTsucc]; exact hw.of_inRing hsr)
  have hprefix : ∀ (k : Nat) (f : Finger), k < 1 → T₂.node.ring.fingers[k]? = some f →
      f.Exact c₀.ringMembers := by
    intro k f hk hf
    obtain rfl : k = 0 := by omega
    rw [hTf, Array.getElem?_modify, if_pos rfl] at hf
    obtain ⟨f₀, hf₀, rfl⟩ := Option.map_eq_some_iff.1 hf
    have hstart := (Finger.place_of_places rfl hshape hf₀).2
    exact ⟨hsr.mem_ringMembers, hstart ▸ hfol.firstFrom_next⟩
  have hplaces : fs.map Finger.place = n₀.ring.fingers.map Finger.place := by
    have hc' := Finger.places_carryOwners T₂.node.ring.fingers (List.range' 1 (idBits - 1))
    rw [hcarry, hTf, Finger.places_modify] at hc'
    exact hc'
  rw [Cluster.turn_run hi, hrun]
  have hring : (c₀.afterTurn i n₀ (T₂.repaired 1)).SameLinks c₀ :=
    Cluster.sameLinks_modify hi (hends.links.trans hTl) rfl rfl rfl
  have hnew : (c₀.afterTurn i n₀ (T₂.repaired 1)).members[i]? = some (T₂.repaired 1).node :=
    Cluster.getElem?_modify_self hi _
  have hqueue : (c₀.afterTurn i n₀ (T₂.repaired 1)).queue.toList =
      ⟨n₀.self.addr, n₀.ring.successor.addr,
        Message.bytes ⟨n₀.lastTx + 1, .stabilizeReq n₀.self⟩⟩ ::
        ask.toList.map fun f => ⟨n₀.self.addr, (T₂.asked f).1, (T₂.asked f).2⟩ := by
    rw [Cluster.afterTurn_queue, hq, hends.outgoing, hTout]
    simp
  rcases carryOwners_exact (idBits - 1) T₂.node.ring.fingers 1 le_rfl
      (by rw [hTf, Array.size_modify, hsize]; decide) hprefix fs ask hcarry with
    ⟨rfl, hall⟩ | ⟨k, f, hk, rfl, hf, hbelow⟩
  · -- every entry could be carried: nothing is asked
    refine ⟨none, hring, ⟨_, hnew, hends.fingers ▸ hplaces, fun f hf => ?_⟩, ?_⟩
    · obtain ⟨k, hk⟩ := Array.mem_iff_getElem?.1 (hends.fingers ▸ hf)
      exact hall k f hk
    · rw [hqueue]
      simp [Exchange.datagram]
  · -- entry `k` is asked for, from the successor
    obtain ⟨hidx, hstart⟩ := Finger.place_of_places hplaces hshape hf
    have hklt : k < idBits := by
      have hsz : fs.size = idBits := by simpa [hsize] using congrArg Array.size hplaces
      have := (Array.getElem?_eq_some_iff.1 hf).1
      omega
    have had := T₂.asked_datagram hidx (by rw [hTself]; exact hstart)
    rw [hTself, hTsucc] at had
    refine ⟨some ⟨k, T₂.node.lastTx + 1, .asking n₀.self.addr n₀.ring.successor⟩, hring,
      ⟨_, hnew, hends.fingers ▸ hplaces, hklt, rfl, ⟨⟨n₀.self, hme, rfl⟩, hsr⟩,
        fun k' hk' g hg => hbelow k' g hk' (hends.fingers ▸ hg)⟩, ?_⟩
    rw [hqueue]
    simp [Exchange.datagram, had]

end Repairing

/-! ### A ring of one

A member alone in the ring is its own successor and predecessor, and the test lets it through
into every entry of its table, so the tick asks for nothing and its only datagram is the
request the member sends itself. That request is answered as the others when the wire carries
the member; node `0` at `0.0.0.0` reads it as naming nobody and answers nobody. -/

theorem Cluster.membersOnWire_solo {c : Cluster} {r : NodeRef} (hsolo : c.ringMembers = [r])
    (hr : r.OnWire) : c.MembersOnWire := by
  intro p hp hin
  have hmem := Cluster.mem_ringMembers hp hin
  rw [hsolo, List.mem_singleton] at hmem
  rw [hmem]
  exact hr

namespace Repairing

variable {c₀ c : Cluster} {i : Nat} {n₀ : Node}

theorem queue_request (h : Repairing c₀ i n₀ .request none c) :
    c.queue.toList = [⟨n₀.self.addr, n₀.ring.successor.addr,
      Message.bytes ⟨n₀.lastTx + 1, .stabilizeReq n₀.self⟩⟩] := by
  simpa [Exchange.datagram] using h.queue

theorem queue_ended (h : Repairing c₀ i n₀ .ended none c) : c.queue.toList = [] := by
  simpa [Exchange.datagram] using h.queue

variable (hc : c₀.Correct) (hi : c₀.members[i]? = some n₀) (hin : n₀.ring.inRing = true)
  (hsolo : c₀.ringMembers = [n₀.self])
include hc hi hin hsolo

theorem successor_solo : n₀.ring.successor = n₀.self := by
  have hmem := (hc.successor n₀ (Array.mem_of_getElem? hi) hin).1.mem_ringMembers
  rw [hsolo] at hmem
  exact List.mem_singleton.1 hmem

theorem start_solo (hshape : n₀.Shaped) (hsize : n₀.ring.fingers.size = idBits)
    (hq : c₀.queue.toList = []) : Repairing c₀ i n₀ .request none (c₀.turn i Ring.stabilize).2 := by
  have hmem₀ := Array.mem_of_getElem? hi
  have hsucc := successor_solo hc hi hin hsolo
  have hl : (c₀.startTurn n₀).linkOpen = true :=
    Cluster.linkOpen_of_handlerOf (hc.handler i n₀ hi hin)
  obtain ⟨T₂, hT₂⟩ : ∃ T₂ : Turn, T₂ = ((c₀.startTurn n₀).drawTx.sent
      (c₀.startTurn n₀).node.ring.successor.addr ((c₀.startTurn n₀).node.lastTx + 1)
      (.stabilizeReq (c₀.startTurn n₀).node.self)).mapRing fun r => { r with
        fingers := r.fingers.modify 0 fun f => { f with owner := r.successor } } := ⟨_, rfl⟩
  have hrun := stabilize_run (t := c₀.startTurn n₀) hin hsize
  rw [← hT₂] at hrun
  have hsent := Turn.sent_sent_wired (t := (c₀.startTurn n₀).drawTx) (n₀.lastTx + 1)
    (show n₀.ring.successor.addr.isSet = true by rw [hsucc]; exact hc.addressed n₀ hmem₀)
    (show Body.Exact (Body.stabilizeReq n₀.self).wire from
      (hc.wired n₀ hmem₀ hin).exact_wire) hl
  have hTl : T₂.node.links = n₀.links := by
    rw [hT₂]
    simp [Node.links, Turn.mapRing, Turn.drawTx, Cluster.startTurn]
  have hTf : T₂.node.ring.fingers =
      n₀.ring.fingers.modify 0 fun f => { f with owner := n₀.ring.successor } := by
    rw [hT₂]
    simp [Turn.mapRing, Turn.drawTx, Cluster.startTurn]
  have hTout : T₂.outgoing.toList = [(n₀.ring.successor.addr,
      (⟨n₀.lastTx + 1, .stabilizeReq n₀.self⟩ : Message).bytes)] := by
    rw [hT₂]
    exact hsent.outgoing
  obtain ⟨fs, ask, hcarry⟩ : ∃ fs ask, Ring.carryOwners T₂.node.ring.fingers
      (List.range' 1 (idBits - 1)) = (fs, ask) := ⟨_, _, rfl⟩
  have hplaces : fs.map Finger.place = n₀.ring.fingers.map Finger.place := by
    have hc' := Finger.places_carryOwners T₂.node.ring.fingers (List.range' 1 (idBits - 1))
    rw [hcarry, hTf, Finger.places_modify] at hc'
    exact hc'
  have h0 : ∀ f, T₂.node.ring.fingers[0]? = some f → f.owner = n₀.self := by
    intro f hf
    rw [hTf, Array.getElem?_modify, if_pos rfl] at hf
    obtain ⟨f₀, -, rfl⟩ := Option.map_eq_some_iff.1 hf
    exact hsucc
  obtain ⟨rfl, hall⟩ := carryOwners_solo (by rw [hTf, Array.size_modify, hsize]) h0
    (fun k f hf => Finger.place_of_places hplaces hshape hf) hcarry
  have he : T₂.repaired 1 = T₂.mapRing fun r => { r with fingers := fs } := by
    simp only [Turn.repaired, hcarry]
  rw [Cluster.turn_run hi, hrun, he]
  refine ⟨Cluster.sameLinks_modify hi (by simpa [Node.links, Turn.mapRing] using hTl) rfl rfl rfl,
    ⟨_, Cluster.getElem?_modify_self hi _, hplaces, fun f hf => by rw [hsolo]; exact hall f hf⟩, ?_⟩
  rw [Cluster.afterTurn_queue, hq]
  simp [Turn.mapRing, hTout, Exchange.datagram]

theorem deliver_request_unwired
    (hcut : ∀ n ∈ c₀.members, n.ring.inRing = true → n.self.addr ∉ c₀.cut)
    (hoff : ¬ n₀.self.OnWire) (h : Repairing c₀ i n₀ .request none c) {k : Nat}
    (hk : c.queue.toList[k]? = some ⟨n₀.self.addr, n₀.ring.successor.addr,
      Message.bytes ⟨n₀.lastTx + 1, .stabilizeReq n₀.self⟩⟩) :
    Repairing c₀ i n₀ .ended none (c.deliverAt k) := by
  have hmem₀ := Array.mem_of_getElem? hi
  have hq₀ := h.queue_request
  obtain rfl : k = 0 := by
    have := (List.getElem?_eq_some_iff.1 hk).1
    simp only [hq₀, List.length_singleton] at this
    omega
  obtain ⟨hj, hdst, m, hm, -⟩ := h.ring.reach hc hcut hi hin
  have hbytes : Message.bytes ⟨n₀.lastTx + 1, .stabilizeReq n₀.self⟩ =
      Message.bytes ⟨n₀.lastTx + 1, .stabilizeReq NodeRef.unset⟩ := by
    rw [← (hc.wired n₀ hmem₀ hin).wire_of_not_onWire hoff]
    exact (Turn.Message.bytes_wire _ (.stabilizeReq n₀.self)).symm
  rw [successor_solo hc hi hin hsolo, hbytes] at hk
  have hends := Turn.Ends.of_sends
    (receive_stabilizeReq_unset n₀.self.addr (n₀.lastTx + 1) (c.startTurn m)) rfl
  obtain ⟨m', hl', hf', hmem, hq, hend, hcut'⟩ := Cluster.deliverAt_ends hk hdst hdst hj hm hends
  refine ⟨(Cluster.sameLinks_modify hm hl' hmem hend hcut').trans h.ring, ?_, ?_⟩
  · rw [hmem]
    exact table_keep (P := fun fs => fs.map Finger.place = n₀.ring.fingers.map Finger.place ∧
      Walks c₀ n₀.self fs none) h.table hm hf'
  · rw [hq, hq₀]
    simp [Exchange.datagram]

theorem delivering_unwired
    (hcut : ∀ n ∈ c₀.members, n.ring.inRing = true → n.self.addr ∉ c₀.cut)
    (hoff : ¬ n₀.self.OnWire) (h : Repairing c₀ i n₀ .request none c) {c' : Cluster}
    (hrun : Cluster.Delivering c c') : ∃ e, Repairing c₀ i n₀ e none c' := by
  have hinv := Cluster.Run.invariant (I := fun c => Repairing c₀ i n₀ .request none c ∨
    Repairing c₀ i n₀ .ended none c) ?_ hrun (.inl h)
  · rcases hinv with h' | h'
    · exact ⟨_, h'⟩
    · exact ⟨_, h'⟩
  rintro c₁ c₂ h₁ hstep
  cases hstep with
  | act hno => exact hno.elim
  | deliver k =>
    by_cases hk : k < c₁.queue.toList.length
    · rcases h₁ with h₁ | h₁
      · -- the request is the only datagram in flight
        have hq₁ := h₁.queue_request
        rw [hq₁] at hk
        obtain rfl : k = 0 := by simpa using hk
        exact .inr (h₁.deliver_request_unwired hc hi hin hsolo hcut hoff (by rw [hq₁]; rfl))
      · rw [h₁.queue_ended] at hk
        exact absurd hk (Nat.not_lt_zero k)
    · rw [Cluster.deliverAt_of_length_le (Nat.le_of_not_lt hk)]
      exact h₁

theorem drains_unwired
    (hcut : ∀ n ∈ c₀.members, n.ring.inRing = true → n.self.addr ∉ c₀.cut)
    (hoff : ¬ n₀.self.OnWire) (h : Repairing c₀ i n₀ .request none c) :
    ∃ c', Cluster.Delivering c c' ∧ c'.queue.toList = [] := by
  have h' := h.deliver_request_unwired hc hi hin hsolo hcut hoff (k := 0)
    (by rw [h.queue_request]; rfl)
  exact ⟨_, .head (.deliver 0) .refl, h'.queue_ended⟩

end Repairing

namespace Cluster

/-- A stabilize tick makes the finger table exact on a correct ring. A ring member of a
quiescent cluster whose ring members form a correct ring, reached at addresses not cut off,
runs a stabilize tick with a complete table; the ring members are carried by the wire, or the
member is alone in the ring. The datagrams this causes can all be delivered; and once they
are, in any order with nothing else interleaved, every member holds the place it had in the
ring, and entry `j` of the member's table starts `2 ^ j` past it and names the first member at
or after that start, whatever the owners were before. -/
theorem stabilize_repairs_table {c₀ : Cluster} (hc : c₀.Correct)
    (hcut : ∀ n ∈ c₀.members, n.ring.inRing = true → n.self.addr ∉ c₀.cut)
    (hq : c₀.queue.toList = []) {i : Nat} {n₀ : Node} (hi : c₀.members[i]? = some n₀)
    (hin : n₀.ring.inRing = true) (hw : c₀.MembersOnWire ∨ c₀.ringMembers = [n₀.self])
    (hshape : n₀.Shaped) (hsize : n₀.ring.fingers.size = idBits) :
    (∃ c, Delivering (c₀.turn i Ring.stabilize).2 c ∧ c.queue.toList = []) ∧
    ∀ c, Delivering (c₀.turn i Ring.stabilize).2 c → c.queue.toList = [] →
      c.members.map Node.links = c₀.members.map Node.links ∧
      ∃ n, c.members[i]? = some n ∧ n.ring.fingers.size = idBits ∧
        ∀ j < idBits, ∃ f, n.ring.fingers[j]? = some f ∧ f.start = n₀.self.id.addPow2 j ∧
          f.Exact c₀.ringMembers := by
  by_cases hwire : c₀.MembersOnWire
  · obtain ⟨w, hstart⟩ := Repairing.start hc hwire hi hin hshape hsize hq
    refine ⟨hstart.drains hc hwire hcut hi hin hshape hsize, fun c hrun hq' => ?_⟩
    obtain ⟨e', w', h'⟩ := hstart.delivering hc hwire hcut hi hin hshape hsize hrun
    exact h'.exact_table hq' hshape hsize
  · -- alone in the ring and not carried by the wire: node `0` at `0.0.0.0`
    have hsolo := hw.resolve_left hwire
    have hoff : ¬ n₀.self.OnWire := fun hon => hwire (Cluster.membersOnWire_solo hsolo hon)
    have hstart := Repairing.start_solo hc hi hin hsolo hshape hsize hq
    refine ⟨hstart.drains_unwired hc hi hin hsolo hcut hoff, fun c hrun hq' => ?_⟩
    obtain ⟨e', h'⟩ := hstart.delivering_unwired hc hi hin hsolo hcut hoff hrun
    exact h'.exact_table hq' hshape hsize

/-- A complete table for the member at `me` whose every entry names nobody. -/
def blankTable (me : NodeRef) : Array Finger :=
  ((List.range idBits).map fun j => (⟨j, me.id.addPow2 j, NodeRef.unset⟩ : Finger)).toArray

/-- Node 1 of `stillPair`, with a complete table that names nobody. -/
def blankOwners : Node :=
  { pairedWith refOne refTwo with
    ring := { (pairedWith refOne refTwo).ring with fingers := blankTable refOne } }

/-- `stillPair`, with node 1's table complete and every entry wrong. -/
def tablePair : Cluster := { stillPair with members := #[blankOwners, pairedWith refTwo refOne] }

theorem tablePair_correct : tablePair.Correct :=
  stillPair_correct.of_sameLinks ⟨by simp [tablePair, stillPair, blankOwners, Node.links], rfl, rfl⟩

theorem tablePair_membersOnWire : tablePair.MembersOnWire := by
  intro p hp _
  simp only [peers, tablePair, List.map_cons, List.map_nil, List.mem_cons, List.not_mem_nil,
    or_false] at hp
  rcases hp with rfl | rfl
  · exact ⟨[10, 0, 0, 1], rfl, rfl, by decide⟩
  · exact ⟨[10, 0, 0, 2], rfl, rfl, by decide⟩

theorem blankOwners_shaped : blankOwners.Shaped :=
  Membership.Shaped.of_complete rfl rfl

theorem tablePair_repairs :
    tablePair.Correct ∧
    (∀ n ∈ tablePair.members, n.ring.inRing = true → n.self.addr ∉ tablePair.cut) ∧
    tablePair.queue.toList = [] ∧ tablePair.members[0]? = some blankOwners ∧
    blankOwners.ring.inRing = true ∧
    (tablePair.MembersOnWire ∨ tablePair.ringMembers = [blankOwners.self]) ∧
    blankOwners.Shaped ∧ blankOwners.ring.fingers.size = idBits ∧
    (∃ c, Delivering (tablePair.turn 0 Ring.stabilize).2 c ∧ c.queue.toList = []) ∧
    ∀ c, Delivering (tablePair.turn 0 Ring.stabilize).2 c → c.queue.toList = [] →
      c.members.map Node.links = tablePair.members.map Node.links ∧
      ∃ n, c.members[0]? = some n ∧ n.ring.fingers.size = idBits ∧
        ∀ j < idBits, ∃ f, n.ring.fingers[j]? = some f ∧ f.start = blankOwners.self.id.addPow2 j ∧
          f.Exact tablePair.ringMembers := by
  have hcut : ∀ n ∈ tablePair.members, n.ring.inRing = true → n.self.addr ∉ tablePair.cut :=
    fun _ _ _ => List.not_mem_nil
  have hsize : blankOwners.ring.fingers.size = idBits := by simp [blankOwners, blankTable]
  have hq : tablePair.queue.toList = [] := rfl
  have hi : tablePair.members[0]? = some blankOwners := rfl
  have hin : blankOwners.ring.inRing = true := rfl
  exact ⟨tablePair_correct, hcut, hq, hi, hin, .inl tablePair_membersOnWire, blankOwners_shaped,
    hsize, stabilize_repairs_table tablePair_correct hcut hq hi hin (.inl tablePair_membersOnWire)
      blankOwners_shaped hsize⟩

end Cluster

end ChordSearch
