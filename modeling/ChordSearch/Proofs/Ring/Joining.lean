import ChordSearch.Proofs.Ring.Splice

/-! # A node joining a correct ring

A node `X` outside a correct ring that joins through a ring member `L` sends its request to
`L`. The request travels along successors to the member whose successor owns `X`'s position,
which answers, naming that successor `S`, to `S`; the answer travels along successors to `L`,
which relays it to `X`. `X` then enters the ring after `S` and builds its table entry by entry,
each entry's owner asked of `S` and the answer adding the next entry. Every datagram of the
join is the one in flight at its stage (`JoinStage`), and delivering it moves the join on.

* `Cluster.delivering_of`, `Cluster.drains_of`: an invariant under some stage, kept by every
  delivery, holds along every run that only delivers; when each delivery lowers a weight of
  the stage, the queue drains.
* `Arrival.Joins`: the invariant: every other member as it was but for its counters, the
  joiner as the stage leaves it, and the stage's datagram alone on the queue.
* `Arrival.Joins.start`, `Arrival.Joins.deliverAt`: the invariant after the join request, and
  through any delivery, with a lower weight.
* `Arrival.join_splices`: the join drains, and once drained the joiner is in phase 0 of its
  entry (`Arrival.Spliced`): in the ring after `S`, with a complete table, and no member yet
  pointing at it.
-/

namespace ChordSearch

open NodeM

/-! ### Runs that only deliver -/

namespace Cluster

variable {σ : Type} {I : σ → Cluster → Prop}

theorem delivering_of
    (hstep : ∀ s c k, I s c → k < c.queue.toList.length → ∃ s', I s' (c.deliverAt k))
    {s : σ} {c c' : Cluster} (h : I s c) (hrun : Delivering c c') : ∃ s', I s' c' := by
  induction hrun with
  | refl => exact ⟨s, h⟩
  | @tail b _ _ hst ih =>
    obtain ⟨s₁, h₁⟩ := ih
    cases hst with
    | act hno => exact hno.elim
    | deliver k =>
      by_cases hk : k < b.queue.toList.length
      · exact hstep _ _ k h₁ hk
      · rw [deliverAt_of_length_le (Nat.le_of_not_lt hk)]
        exact ⟨s₁, h₁⟩

theorem drains_of (W : σ → Nat)
    (hstep : ∀ s c k, I s c → k < c.queue.toList.length →
      ∃ s', I s' (c.deliverAt k) ∧ W s' < W s)
    {s : σ} {c : Cluster} (h : I s c) :
    ∃ c' s', Delivering c c' ∧ I s' c' ∧ c'.queue.toList = [] := by
  induction hW : W s using Nat.strong_induction_on generalizing s c with
  | _ w ih =>
    cases hq : c.queue.toList with
    | nil => exact ⟨c, s, .refl, h, hq⟩
    | cons d ds =>
      obtain ⟨s', h', hlt⟩ := hstep s c 0 h (by simp [hq])
      obtain ⟨c', s'', hrun, h'', hempty⟩ := ih _ (hW ▸ hlt) h' rfl
      exact ⟨c', s'', .head (.deliver 0) hrun, h'', hempty⟩

/-- A queued datagram handled in the turn of member `j`, which ends as `T`: the member is
replaced by the turn's node, the datagram leaves the queue, and what the turn sent joins it
from the member's address. -/
theorem deliverAt_turn {c : Cluster} {k : Nat} {d : Datagram} {j : Nat} {m : Node} {T : Turn}
    (hd : c.queue.toList[k]? = some d) (hsrc : d.src ∉ c.cut) (hdst : d.dst ∉ c.cut)
    (hj : c.handlerOf d.dst = some j) (hm : c.members[j]? = some m)
    (hT : ((Node.receive d.src d.data).run (c.startTurn m)).2 = T) :
    (c.deliverAt k).members = c.members.modify j (fun _ => T.node) ∧
      (c.deliverAt k).queue.toList =
        c.queue.toList.eraseIdx k ++ T.outgoing.toList.map (fun p => ⟨m.self.addr, p.1, p.2⟩) ∧
      (c.deliverAt k).endpoints = c.endpoints ∧ (c.deliverAt k).cut = c.cut := by
  rw [deliverAt_member hd hsrc hdst hj hm, hT]
  refine ⟨rfl, ?_, rfl, rfl⟩
  rw [afterTurn_queue, taken_queue]

end Cluster

/-! ### The join, handler by handler -/

/-- Arrival `k` of the table of the node at `me` as it is added: starting `2 ^ k` past `me`,
with no owner known yet. -/
def Finger.blank (me : RingId) (k : Nat) : Finger := ⟨k, me.addPow2 k, NodeRef.unset⟩

@[simp] theorem Finger.blank_index (me : RingId) (k : Nat) : (Finger.blank me k).index = k := by
  simp [Finger.blank]

@[simp] theorem Finger.blank_start (me : RingId) (k : Nat) :
    (Finger.blank me k).start = me.addPow2 k := by
  simp [Finger.blank]

namespace Turn

/-- The turn after asking to join through `L`: the node is joining, and its request goes to `L`
under a fresh transaction id. -/
def joinAsked (L : NodeRef) (t : Turn) : Turn :=
  (t.mapRing fun r => { r with joining := true }).drawTx.sent L.addr (t.node.lastTx + 1)
    (.joinReq L t.node.self)

/-- The turn after adding entry `k` to the table and asking the successor for its owner. -/
def grown (k : Nat) (t : Turn) : Turn :=
  (t.mapRing fun r => { r with fingers := r.fingers.push (Finger.blank t.node.self.id k) }).requested
    (Finger.blank t.node.self.id k)

/-- The turn after entering the ring after `S`: in the ring, with `S` as successor and an empty
table, to which entry 0 is added and asked for. -/
def entered (S : NodeRef) (t : Turn) : Turn :=
  (((t.mapRing fun r => { r with inRing := true, joining := false, fingers := #[] }).successorSet
    S).noted .nodeJoin S.toText (Bytes.ofString "joined ring")).grown 0

end Turn

theorem join_run {t : Turn} {L : NodeRef} (hout : t.node.ring.inRing = false)
    (hL : L.isUnset = false) (hne : L ≠ t.node.self) :
    (Op.join L).act.run t = ((), t.joinAsked L) := by
  have hsame : L.same t.node.self = false := by
    rw [← Bool.not_eq_true, NodeRef.same_iff]
    exact hne
  have hout' : ¬ t.node.ring.inRing = true := by simp [hout]
  simp only [Op.act, Ring.join, ring, self, nextTx, node, modifyNode, modifyRing, StateT.run_bind,
    StateT.run_get, StateT.run_pure, StateT.run_modify, pure_bind, hout', hL, hsame,
    Bool.false_eq_true, ↓reduceIte, send_run]
  simp only [Turn.joinAsked, Turn.mapRing, Turn.drawTx, hout]
  rfl

theorem initFinger_run {t : Turn} {k : Nat} (hk : k < idBits)
    (hsize : t.node.ring.fingers.size = k) :
    (Ring.initFinger (k + 1)).run t = ((), t.grown k) := by
  have hguard : (decide (k + 1 < 1) || decide (k + 1 > idBits) ||
      t.node.ring.fingers.size != k) = false := by
    have h₁ : ¬ k + 1 < 1 := by omega
    have h₂ : ¬ k + 1 > idBits := by omega
    simp only [h₁, h₂, decide_false, hsize, bne_self_eq_false, Bool.or_self]
  have hcast : ((k + 1 : Nat) : Int) - 1 = k := by omega
  unfold Ring.initFinger
  simp only [ring, self, StateT.run_bind, StateT.run_get, StateT.run_pure, pure_bind, hguard,
    Bool.false_eq_true, ↓reduceIte, modifyRing, modifyNode, StateT.run_modify, Nat.add_sub_cancel,
    hcast]
  exact requestFinger_run _ _

theorem joinReply_run_enters {t : Turn} {tx : UInt32} {L S : NodeRef} (hL : t.node.self ≠ L)
    (hout : t.node.ring.inRing = false) :
    (Ring.joinReply tx t.node.self L S).run t = ((), t.entered S) := by
  have hsame : t.node.self.same L = false := by
    rw [← Bool.not_eq_true, NodeRef.same_iff]
    exact hL
  have hme : t.node.self.same t.node.self = true := (NodeRef.same_iff _ _).2 rfl
  have hout' : ¬ t.node.ring.inRing = true := by simp [hout]
  unfold Ring.joinReply
  simp only [self, ring, StateT.run_bind, StateT.run_get, StateT.run_pure, pure_bind, hsame, hme,
    hout', Bool.false_eq_true, ↓reduceIte, modifyRing, modifyNode, StateT.run_modify,
    setSuccessor_run, report_run]
  exact initFinger_run (k := 0) (by decide) (by simp)

theorem foundSuccessor_run_grows {t : Turn} {k : Nat} {f : Finger} (hk : k + 1 < idBits)
    (hin : t.node.ring.inRing = true) (hsize : t.node.ring.fingers.size = k + 1)
    (hf : t.node.ring.fingers[k]? = some f) (tx : UInt32) (owner : NodeRef) :
    (Ring.foundSuccessor tx owner f.start (UInt32.ofNat k)).run t =
      ((), (t.mapRing fun r => { r with
        fingers := r.fingers.modify k fun c => { c with owner := owner } }).grown (k + 1)) := by
  have hidx : (UInt32.ofNat k).toNat = k := by
    simp only [UInt32.toNat_ofNat']
    unfold idBits at hk
    omega
  unfold Ring.foundSuccessor
  simp only [ofNat_ne_lookupIndex (show k < idBits by omega), beq_iff_eq, ring, StateT.run_bind,
    StateT.run_get, StateT.run_pure, pure_bind, hin, hidx, hf, hsize, bne_self_eq_false,
    Bool.not_true, Bool.false_eq_true, ↓reduceIte, hk, modifyRing, modifyNode, StateT.run_modify]
  rw [← hin]
  exact initFinger_run (t := t.mapRing fun r => { r with
    fingers := r.fingers.modify k fun c => { c with owner := owner } }) hk (by simp [hsize])

theorem joinRequest_sends {t : Turn} {tx : UInt32} {L r : NodeRef}
    (hin : t.node.ring.inRing = true) (hl : t.linkOpen = true) (hL : L.OnWire) (hr : r.OnWire)
    (hs : t.node.ring.successor.OnWire) :
    (Ring.joinRequest tx L r).Sends Node.uncounted t ()
      [(t.node.ring.successor.addr, Message.bytes ⟨tx,
        if Arc.owns t.node.self.id r.id t.node.ring.successor.id then
          .joinRsp r L t.node.ring.successor else .joinReq L r⟩)] := by
  by_cases ho : Arc.owns t.node.self.id r.id t.node.ring.successor.id = true
  · obtain ⟨t', hrun, hsent⟩ := @send_sends Node.uncounted forgets_uncounted t
      t.node.ring.successor.addr tx (.joinRsp r L t.node.ring.successor) hs.isSet
      ⟨.of_onWire hr, .of_onWire hL, .of_onWire hs⟩ hl
    refine ⟨t', ?_, ?_⟩
    · simp [Ring.joinRequest, ring, self, hin, ho, hrun]
    · simpa [ho] using hsent
  · obtain ⟨t', hrun, hsent⟩ := @send_sends Node.uncounted forgets_uncounted t
      t.node.ring.successor.addr tx (.joinReq L r) hs.isSet ⟨.of_onWire hL, .of_onWire hr⟩ hl
    refine ⟨t', ?_, ?_⟩
    · simp [Ring.joinRequest, ring, self, hin, ho, hrun]
    · simpa [ho] using hsent

theorem joinReply_passes {t : Turn} {tx : UInt32} {r L s : NodeRef} (hL : t.node.self ≠ L)
    (hr : t.node.self ≠ r) (hin : t.node.ring.inRing = true) (hl : t.linkOpen = true)
    (hb : (Body.joinRsp r L s).Exact) (hs : t.node.ring.successor.OnWire) :
    (Ring.joinReply tx r L s).Sends Node.uncounted t ()
      [(t.node.ring.successor.addr, Message.bytes ⟨tx, .joinRsp r L s⟩)] := by
  have hsL : t.node.self.same L = false := by
    rw [← Bool.not_eq_true, NodeRef.same_iff]
    exact hL
  have hsr : t.node.self.same r = false := by
    rw [← Bool.not_eq_true, NodeRef.same_iff]
    exact hr
  obtain ⟨t', hrun, hsent⟩ := @send_sends Node.uncounted forgets_uncounted t
    t.node.ring.successor.addr tx (.joinRsp r L s) hs.isSet hb hl
  exact ⟨t', by simp [Ring.joinReply, ring, self, hsL, hsr, hin, hrun], hsent⟩

theorem joinReply_relays {t : Turn} {tx : UInt32} {r s : NodeRef} (hl : t.linkOpen = true)
    (hb : (Body.joinRsp r t.node.self s).Exact) (hr : r.OnWire) :
    (Ring.joinReply tx r t.node.self s).Sends Node.uncounted t ()
      [(r.addr, Message.bytes ⟨tx, .joinRsp r t.node.self s⟩)] := by
  obtain ⟨t', hrun, hsent⟩ := @send_sends Node.uncounted forgets_uncounted t r.addr tx
    (.joinRsp r t.node.self s) hr.isSet hb hl
  exact ⟨t', by simp [Ring.joinReply, self, hrun], hsent⟩

theorem receive_sends_of_peer {src : Address} {t : Turn} {m : Message}
    {out : List (Address × Bytes)} (hb : m.body.Exact)
    (hh : ∀ t₁ : Turn, t₁.node.peer = t.node.peer → t₁.linkOpen = t.linkOpen →
      (Node.handle src m).Sends Node.uncounted t₁ () out) :
    (Node.receive src m.bytes).Sends Node.uncounted t () out :=
  receive_sends forgets_uncounted src (Message.decode_bytes hb) fun t₁ h₁ =>
    hh t₁ (h₁.peer forgets_uncounted) h₁.linkOpen

theorem receive_joinReq (src : Address) (tx : UInt32) {t : Turn} {L r : NodeRef}
    (hin : t.node.ring.inRing = true) (hl : t.linkOpen = true) (hL : L.OnWire) (hr : r.OnWire)
    (hs : t.node.ring.successor.OnWire) :
    (Node.receive src (Message.bytes ⟨tx, .joinReq L r⟩)).Sends Node.uncounted t ()
      [(t.node.ring.successor.addr, Message.bytes ⟨tx,
        if Arc.owns t.node.self.id r.id t.node.ring.successor.id then
          .joinRsp r L t.node.ring.successor else .joinReq L r⟩)] :=
  receive_sends_of_peer (show Body.Exact (.joinReq L r) from ⟨.of_onWire hL, .of_onWire hr⟩)
    fun t₁ hp hl₁ => by
      have hring : t₁.node.ring = t.node.ring := congrArg Peer.ring hp
      have hself : t₁.node.self = t.node.self := congrArg Peer.self hp
      have h := @joinRequest_sends t₁ tx L r (hring ▸ hin) (hl₁.trans hl) hL hr (hring ▸ hs)
      rw [hring, hself] at h
      exact h

theorem receive_joinRsp_passes (src : Address) (tx : UInt32) {t : Turn} {r L s : NodeRef}
    (hL : t.node.self ≠ L) (hr : t.node.self ≠ r) (hin : t.node.ring.inRing = true)
    (hl : t.linkOpen = true) (hb : (Body.joinRsp r L s).Exact)
    (hs : t.node.ring.successor.OnWire) :
    (Node.receive src (Message.bytes ⟨tx, .joinRsp r L s⟩)).Sends Node.uncounted t ()
      [(t.node.ring.successor.addr, Message.bytes ⟨tx, .joinRsp r L s⟩)] :=
  receive_sends_of_peer hb fun t₁ hp hl₁ => by
    have hring : t₁.node.ring = t.node.ring := congrArg Peer.ring hp
    have hself : t₁.node.self = t.node.self := congrArg Peer.self hp
    have h := @joinReply_passes t₁ tx r L s (hself ▸ hL) (hself ▸ hr) (hring ▸ hin)
      (hl₁.trans hl) hb (hring ▸ hs)
    rw [hring] at h
    exact h

theorem receive_joinRsp_relays (src : Address) (tx : UInt32) {t : Turn} {r s : NodeRef}
    (hl : t.linkOpen = true) (hb : (Body.joinRsp r t.node.self s).Exact) (hr : r.OnWire) :
    (Node.receive src (Message.bytes ⟨tx, .joinRsp r t.node.self s⟩)).Sends Node.uncounted t ()
      [(r.addr, Message.bytes ⟨tx, .joinRsp r t.node.self s⟩)] :=
  receive_sends_of_peer hb fun t₁ hp hl₁ => by
    have hself : t₁.node.self = t.node.self := congrArg Peer.self hp
    have h := @joinReply_relays t₁ tx r s (hl₁.trans hl) (hself ▸ hb) hr
    rw [hself] at h
    exact h

theorem receive_joinRsp_enters (src : Address) (tx : UInt32) {t : Turn} {L S : NodeRef}
    (hL : t.node.self ≠ L) (hout : t.node.ring.inRing = false)
    (hb : (Body.joinRsp t.node.self L S).Exact) :
    ∃ g : Metrics → Metrics,
      (Node.receive src (Message.bytes ⟨tx, .joinRsp t.node.self L S⟩)).run t =
        ((), (t.mapMetrics g).entered S) := by
  let g : Metrics → Metrics := fun ms => { ms with
    received := ms.received.bump (Body.joinRsp t.node.self L S).kind.name }
  refine ⟨g, ?_⟩
  rw [receive_eq (Message.decode_bytes hb), StateT.run_bind]
  exact @joinReply_run_enters (t.mapMetrics g) tx L S hL hout

theorem receive_fingerAnswer_grows (src : Address) (tx : UInt32) {t : Turn} {o : NodeRef}
    {k : Nat} {f : Finger} (hk : k + 1 < idBits) (hin : t.node.ring.inRing = true)
    (hsize : t.node.ring.fingers.size = k + 1) (hf : t.node.ring.fingers[k]? = some f)
    (ho : o.OnWire) :
    ∃ g : Metrics → Metrics,
      (Node.receive src (Message.bytes ⟨tx, .findSuccessorRsp o f.start (UInt32.ofNat k)⟩)).run t =
        ((), ((t.mapMetrics g).mapRing fun r => { r with
          fingers := r.fingers.modify k fun c => { c with owner := o } }).grown (k + 1)) := by
  let g : Metrics → Metrics := fun ms => { ms with
    received := ms.received.bump (Body.findSuccessorRsp o f.start (UInt32.ofNat k)).kind.name }
  refine ⟨g, ?_⟩
  rw [receive_eq (Message.decode_bytes (show Body.Exact (.findSuccessorRsp o f.start _) from
    NodeRef.Exact.of_onWire ho)), StateT.run_bind]
  exact foundSuccessor_run_grows (t := t.mapMetrics g) hk hin hsize hf tx o

theorem Turn.repaired_idBits (t : Turn) : t.repaired idBits = t := by
  have h : List.range' idBits (idBits - idBits) = [] := by
    rw [Nat.sub_self]
    rfl
  unfold Turn.repaired
  rw [h]
  rfl

theorem Turn.grown_sent (k : Nat) {t : Turn} (hl : t.linkOpen = true)
    (hme : t.node.self.OnWire) (hs : t.node.ring.successor.OnWire) :
    ((t.mapRing fun r => { r with
      fingers := r.fingers.push (Finger.blank t.node.self.id k) }).drawTx).Sent Node.uncounted
      (t.grown k) [(t.node.ring.successor.addr, Message.bytes ⟨t.node.lastTx + 1,
        .findSuccessorReq t.node.self (t.node.self.id.addPow2 k) (UInt32.ofNat k)⟩)] := by
  let b : Body := .findSuccessorReq t.node.self (Finger.blank t.node.self.id k).start
    (UInt32.ofNat (Finger.blank t.node.self.id k).index)
  have he : t.grown k = ((t.mapRing fun r => { r with
      fingers := r.fingers.push (Finger.blank t.node.self.id k) }).drawTx).sent
      t.node.ring.successor.addr (t.node.lastTx + 1) b := rfl
  have h := Turn.sent_sent (t := (t.mapRing fun r => { r with
      fingers := r.fingers.push (Finger.blank t.node.self.id k) }).drawTx) (t.node.lastTx + 1)
    hs.isSet (show b.Exact from NodeRef.Exact.of_onWire hme) hl
  rw [he]
  simpa only [b, Finger.blank_start, Finger.blank_index] using h

@[simp] theorem Turn.grown_self (k : Nat) (t : Turn) : (t.grown k).node.self = t.node.self := by
  simp [Turn.grown, Turn.requested]

@[simp] theorem Turn.grown_ring (k : Nat) (t : Turn) : (t.grown k).node.ring =
    { t.node.ring with fingers := t.node.ring.fingers.push (Finger.blank t.node.self.id k) } := by
  simp [Turn.grown, Turn.requested]

@[simp] theorem Turn.grown_search (k : Nat) (t : Turn) :
    (t.grown k).node.search = t.node.search := by
  simp [Turn.grown, Turn.requested]

theorem Turn.grown_outgoing (k : Nat) {t : Turn} (hl : t.linkOpen = true)
    (hme : t.node.self.OnWire) (hs : t.node.ring.successor.OnWire) :
    (t.grown k).outgoing.toList = t.outgoing.toList ++ [(t.node.ring.successor.addr,
      Message.bytes ⟨t.node.lastTx + 1,
        .findSuccessorReq t.node.self (t.node.self.id.addPow2 k) (UInt32.ofNat k)⟩)] := by
  rw [(Turn.grown_sent k hl hme hs).outgoing]
  rfl

theorem Membership.Shaped.push_blank {me : RingId} {r : Membership} (h : r.Shaped me)
    (hin : r.inRing = true) {k : Nat} (hk : k < idBits) (hsize : r.fingers.size = k) :
    ({ r with fingers := r.fingers.push (Finger.blank me k) } : Membership).Shaped me :=
  h.push hin (hsize ▸ hk) (by simp [hsize]) (by simp [hsize])

/-! ### The join in flight -/

/-- A leg of a lookup whose request is held by, or whose answer names, a node that `member`
says is a member, sent from an address off `cut`. -/
def Leg.Carried (cut : List Address) (member : NodeRef → Prop) : Leg → Prop
  | .asking src h => src ∉ cut ∧ member h
  | .answered src o => src ∉ cut ∧ member o
  | .storing .. | .kept _ => False

theorem Leg.next_carried {cut : List Address} {member : NodeRef → Prop} {holder succ : NodeRef}
    (key : RingId) (hh : holder.addr ∉ cut) (hs : member succ) :
    (Leg.next holder succ key).Carried cut member := by
  unfold Leg.next
  split
  · exact ⟨hh, hs⟩
  · exact ⟨hh, hs⟩

/-- Where a join stands: its request held by a ring member; its answer held by a ring member
on the way to the landmark; its answer relayed to the joiner; the joiner's table being built,
with the lookup of its last entry in flight; or the table complete. -/
inductive JoinStage where
  | asking (src : Address) (holder : NodeRef)
  | homing (src : Address) (holder : NodeRef)
  | relayed
  | building (l : FingerLookup)
  | built

/-- What the ring of `c₀` says of each stage: the request and the answer are held by ring
members and come from addresses off the cut, and so does the lookup of the joiner's table. -/
def JoinStage.Sound (c₀ : Cluster) : JoinStage → Prop
  | .asking src h | .homing src h => src ∉ c₀.cut ∧ c₀.InRing h
  | .relayed | .built => True
  | .building l => l.k < idBits ∧ l.leg.Carried c₀.cut c₀.InRing

namespace Arrival

variable (E : Arrival)

/-- The datagram in flight at each stage of a join through `L` under id `tx`. -/
def joinDatagram (L : NodeRef) (tx : UInt32) : JoinStage → Option Datagram
  | .asking src h => some ⟨src, h.addr, Message.bytes ⟨tx, .joinReq L E.joiner.self⟩⟩
  | .homing src h => some ⟨src, h.addr, Message.bytes ⟨tx, .joinRsp E.joiner.self L E.succ.self⟩⟩
  | .relayed => some ⟨L.addr, E.joiner.self.addr,
      Message.bytes ⟨tx, .joinRsp E.joiner.self L E.succ.self⟩⟩
  | .building l => l.datagram E.joiner.self
  | .built => none

/-- The joiner's ring state at each stage: outside the ring until the answer arrives; then in
it after `succ`, with its entries up to the one asked for; then with its table complete. -/
def tableAt : JoinStage → Node → Prop
  | .asking .. | .homing .. | .relayed => fun n => n.ring.inRing = false
  | .building l => fun n => n.ring.inRing = true ∧ n.ring.successor = E.succ.self ∧
      n.ring.fingers.size = l.k + 1 ∧ n.Shaped
  | .built => fun n => n.ring.inRing = true ∧ n.ring.successor = E.succ.self ∧
      n.ring.fingers.size = idBits ∧ n.Shaped

/-- Deliveries left, at most, at each stage of a join through `L` on the ring of `c₀`: the
request passes each member at most once, the answer too on its way to the landmark, and each
entry's lookup as `FingerLookup.weight` counts. -/
def joinWeight (c₀ : Cluster) (L : NodeRef) : JoinStage → Nat
  | .asking _ h => (idBits + 1) * (c₀.ringIds.length + 3) + c₀.ringIds.length + 2 +
      Ring.arcCount c₀.ringIds h.id E.joiner.self.id
  | .homing _ h => (idBits + 1) * (c₀.ringIds.length + 3) + 1 +
      (if h = L then 0 else Ring.arcCount c₀.ringIds h.id L.id + 1)
  | .relayed => (idBits + 1) * (c₀.ringIds.length + 3)
  | .building l => l.weight c₀.ringIds E.joiner.self
  | .built => 0

/-- What holds while the join of `E` through `L` under id `tx` is at stage `st`: every other
member is as it was in `c₀` but for its counters; the joiner keeps its reference, its
predecessor and its store, with the ring state the stage gives it; and the queue holds the
stage's datagram and nothing else. -/
structure Joins (c₀ : Cluster) (L : NodeRef) (tx : UInt32) (st : JoinStage) (c : Cluster) :
    Prop where
  size : c.members.size = c₀.members.size
  endpoints : c.endpoints = c₀.endpoints
  cut : c.cut = c₀.cut
  member : ∀ j n₀, j ≠ E.x → c₀.members[j]? = some n₀ →
    ∃ n, c.members[j]? = some n ∧ n.uncounted = n₀.uncounted
  joiner : ∃ n, c.members[E.x]? = some n ∧ n.self = E.joiner.self ∧
    n.ring.predecessor = E.joiner.ring.predecessor ∧ n.search.store = E.joiner.search.store ∧
    E.tableAt st n
  sound : st.Sound c₀
  queue : c.queue.toList = (E.joinDatagram L tx st).toList

end Arrival

namespace Arrival.Joins

variable {E : Arrival} {c₀ c : Cluster} {K : Corpus} {L : NodeRef} {tx : UInt32} {st : JoinStage}

theorem selves (hx : c₀.members[E.x]? = some E.joiner) (h : E.Joins c₀ L tx st c) :
    c.members.toList.map (·.self) = c₀.members.toList.map (·.self) := by
  apply List.ext_getElem?
  intro j
  simp only [List.getElem?_map, Array.getElem?_toList]
  by_cases hjx : j = E.x
  · subst hjx
    obtain ⟨n, hn, hself, -⟩ := h.joiner
    simp [hn, hx, hself]
  · cases hn₀ : c₀.members[j]? with
    | none =>
      have : c.members[j]? = none := by
        rw [Array.getElem?_eq_none_iff, h.size]
        exact Array.getElem?_eq_none_iff.1 hn₀
      simp [this]
    | some n₀ =>
      obtain ⟨n, hn, hu⟩ := h.member j n₀ hjx hn₀
      simp [hn, (Node.eq_of_uncounted hu).1]

theorem handlerOf (hx : c₀.members[E.x]? = some E.joiner) (h : E.Joins c₀ L tx st c) :
    c.handlerOf = c₀.handlerOf :=
  Cluster.handlerOf_of_selves (h.selves hx) h.endpoints

theorem reach (hs : E.Setting c₀ K) (h : E.Joins c₀ L tx st c) {r : NodeRef} (hr : c₀.InRing r) :
    ∃ j n₀ m, c₀.members[j]? = some n₀ ∧ n₀.self = r ∧ n₀.ring.inRing = true ∧ j ≠ E.x ∧
      c.handlerOf r.addr = some j ∧ r.addr ∉ c.cut ∧ c.members[j]? = some m ∧
      m.uncounted = n₀.uncounted := by
  obtain ⟨n₀, hn₀, rfl, hin⟩ := hr
  obtain ⟨j, hj⟩ := Array.mem_iff_getElem?.1 hn₀
  have hjx : j ≠ E.x := fun e => by
    rw [e, hs.joiner] at hj
    rw [← Option.some.inj hj, hs.outside] at hin
    exact Bool.false_ne_true hin
  obtain ⟨m, hm, hu⟩ := h.member j n₀ hjx hj
  refine ⟨j, n₀, m, hj, rfl, hin, hjx, ?_, ?_, hm, hu⟩
  · rw [h.handlerOf hs.joiner]
    exact hs.correct.handler j n₀ hj hin
  · rw [h.cut]
    exact hs.uncut n₀ hn₀ hin

theorem other (h : E.Joins c₀ L tx st c) {c' : Cluster} {j : Nat} {n₀ m' : Node}
    {st' : JoinStage} (hjx : j ≠ E.x) (hj : c₀.members[j]? = some n₀)
    (hu : m'.uncounted = n₀.uncounted) (hmem : c'.members = c.members.modify j fun _ => m')
    (hend : c'.endpoints = c.endpoints) (hcut : c'.cut = c.cut)
    (htab : ∀ n, E.tableAt st n → E.tableAt st' n) (hsound : st'.Sound c₀)
    (hq : c'.queue.toList = (E.joinDatagram L tx st').toList) : E.Joins c₀ L tx st' c' where
  size := by rw [hmem, Array.size_modify, h.size]
  endpoints := hend.trans h.endpoints
  cut := hcut.trans h.cut
  member j' n₀' hj'x hj' := by
    rw [hmem, Array.getElem?_modify]
    split
    · next hjj =>
      subst hjj
      rw [hj] at hj'
      obtain rfl := Option.some.inj hj'
      obtain ⟨n, hn, -⟩ := h.member j n₀ hjx hj
      exact ⟨m', by rw [hn]; rfl, hu⟩
    · exact h.member j' n₀' hj'x hj'
  joiner := by
    obtain ⟨n, hn, hself, hpred, hstore, ht⟩ := h.joiner
    refine ⟨n, ?_, hself, hpred, hstore, htab n ht⟩
    rw [hmem, Array.getElem?_modify, if_neg hjx, hn]
  sound := hsound
  queue := hq

/-- A delivery to the joiner that keeps its reference, its predecessor and its store keeps the
invariant, under a stage whose datagram is then the queue and whose ring state the joiner
has. -/
theorem joiner_moves (h : E.Joins c₀ L tx st c) {c' : Cluster} {n' : Node} {st' : JoinStage}
    (hmem : c'.members = c.members.modify E.x fun _ => n') (hend : c'.endpoints = c.endpoints)
    (hcut : c'.cut = c.cut) (hself : n'.self = E.joiner.self)
    (hpred : n'.ring.predecessor = E.joiner.ring.predecessor)
    (hstore : n'.search.store = E.joiner.search.store) (htab : E.tableAt st' n')
    (hsound : st'.Sound c₀) (hq : c'.queue.toList = (E.joinDatagram L tx st').toList) :
    E.Joins c₀ L tx st' c' where
  size := by rw [hmem, Array.size_modify, h.size]
  endpoints := hend.trans h.endpoints
  cut := hcut.trans h.cut
  member j n₀ hjx hj := by
    rw [hmem, Array.getElem?_modify, if_neg (Ne.symm hjx)]
    exact h.member j n₀ hjx hj
  joiner := by
    obtain ⟨n, hn, -⟩ := h.joiner
    exact ⟨n', by rw [hmem, Array.getElem?_modify, if_pos rfl, hn]; rfl, hself, hpred, hstore, htab⟩
  sound := hsound
  queue := hq

variable (hs : E.Setting c₀ K)
include hs

/-- The request reaches the member holding it, which passes it on to its successor: as the
answer, naming `succ`, when `succ` owns the joiner's position, and as the request, nearer to
that position, otherwise. -/
theorem deliver_asking (hL : c₀.InRing L) {src : Address} {hd : NodeRef}
    (h : E.Joins c₀ L tx (.asking src hd) c) :
    ∃ st', E.Joins c₀ L tx st' (c.deliverAt 0) ∧
      E.joinWeight c₀ L st' < E.joinWeight c₀ L (.asking src hd) := by
  obtain ⟨hsrc, hhd⟩ := h.sound
  obtain ⟨j, n₀, m, hj, rfl, hin, hjx, hjh, hdst, hm, hu⟩ := h.reach hs hhd
  obtain ⟨hmself, hmring, -, -⟩ := Node.eq_of_uncounted hu
  obtain ⟨hsr, hfol⟩ := hs.correct.successor n₀ (Array.mem_of_getElem? hj) hin
  have ht : (c.startTurn m).node = m := rfl
  have hl : (c.startTurn m).linkOpen = true :=
    Cluster.linkOpen_of_handlerOf (show c.handlerOf m.self.addr = some j by rw [hmself]; exact hjh)
  have hsends := receive_joinReq src tx (t := c.startTurn m) (by rw [ht, hmring]; exact hin) hl
    (hs.wire.of_inRing hL) hs.joinerWire (by rw [ht, hmring]; exact hs.wire.of_inRing hsr)
  rw [ht, hmself, hmring] at hsends
  have hd : c.queue.toList[0]? =
      some ⟨src, n₀.self.addr, Message.bytes ⟨tx, .joinReq L E.joiner.self⟩⟩ := by
    rw [h.queue]
    rfl
  obtain ⟨m', hu', hsame, hmem, hq⟩ := Cluster.deliverAt_sendsVia hd (by rw [h.cut]; exact hsrc)
    hdst hjh hm (.of_sends hsends) rfl
  have hq0 : c.queue.toList.eraseIdx 0 = [] := by
    rw [h.queue]
    rfl
  have hN := Ring.arcCount_lt_length hsr.id_mem E.joiner.self.id
  by_cases ho : Arc.owns n₀.self.id E.joiner.self.id n₀.ring.successor.id = true
  · -- the successor owns the joiner's position: it is `succ`, and the answer goes there
    have hS : n₀.ring.successor = E.succ.self :=
      hs.correct.inRing_inj hsr hs.succ_inRing
        (((Ring.owns_iff_firstFrom hhd.id_mem hfol).1 ho).unique hs.first)
    refine ⟨.homing n₀.self.addr E.succ.self, h.other hjx hj (hu'.trans hu) hmem hsame.endpoints
      hsame.cut (fun _ hn => hn) ⟨hs.uncut n₀ (Array.mem_of_getElem? hj) hin, hs.succ_inRing⟩ ?_, ?_⟩
    · rw [hq, hq0]
      rw [hS] at ho
      simp [Arrival.joinDatagram, ho, hmself, hS]
    · have hSL := Ring.arcCount_lt_length hs.succ_inRing.id_mem L.id
      simp only [Arrival.joinWeight]
      split <;> omega
  · -- the request moves on to the successor, nearer to the joiner's position
    have hlt := Ring.arcCount_lt_of_inside hsr.id_mem
      (Arc.inside_of_not_owns (Bool.eq_false_iff.2 ho))
    refine ⟨.asking n₀.self.addr n₀.ring.successor, h.other hjx hj (hu'.trans hu) hmem
      hsame.endpoints hsame.cut (fun _ hn => hn)
      ⟨hs.uncut n₀ (Array.mem_of_getElem? hj) hin, hsr⟩ ?_, ?_⟩
    · rw [hq, hq0]
      simp [Arrival.joinDatagram, ho, hmself]
    · simp only [Arrival.joinWeight]
      omega

theorem deliver_homing (hL : c₀.InRing L) {src : Address} {hd : NodeRef}
    (h : E.Joins c₀ L tx (.homing src hd) c) :
    ∃ st', E.Joins c₀ L tx st' (c.deliverAt 0) ∧
      E.joinWeight c₀ L st' < E.joinWeight c₀ L (.homing src hd) := by
  obtain ⟨hsrc, hhd⟩ := h.sound
  obtain ⟨j, n₀, m, hj, rfl, hin, hjx, hjh, hdst, hm, hu⟩ := h.reach hs hhd
  obtain ⟨hmself, hmring, -, -⟩ := Node.eq_of_uncounted hu
  obtain ⟨hsr, hfol⟩ := hs.correct.successor n₀ (Array.mem_of_getElem? hj) hin
  have ht : (c.startTurn m).node = m := rfl
  have hl : (c.startTurn m).linkOpen = true :=
    Cluster.linkOpen_of_handlerOf (show c.handlerOf m.self.addr = some j by rw [hmself]; exact hjh)
  have hb : (Body.joinRsp E.joiner.self L E.succ.self).Exact :=
    ⟨.of_onWire hs.joinerWire, .of_onWire (hs.wire.of_inRing hL),
      .of_onWire (hs.wire.of_inRing hs.succ_inRing)⟩
  have hd : c.queue.toList[0]? = some ⟨src, n₀.self.addr,
      Message.bytes ⟨tx, .joinRsp E.joiner.self L E.succ.self⟩⟩ := by
    rw [h.queue]
    rfl
  have hq0 : c.queue.toList.eraseIdx 0 = [] := by
    rw [h.queue]
    rfl
  have hsound : n₀.self.addr ∉ c₀.cut := hs.uncut n₀ (Array.mem_of_getElem? hj) hin
  by_cases hhL : n₀.self = L
  · -- the landmark relays the answer to the joiner
    subst hhL
    have hsends := receive_joinRsp_relays src tx (t := c.startTurn m) (r := E.joiner.self)
      (s := E.succ.self) hl (by rw [ht, hmself]; exact hb) hs.joinerWire
    rw [ht, hmself] at hsends
    obtain ⟨m', hu', hsame, hmem, hq⟩ := Cluster.deliverAt_sendsVia hd
      (by rw [h.cut]; exact hsrc) hdst hjh hm (.of_sends hsends) rfl
    refine ⟨.relayed, h.other hjx hj (hu'.trans hu) hmem hsame.endpoints hsame.cut
      (fun _ hn => hn) trivial ?_, ?_⟩
    · rw [hq, hq0]
      simp [Arrival.joinDatagram, hmself]
    · simp [Arrival.joinWeight]
  · -- any other member passes it on to its successor
    have hX : n₀.self ≠ E.joiner.self := fun e => hs.fresh (e ▸ hhd.id_mem)
    have hsends := receive_joinRsp_passes src tx (t := c.startTurn m)
      (by rw [ht, hmself]; exact hhL) (by rw [ht, hmself]; exact hX) (by rw [ht, hmring]; exact hin)
      hl hb (by rw [ht, hmring]; exact hs.wire.of_inRing hsr)
    rw [ht, hmring] at hsends
    obtain ⟨m', hu', hsame, hmem, hq⟩ := Cluster.deliverAt_sendsVia hd
      (by rw [h.cut]; exact hsrc) hdst hjh hm (.of_sends hsends) rfl
    refine ⟨.homing n₀.self.addr n₀.ring.successor, h.other hjx hj (hu'.trans hu) hmem
      hsame.endpoints hsame.cut (fun _ hn => hn) ⟨hsound, hsr⟩ ?_, ?_⟩
    · rw [hq, hq0]
      simp [Arrival.joinDatagram, hmself]
    · -- the successor is the landmark, or one member nearer to it
      simp only [Arrival.joinWeight, if_neg hhL]
      by_cases hsL : n₀.ring.successor = L
      · rw [if_pos hsL]
        omega
      · have hid : n₀.ring.successor.id ≠ L.id := fun e => hsL (hs.correct.inRing_inj hsr hL e)
        have hstep := Ring.arcCount_follows hs.correct.nodup hhd.id_mem hfol hL.id_mem hid
        rw [if_neg hsL]
        omega

theorem deliver_relayed (hL : c₀.InRing L) (h : E.Joins c₀ L tx .relayed c) :
    ∃ st', E.Joins c₀ L tx st' (c.deliverAt 0) ∧
      E.joinWeight c₀ L st' < E.joinWeight c₀ L .relayed := by
  obtain ⟨n, hn, hself, hpred, hstore, hout⟩ := h.joiner
  have hout : n.ring.inRing = false := hout
  have hjh : c.handlerOf E.joiner.self.addr = some E.x := by
    rw [h.handlerOf hs.joiner]
    exact hs.joinerHandled
  have hsrc : L.addr ∉ c.cut := by
    obtain ⟨nL, hnL, rfl, hinL⟩ := hL
    rw [h.cut]
    exact hs.uncut nL hnL hinL
  have hdst : E.joiner.self.addr ∉ c.cut := by
    rw [h.cut]
    exact hs.joinerUncut
  have hd : c.queue.toList[0]? = some ⟨L.addr, E.joiner.self.addr,
      Message.bytes ⟨tx, .joinRsp E.joiner.self L E.succ.self⟩⟩ := by
    rw [h.queue]
    rfl
  have hl : (c.startTurn n).linkOpen = true :=
    Cluster.linkOpen_of_handlerOf (show c.handlerOf n.self.addr = some E.x by rw [hself]; exact hjh)
  have hXL : n.self ≠ L := fun e => hs.fresh (hself ▸ e ▸ hL.id_mem)
  have hSw := hs.wire.of_inRing hs.succ_inRing
  obtain ⟨g, hrun⟩ := receive_joinRsp_enters L.addr tx (t := c.startTurn n) (S := E.succ.self) hXL
    hout (by
      show (Body.joinRsp n.self L E.succ.self).Exact
      rw [hself]
      exact ⟨.of_onWire hs.joinerWire, .of_onWire (hs.wire.of_inRing hL), .of_onWire hSw⟩)
  rw [show (c.startTurn n).node.self = E.joiner.self from hself] at hrun
  let t₀ := ((((c.startTurn n).mapMetrics g).mapRing fun r => { r with
    inRing := true
    joining := false
    fingers := #[] }).successorSet E.succ.self).noted .nodeJoin
    E.succ.self.toText (Bytes.ofString "joined ring")
  have hT : ((c.startTurn n).mapMetrics g).entered E.succ.self = t₀.grown 0 := rfl
  have ht₀self : t₀.node.self = E.joiner.self := by simp [t₀, Cluster.startTurn, hself]
  have ht₀ring : t₀.node.ring = { n.ring with
      inRing := true
      joining := false
      fingers := #[]
      successor := E.succ.self } := by
    simp [t₀, Cluster.startTurn]
  have hq0 : c.queue.toList.eraseIdx 0 = [] := by
    rw [h.queue]
    rfl
  have hout₀ : (t₀.grown 0).outgoing.toList = [(E.succ.self.addr, Message.bytes ⟨n.lastTx + 1,
      .findSuccessorReq E.joiner.self (E.joiner.self.id.addPow2 0) (UInt32.ofNat 0)⟩)] := by
    rw [Turn.grown_outgoing 0 (by simpa [t₀] using hl) (by rw [ht₀self]; exact hs.joinerWire)
      (by rw [ht₀ring]; exact hSw), ht₀self, ht₀ring]
    simp [t₀, Cluster.startTurn, Turn.successorSet_node]
  obtain ⟨hmem, hq, hend, hcut⟩ := Cluster.deliverAt_turn hd hsrc hdst hjh hn (by rw [hrun, hT])
  refine ⟨.building ⟨0, n.lastTx + 1, .asking E.joiner.self.addr E.succ.self⟩,
    h.joiner_moves hmem hend hcut (by simp [ht₀self]) (by simp [ht₀ring, hpred])
      (by simp [t₀, Cluster.startTurn, hstore]) ?_
      ⟨show 0 < idBits by decide, hs.joinerUncut, hs.succ_inRing⟩ ?_, ?_⟩
  · -- in the ring after `succ`, with entry 0 in its place
    refine ⟨by simp [ht₀ring], by simp [ht₀ring], by simp [ht₀ring], ?_⟩
    unfold Node.Shaped
    rw [Turn.grown_self, Turn.grown_ring, ht₀self, ht₀ring]
    exact Membership.Shaped.push_blank (Membership.Shaped.of_empty rfl) rfl
      (show 0 < idBits by decide) rfl
  · rw [hq, hout₀, hq0]
    simp [Arrival.joinDatagram, FingerLookup.datagram, hself]
  · have hN := Ring.arcCount_lt_length hs.succ_inRing.id_mem (E.joiner.self.id.addPow2 0)
    simp only [Arrival.joinWeight, FingerLookup.weight, Leg.weight, Nat.cast_zero, Nat.sub_zero]
    have h₁ : (idBits + 1) * (c₀.ringIds.length + 3) =
        idBits * (c₀.ringIds.length + 3) + (c₀.ringIds.length + 3) := Nat.succ_mul _ _
    omega

/-- The lookup of an entry reaches the ring member holding it, which relays it: the answer
naming its successor when the successor owns the entry's start, the request passed on to the
successor, nearer to the start, otherwise. -/
theorem deliver_lookup {k : Nat} {tx' : UInt32} {src : Address} {hd : NodeRef}
    (h : E.Joins c₀ L tx (.building ⟨k, tx', .asking src hd⟩) c) :
    ∃ st', E.Joins c₀ L tx st' (c.deliverAt 0) ∧
      E.joinWeight c₀ L st' < E.joinWeight c₀ L (.building ⟨k, tx', .asking src hd⟩) := by
  obtain ⟨hk, hsrc, hhd⟩ := h.sound
  obtain ⟨j, n₀, m, hj, rfl, hin, hjx, hjh, hdst, hm, hu⟩ := h.reach hs hhd
  obtain ⟨hmself, hmring, -, -⟩ := Node.eq_of_uncounted hu
  obtain ⟨hsr, -⟩ := hs.correct.successor n₀ (Array.mem_of_getElem? hj) hin
  have ht : (c.startTurn m).node = m := rfl
  have hl : (c.startTurn m).linkOpen = true :=
    Cluster.linkOpen_of_handlerOf (show c.handlerOf m.self.addr = some j by rw [hmself]; exact hjh)
  have hsends := @receive_request_relays (c.startTurn m) src tx' (UInt32.ofNat k) E.joiner.self
    (E.joiner.self.id.addPow2 k) (by rw [ht, hmring]; exact hin) hl hs.joinerWire
    (by rw [ht, hmring]; exact hs.wire.of_inRing hsr)
  have hd : c.queue.toList[0]? = some ⟨src, n₀.self.addr, Message.bytes ⟨tx',
      .findSuccessorReq E.joiner.self (E.joiner.self.id.addPow2 k) (UInt32.ofNat k)⟩⟩ := by
    rw [h.queue]
    rfl
  have hq0 : c.queue.toList.eraseIdx 0 = [] := by
    rw [h.queue]
    rfl
  obtain ⟨m', hu', hsame, hmem, hq⟩ := Cluster.deliverAt_sendsVia hd (by rw [h.cut]; exact hsrc)
    hdst hjh hm (.of_sends hsends) rfl
  let leg := Leg.next n₀.self n₀.ring.successor (E.joiner.self.id.addPow2 k)
  have hnext : (⟨k, tx', leg⟩ : FingerLookup).datagram E.joiner.self =
      some (m.peer.relay tx' E.joiner.self (E.joiner.self.id.addPow2 k) (UInt32.ofNat k)) := by
    have := FingerLookup.datagram_next E.joiner.self k tx' m.peer
    rwa [show m.peer.self = n₀.self from hmself, show m.peer.ring = n₀.ring from hmring] at this
  refine ⟨.building ⟨k, tx', leg⟩, h.other hjx hj (hu'.trans hu) hmem hsame.endpoints hsame.cut
    (fun _ hn => hn) ⟨hk, Leg.next_carried _ (hs.uncut n₀ (Array.mem_of_getElem? hj) hin) hsr⟩
    ?_, ?_⟩
  · -- the member relays from its own address
    rw [hq, hq0, List.nil_append]
    show [(⟨m.peer.self.addr, (m.peer.relay tx' E.joiner.self (E.joiner.self.id.addPow2 k)
      (UInt32.ofNat k)).dst, (m.peer.relay tx' E.joiner.self (E.joiner.self.id.addPow2 k)
        (UInt32.ofNat k)).data⟩ : Datagram)] = _
    rw [Peer.relay_eq]
    simp [Arrival.joinDatagram, hnext]
  · -- the request moves nearer to the entry's start
    exact Nat.add_lt_add_left (@Leg.next_weight_lt c₀.ringIds n₀.self n₀.ring.successor
      (E.joiner.self.id.addPow2 k) hsr.id_mem) _

theorem deliver_answer {k : Nat} {tx' : UInt32} {src : Address} {o : NodeRef}
    (h : E.Joins c₀ L tx (.building ⟨k, tx', .answered src o⟩) c) :
    ∃ st', E.Joins c₀ L tx st' (c.deliverAt 0) ∧
      E.joinWeight c₀ L st' < E.joinWeight c₀ L (.building ⟨k, tx', .answered src o⟩) := by
  obtain ⟨hk, hsrc, ho⟩ := h.sound
  obtain ⟨n, hn, hself, hpred, hstore, hin, hsucc, hsize, hshape⟩ := h.joiner
  have hk : k < idBits := hk
  have hsize : n.ring.fingers.size = k + 1 := hsize
  have hjh : c.handlerOf E.joiner.self.addr = some E.x := by
    rw [h.handlerOf hs.joiner]
    exact hs.joinerHandled
  have hdst : E.joiner.self.addr ∉ c.cut := by
    rw [h.cut]
    exact hs.joinerUncut
  have hl : (c.startTurn n).linkOpen = true :=
    Cluster.linkOpen_of_handlerOf (show c.handlerOf n.self.addr = some E.x by rw [hself]; exact hjh)
  obtain ⟨f, hf⟩ : ∃ f, n.ring.fingers[k]? = some f := ⟨_, Array.getElem?_eq_getElem (by omega)⟩
  have hme : n.ring.Shaped E.joiner.self.id := by
    have h' : n.Shaped := hshape
    unfold Node.Shaped at h'
    rwa [hself] at h'
  have hfs : f.start = E.joiner.self.id.addPow2 k := by
    obtain ⟨hlt, rfl⟩ := Array.getElem?_eq_some_iff.1 hf
    exact (hme.entry k hlt).2
  have hd : c.queue.toList[0]? = some ⟨src, E.joiner.self.addr, Message.bytes ⟨tx',
      .findSuccessorRsp o f.start (UInt32.ofNat k)⟩⟩ := by
    rw [h.queue, hfs]
    rfl
  have hq0 : c.queue.toList.eraseIdx 0 = [] := by
    rw [h.queue]
    rfl
  have hsrc' : src ∉ c.cut := by
    rw [h.cut]
    exact hsrc
  have how := hs.wire.of_inRing ho
  have hshape' : Membership.Shaped E.joiner.self.id { n.ring with
      fingers := n.ring.fingers.modify k fun c => { c with owner := o } } :=
    hme.of_places (Finger.places_modify _ _ _) rfl
  by_cases hlast : k + 1 < idBits
  · -- the next entry is added and asked for
    obtain ⟨g, hrun⟩ := receive_fingerAnswer_grows src tx' (t := c.startTurn n) hlast hin hsize hf
      how
    let t₀ := ((c.startTurn n).mapMetrics g).mapRing fun r => { r with
      fingers := r.fingers.modify k fun c => { c with owner := o } }
    have ht₀self : t₀.node.self = E.joiner.self := by simp [t₀, Cluster.startTurn, hself]
    have ht₀ring : t₀.node.ring = { n.ring with
        fingers := n.ring.fingers.modify k fun c => { c with owner := o } } := by
      simp [t₀, Cluster.startTurn]
    have hout₀ : (t₀.grown (k + 1)).outgoing.toList = [(E.succ.self.addr,
        Message.bytes ⟨n.lastTx + 1, .findSuccessorReq E.joiner.self
          (E.joiner.self.id.addPow2 ((k + 1 : Nat) : Int)) (UInt32.ofNat (k + 1))⟩)] := by
      rw [Turn.grown_outgoing (k + 1) (by simpa [t₀] using hl) (by rw [ht₀self]; exact hs.joinerWire)
        (by rw [ht₀ring]; exact hsucc ▸ hs.wire.of_inRing hs.succ_inRing), ht₀self, ht₀ring, hsucc]
      simp [t₀, Cluster.startTurn]
    obtain ⟨hmem, hq, hend, hcut⟩ := Cluster.deliverAt_turn hd hsrc' hdst hjh hn
      (show _ = t₀.grown (k + 1) by rw [hrun])
    refine ⟨.building ⟨k + 1, n.lastTx + 1, .asking E.joiner.self.addr E.succ.self⟩,
      h.joiner_moves hmem hend hcut (by simp [ht₀self]) (by simp [ht₀ring, hpred])
        (by simp [t₀, Cluster.startTurn, hstore]) ?_ ⟨hlast, hs.joinerUncut, hs.succ_inRing⟩ ?_, ?_⟩
    · refine ⟨by simp [ht₀ring, hin], by simp [ht₀ring, hsucc], by simp [ht₀ring, hsize], ?_⟩
      unfold Node.Shaped
      rw [Turn.grown_self, Turn.grown_ring, ht₀self, ht₀ring]
      exact hshape'.push_blank hin hlast (by simp [hsize])
    · rw [hq, hout₀, hq0]
      simp [Arrival.joinDatagram, FingerLookup.datagram, hself]
    · -- a later entry, and a request that passes each member at most once
      have hN := Ring.arcCount_lt_length hs.succ_inRing.id_mem
        (E.joiner.self.id.addPow2 ((k + 1 : Nat) : Int))
      have h₁ : (idBits - k) * (c₀.ringIds.length + 3) =
          (idBits - (k + 1)) * (c₀.ringIds.length + 3) + (c₀.ringIds.length + 3) := by
        rw [← Nat.succ_mul]
        congr 1
        omega
      simp only [Arrival.joinWeight, FingerLookup.weight, Leg.weight]
      omega
  · -- the last entry: the table is complete, and nothing more is asked
    have hk1 : k + 1 = idBits := by omega
    obtain ⟨g, hrun⟩ := receive_fingerAnswer src tx' (t := c.startTurn n) hk hin
      (show n.ring.fingers.size = idBits by rw [hsize, hk1]) hf how
    rw [hk1, Turn.repaired_idBits] at hrun
    obtain ⟨hmem, hq, hend, hcut⟩ := Cluster.deliverAt_turn hd hsrc' hdst hjh hn (by rw [hrun])
    refine ⟨.built, h.joiner_moves hmem hend hcut (by simp [Cluster.startTurn, hself])
      (by simp [Cluster.startTurn, hpred]) (by simp [Cluster.startTurn, hstore]) ?_ trivial ?_, ?_⟩
    · refine ⟨by simp [Cluster.startTurn, hin], by simp [Cluster.startTurn, hsucc],
        by simp [Cluster.startTurn, hsize, hk1], ?_⟩
      unfold Node.Shaped
      simpa [Cluster.startTurn, hself] using hshape'
    · rw [hq, hq0]
      simp [Arrival.joinDatagram, Cluster.startTurn]
    · simp only [Arrival.joinWeight, FingerLookup.weight, Leg.weight]
      omega

theorem deliverAt (hL : c₀.InRing L) (h : E.Joins c₀ L tx st c) {k : Nat}
    (hk : k < c.queue.toList.length) :
    ∃ st', E.Joins c₀ L tx st' (c.deliverAt k) ∧
      E.joinWeight c₀ L st' < E.joinWeight c₀ L st := by
  have hlen : (E.joinDatagram L tx st).toList.length ≤ 1 := by
    cases E.joinDatagram L tx st <;> simp
  rw [h.queue] at hk
  obtain rfl : k = 0 := by omega
  cases st with
  | asking src hd => exact h.deliver_asking hs hL
  | homing src hd => exact h.deliver_homing hs hL
  | relayed => exact h.deliver_relayed hs hL
  | building l =>
    obtain ⟨kk, tx', leg⟩ := l
    cases leg with
    | asking src hd => exact h.deliver_lookup hs
    | answered src o => exact h.deliver_answer hs
    | storing _ _ => exact h.sound.2.elim
    | kept _ => exact h.sound.2.elim
  | built => simp [Arrival.joinDatagram] at hk

theorem start (hL : c₀.InRing L) :
    E.Joins c₀ L (E.joiner.lastTx + 1) (.asking E.joiner.self.addr L)
      (c₀.turn E.x (Op.join L).act).2 := by
  have hLw := hs.wire.of_inRing hL
  have hne : L ≠ E.joiner.self := fun e => hs.fresh (e ▸ hL.id_mem)
  have hl : (c₀.startTurn E.joiner).linkOpen = true :=
    Cluster.linkOpen_of_handlerOf hs.joinerHandled
  have hrun := join_run (t := c₀.startTurn E.joiner) hs.outside
    (by simp [NodeRef.isUnset, hLw.isSet]) hne
  have hsent : (((c₀.startTurn E.joiner).mapRing fun r => { r with joining := true }).drawTx).Sent
      Node.uncounted ((c₀.startTurn E.joiner).joinAsked L)
      [(L.addr, Message.bytes ⟨E.joiner.lastTx + 1, .joinReq L E.joiner.self⟩)] :=
    Turn.sent_sent (E.joiner.lastTx + 1) hLw.isSet ⟨.of_onWire hLw, .of_onWire hs.joinerWire⟩ hl
  rw [Cluster.turn_run hs.joiner, hrun]
  refine ⟨by simp [Cluster.afterTurn], rfl, rfl, fun j n₀ hjx hj => ?_, ?_,
    ⟨hs.joinerUncut, hL⟩, ?_⟩
  · -- every other member is untouched
    refine ⟨n₀, ?_, rfl⟩
    rw [Cluster.getElem?_afterTurn hs.joiner, if_neg hjx, hj]
  · -- the joiner only marks itself as joining
    refine ⟨_, Cluster.getElem?_modify_self hs.joiner _, ?_, ?_, ?_, ?_⟩ <;>
      simp [Turn.joinAsked, Cluster.startTurn, Arrival.tableAt, hs.outside]
  · rw [Cluster.afterTurn_queue, hs.quiet, hsent.outgoing]
    simp [Arrival.joinDatagram, Cluster.startTurn]

omit hs in
theorem built_of_quiet (h : E.Joins c₀ L tx st c) (hq : c.queue.toList = []) : st = .built := by
  have hd := h.queue
  rw [hq] at hd
  cases st with
  | asking => simp [Arrival.joinDatagram] at hd
  | homing => simp [Arrival.joinDatagram] at hd
  | relayed => simp [Arrival.joinDatagram] at hd
  | building l =>
    obtain ⟨kk, tx', leg⟩ := l
    cases leg with
    | asking => simp [Arrival.joinDatagram, FingerLookup.datagram] at hd
    | answered => simp [Arrival.joinDatagram, FingerLookup.datagram] at hd
    | storing _ _ => exact h.sound.2.elim
    | kept _ => exact h.sound.2.elim
  | built => rfl

theorem spliced (h : E.Joins c₀ L tx st c) (hq : c.queue.toList = []) : E.Spliced c₀ 0 [] c := by
  obtain rfl := h.built_of_quiet hq
  refine ⟨h.size, h.endpoints, h.cut, fun j n₀ hjx hj => ?_, ?_⟩
  · -- every other member is as it was, but for its counters
    obtain ⟨n, hn, hu⟩ := h.member j n₀ hjx hj
    obtain ⟨hself, hring, hsearch, -⟩ := Node.eq_of_uncounted hu
    refine ⟨n, hn, hself, by rw [hring], ?_, ?_, ?_, by rw [hring]⟩
    · rw [Arrival.successorAt, if_neg (by omega), hring]
    · rw [Arrival.predecessorAt, if_neg (by omega), hring]
    · rw [Arrival.storeAt, if_neg (by omega), hsearch]
  · obtain ⟨n, hn, hself, hpred, hstore, hin, hsucc, hsize, hshape⟩ := h.joiner
    have hnil : n.search.store.map.entries = [] := by
      rw [hstore]
      exact hs.joiner_entries
    refine ⟨n, hn, hself, hin, hsucc, ?_, ?_, ?_, hshape, hsize⟩
    · rw [Arrival.joinerPredecessor, if_neg (by omega), hpred]
    · unfold TermMap.Ascending
      rw [hnil]
      exact List.Pairwise.nil
    · simp [Arrival.handedAt, hnil]

end Arrival.Joins

namespace Arrival

/-- A node outside a correct ring that joins through a ring member `L` ends, once every
datagram of the join is delivered, in whatever order, in phase 0 of its entry: in the ring
after the first member from its position, with a complete table, and every other member as it
was; and delivering the first datagram again and again does drain the join. -/
theorem join_splices {E : Arrival} {c₀ : Cluster} {K : Corpus} {L : NodeRef}
    (hs : E.Setting c₀ K) (hL : c₀.InRing L) :
    (∃ c₁, Cluster.Delivering (c₀.turn E.x (Op.join L).act).2 c₁ ∧ c₁.queue.toList = []) ∧
      ∀ c₁, Cluster.Delivering (c₀.turn E.x (Op.join L).act).2 c₁ → c₁.queue.toList = [] →
        E.Spliced c₀ 0 [] c₁ := by
  have hstep : ∀ st c k, E.Joins c₀ L (E.joiner.lastTx + 1) st c →
      k < c.queue.toList.length → ∃ st', E.Joins c₀ L (E.joiner.lastTx + 1) st' (c.deliverAt k) ∧
        E.joinWeight c₀ L st' < E.joinWeight c₀ L st :=
    fun _ _ _ h hk => h.deliverAt hs hL hk
  refine ⟨?_, fun c₁ hrun hq => ?_⟩
  · obtain ⟨c₁, -, hrun, -, hq⟩ := Cluster.drains_of (E.joinWeight c₀ L) hstep (Joins.start hs hL)
    exact ⟨c₁, hrun, hq⟩
  · obtain ⟨st, h⟩ := Cluster.delivering_of
      (fun st c k h hk => (hstep st c k h hk).imp fun _ h' => h'.1) (Joins.start hs hL) hrun
    exact h.spliced hs hq

end Arrival

end ChordSearch
