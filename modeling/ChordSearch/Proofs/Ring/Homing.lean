import ChordSearch.Proofs.Ring.Lookup
import ChordSearch.Proofs.Wire.Decoded

/-! # Walks that travel home along successors

Two messages are passed from member to member along successor pointers until they come to
one member in particular, with no count of hops: a ring-state walk returns to the member
that started it (`Ring.ringStatePing`), and a join answer travels to the landmark the join
went through, which sends it straight to the joiner (`Ring.joinReply`). A member on the way
passes the message on unchanged; the joiner, met on the way while in the ring, drops it.

Nothing bounds such a walk when the successor pointers skip its home member: a member that
has just joined through a landmark whose own successor is still itself sends every join
answer for a later joiner round the landmark's ring of one, and a ring-state walk started
there never returns. On a ring whose successor pointers route (`Cluster.Routes`), every
member's successor is the next member clockwise, so the number of members strictly between
the holder and the home member drops by one at each hop (`Ring.arcCount_follows`).

* `Homing`: the two messages, their home member and where a walk stops (`Homing.Stops`).
* `handle_passes`, `handle_stops`: what one member sends on handling the message.
* `Cluster.deliver_sends`: a delivery to a ring member that only sends.
* `Cluster.home_walk`: the walk, by induction on the members left before its home.
* `Cluster.homing_ends`: a walk handed to a ring member is handled at most as many times as
  there are members, each time as a delivery of the same message, and the last handling,
  at its home or at the joiner, passes nothing on along successors: the ring is as before,
  and the queue holds what it held before, with at most the answer to the joiner added.
* `Cluster.homing_circles`: a member that is its own successor, where the walk does not
  stop, hands the message back to itself at every delivery.
-/

namespace ChordSearch

open NodeM

/-- A message passed along successors until it reaches its home member: a ring-state walk,
whose home is its originator, or a join answer, whose home is the landmark. -/
inductive Homing where
  | ringState (originator : NodeRef)
  | joinReply (requester landmark successor : NodeRef)

namespace Homing

/-- The body the message travels in. -/
def body : Homing → Body
  | ringState o => .ringStatePing o
  | joinReply r l s => .joinRsp r l s

/-- The member the message travels to. -/
def home : Homing → NodeRef
  | ringState o => o
  | joinReply _ l _ => l

/-- The members that do not pass the message on: its home, and for a join answer the
joiner. -/
def Stops : Homing → NodeRef → Prop
  | ringState o, me => me = o
  | joinReply r l _, me => me = l ∨ me = r

/-- What the member where the walk stops sends: at the landmark, the join answer goes to
the joiner, when the joiner has an address; nothing in every other case. -/
def arrival (tx : UInt32) (me : NodeRef) : Homing → List (Address × Bytes)
  | ringState _ => []
  | joinReply r l s =>
    if me.same l && r.addr.isSet then [(r.addr, (⟨tx, .joinRsp r l s⟩ : Message).bytes)] else []

theorem stops_home (q : Homing) : q.Stops q.home := by
  cases q with
  | ringState o => rfl
  | joinReply r l s => exact .inl rfl

theorem exact_of_decode {q : Homing} {tx : UInt32} {data : Bytes}
    (h : Message.decode data = .ok ⟨tx, q.body⟩) : q.body.Exact := by
  have hr := Message.decode_refsExact h
  cases q <;> exact hr

end Homing

theorem NodeRef.same_eq_false_iff {a b : NodeRef} : a.same b = false ↔ a ≠ b := by
  rw [← Bool.not_eq_true, NodeRef.same_iff]

theorem handle_passes {t : Turn} {src : Address} {tx : UInt32} {q : Homing}
    (hin : t.node.ring.inRing = true) (hstop : ¬ q.Stops t.node.self)
    (hset : t.node.ring.successor.addr.isSet = true) (hb : q.body.Exact)
    (hl : t.linkOpen = true) :
    (Node.handle src ⟨tx, q.body⟩).Sends Node.uncounted t ()
      [(t.node.ring.successor.addr, (⟨tx, q.body⟩ : Message).bytes)] := by
  obtain ⟨t', hrun, hsent⟩ := send_sends forgets_uncounted hset hb hl
  refine ⟨t', ?_, hsent⟩
  cases q with
  | ringState o =>
    have ho : o.same t.node.self = false := NodeRef.same_eq_false_iff.2 (Ne.symm hstop)
    simpa [Node.handle, Homing.body, Ring.ringStatePing, ring, self, hin, ho] using hrun
  | joinReply r l s =>
    simp only [Homing.Stops, not_or] at hstop
    have hl' : t.node.self.same l = false := NodeRef.same_eq_false_iff.2 hstop.1
    have hr' : t.node.self.same r = false := NodeRef.same_eq_false_iff.2 hstop.2
    simpa [Node.handle, Homing.body, Ring.joinReply, ring, self, hin, hl', hr'] using hrun

theorem handle_stops {t : Turn} {src : Address} {tx : UInt32} {q : Homing}
    (hin : t.node.ring.inRing = true) (hstop : q.Stops t.node.self) (hb : q.body.Exact)
    (hl : t.linkOpen = true) :
    (Node.handle src ⟨tx, q.body⟩).Sends Node.uncounted t () (q.arrival tx t.node.self) := by
  cases q with
  | ringState o =>
    have ho : o.same t.node.self = true := (NodeRef.same_iff _ _).2 hstop.symm
    refine ⟨t, ?_, Turn.Sent.refl _ _⟩
    simp [Node.handle, Homing.body, Ring.ringStatePing, self, ho]
    rfl
  | joinReply r l s =>
    by_cases hme : t.node.self.same l = true
    · -- the landmark sends the answer to the joiner
      cases hset : r.addr.isSet with
      | false =>
        refine ⟨t, ?_, by simpa [Homing.arrival, hme, hset] using Turn.Sent.refl Node.uncounted t⟩
        simp [Node.handle, Homing.body, Ring.joinReply, self, hme, send, hset]
        rfl
      | true =>
        obtain ⟨t', hrun, hsent⟩ := send_sends forgets_uncounted hset hb hl
        refine ⟨t', ?_, by simpa [Homing.arrival, Homing.body, hme, hset] using hsent⟩
        simpa [Node.handle, Homing.body, Ring.joinReply, self, hme] using hrun
    · -- the joiner, already in the ring, drops it
      have hr : t.node.self = r := by
        rcases hstop with hsl | hsr
        · exact absurd ((NodeRef.same_iff _ _).2 hsl) hme
        · exact hsr
      have hr' : t.node.self.same r = true := (NodeRef.same_iff _ _).2 hr
      refine ⟨t, ?_, by simpa [Homing.arrival, hme] using Turn.Sent.refl Node.uncounted t⟩
      simp [Node.handle, Homing.body, Ring.joinReply, self, ring, hme, hr', hin]
      rfl

theorem Ring.arcCount_add_two_le {ids : List RingId} {a b : RingId}
    (ha : a ∈ ids) (hb : b ∈ ids) (hab : a ≠ b) : Ring.arcCount ids a b + 2 ≤ ids.length := by
  have hends : [a, b] ⊆ ids.filter fun m => ¬ Arc.inside a m b := by
    intro x hx
    rw [List.mem_pair] at hx
    rw [List.mem_filter]
    rcases hx with rfl | rfl
    · exact ⟨ha, by simp [Arc.inside_iff]⟩
    · exact ⟨hb, by simp [Arc.inside_iff, hab]⟩
  have hsub := (List.Nodup.subperm (by simp [hab]) hends).length_le
  have hsplit : ids.length = Ring.arcCount ids a b +
      (ids.filter fun m => ¬ Arc.inside a m b).length := by
    rw [Ring.arcCount, ← List.countP_eq_length_filter]
    exact List.length_eq_countP_add_countP _
  simp only [List.length_cons, List.length_nil] at hsub
  omega

namespace Cluster

variable {c : Cluster} {Q : List Datagram} {next : Cluster → Cluster}

theorem Routes.eq_of_id_eq (hr : c.Routes) {a b : NodeRef} (ha : a ∈ c.ringMembers)
    (hb : b ∈ c.ringMembers) (h : a.id = b.id) : a = b :=
  List.inj_on_of_nodup_map hr.nodup ha hb h

/-- A delivery to a ring member whose handling of the message only sends `out`: the ring is
kept, and `out`, from the member's address, takes the datagram's place at the end of the
queue. -/
theorem deliver_sends (hn : c.Reaches) (hnext : DeliversLast Q next) {c' : Cluster}
    (hc : c'.uncounted = c.uncounted) {p : Peer} (hp : p ∈ c.peers)
    (hpin : p.ring.inRing = true) {src : Address} (hsrc : src ∉ c.cut) {data : Bytes}
    {m : Message} (hdata : Message.decode data = .ok m) {out : List (Address × Bytes)}
    (hh : ∀ t : Turn, t.node.peer = p → t.linkOpen = true →
      (Node.handle src m).Sends Node.uncounted t () out)
    (hq : c'.queue.toList = Q ++ [⟨src, p.self.addr, data⟩]) :
    (next c').uncounted = c.uncounted ∧
      (next c').queue.toList = Q ++ out.map (fun o => ⟨p.self.addr, o.1, o.2⟩) ∧
      (next c').seen.toList = c'.seen.toList ++ [⟨⟨src, p.self.addr, data⟩, false⟩] := by
  obtain ⟨Q', hQ', hstep⟩ := hnext c' _ hq
  obtain ⟨j, hj⟩ := List.mem_iff_getElem?.1 hp
  have hcQ : ({ c' with queue := Q' } : Cluster).uncounted = c.uncounted := hc
  have hring := sameRing_of_uncounted hcQ
  have hhandler : ({ c' with queue := Q' } : Cluster).handlerOf p.self.addr = some j := by
    rw [hring.handlerOf]
    exact hn.handler j p hj hpin
  have hscut : src ∉ ({ c' with queue := Q' } : Cluster).cut := by
    rw [hring.cut]
    exact hsrc
  have hdcut : p.self.addr ∉ ({ c' with queue := Q' } : Cluster).cut := by
    rw [hring.cut]
    exact hn.uncut p hp hpin
  obtain ⟨c₁, hc₁, hq₁, hs₁, hdeliver⟩ :=
    deliverOne_member (d := ⟨src, p.self.addr, data⟩) hscut hdcut hhandler
  obtain ⟨n, hm, hnp⟩ := (sameRing_of_uncounted ((hc₁ Node.uncounted).trans hcQ)).member_of_peer hj
  have hnself : n.self = p.self := congrArg Peer.self hnp
  have hopen : c₁.linkOpen n.self.addr = true := by
    have h : c₁.handlerOf n.self.addr = some j := by
      rw [(sameRing_of_uncounted (hc₁ Node.uncounted)).handlerOf, hnself]
      exact hhandler
    exact linkOpen_of_handlerOf h
  have hsends : (Node.receive src data).Sends Node.uncounted (c₁.startTurn n) () out :=
    receive_sends forgets_uncounted src hdata fun t₁ h₁ =>
      hh t₁ ((h₁.peer forgets_uncounted).trans hnp) (h₁.linkOpen.trans hopen)
  obtain ⟨c₂, hturn, hc₂, hseen, hqueue⟩ := turn_sends hm hsends
  rw [hstep, hdeliver, hturn]
  refine ⟨hc₂.trans ((hc₁ Node.uncounted).trans hcQ), ?_, ?_⟩
  · rw [hqueue, hq₁, hQ', hnself]
  · rw [hseen, hs₁]
    simp

section Walk

variable (hn : c.Reaches) (hnext : DeliversLast Q next) {q : Homing} {tx : UInt32}
  (hb : q.body.Exact)
include hn hnext hb

theorem home_pass (hr : c.Routes) (hw : c.MembersOnWire) {c' : Cluster}
    (hc : c'.uncounted = c.uncounted) {p : Peer}
    (hp : p ∈ c.peers) (hpin : p.ring.inRing = true) {src : Address} (hsrc : src ∉ c.cut)
    {data : Bytes} (hdata : Message.decode data = .ok ⟨tx, q.body⟩) (hstop : ¬ q.Stops p.self)
    (hq : c'.queue.toList = Q ++ [⟨src, p.self.addr, data⟩]) :
    ∃ s ∈ c.peers, s.ring.inRing = true ∧ Ring.Follows c.ringIds p.self.id s.self.id ∧
      (next c').uncounted = c.uncounted ∧
      (next c').queue.toList = Q ++ [⟨p.self.addr, s.self.addr, Message.bytes ⟨tx, q.body⟩⟩] ∧
      (next c').seen.toList = c'.seen.toList ++ [⟨⟨src, p.self.addr, data⟩, false⟩] := by
  obtain ⟨s, hs, hsin, hself, hfol⟩ := hr.successor p hp hpin
  have hset : p.ring.successor.addr.isSet = true := hself ▸ (hw s hs hsin).isSet
  have hh : ∀ t : Turn, t.node.peer = p → t.linkOpen = true →
      (Node.handle src ⟨tx, q.body⟩).Sends Node.uncounted t ()
        [(p.ring.successor.addr, (⟨tx, q.body⟩ : Message).bytes)] := fun t hpeer hl => by
    subst hpeer
    exact handle_passes hpin hstop hset hb hl
  obtain ⟨hc', hq', hs'⟩ := deliver_sends hn hnext hc hp hpin hsrc hdata hh hq
  refine ⟨s, hs, hsin, hfol, hc', ?_, hs'⟩
  rw [hq', hself]
  rfl

theorem home_stop {c' : Cluster} (hc : c'.uncounted = c.uncounted) {p : Peer}
    (hp : p ∈ c.peers) (hpin : p.ring.inRing = true) {src : Address} (hsrc : src ∉ c.cut)
    {data : Bytes} (hdata : Message.decode data = .ok ⟨tx, q.body⟩) (hstop : q.Stops p.self)
    (hq : c'.queue.toList = Q ++ [⟨src, p.self.addr, data⟩]) :
    (next c').uncounted = c.uncounted ∧
      (next c').queue.toList = Q ++ (q.arrival tx p.self).map (fun o => ⟨p.self.addr, o.1, o.2⟩) ∧
      (next c').seen.toList = c'.seen.toList ++ [⟨⟨src, p.self.addr, data⟩, false⟩] :=
  deliver_sends hn hnext hc hp hpin hsrc hdata (fun t hpeer hl => by
    subst hpeer
    exact handle_stops hpin hstop hb hl) hq

/-- The walk from the moment it is queued for a member `p` other than its home: it is
passed on at most by `p` and by each member strictly between `p` and the home, and stops at
the handling after. The induction is on the number of members strictly between, which each
hop to a member other than the home lowers by one. -/
theorem home_walk (hr : c.Routes) (hw : c.MembersOnWire) (hhome : q.home ∈ c.ringMembers)
    (k : Nat) :
    ∀ (c' : Cluster) (p : Peer) (src : Address) (data : Bytes),
      c'.uncounted = c.uncounted → p ∈ c.peers → p.ring.inRing = true → src ∉ c.cut →
      Message.decode data = .ok ⟨tx, q.body⟩ → p.self ≠ q.home →
      Ring.arcCount c.ringIds p.self.id q.home.id = k →
      c'.queue.toList = Q ++ [⟨src, p.self.addr, data⟩] →
      ∃ (reqs : List Delivery) (a : Peer) (d : Datagram),
        reqs.length ≤ k + 1 ∧
        (∀ e ∈ reqs ++ [⟨d, false⟩],
          e.dropped = false ∧ Message.decode e.datagram.data = .ok ⟨tx, q.body⟩) ∧
        a ∈ c.peers ∧ a.ring.inRing = true ∧ d.dst = a.self.addr ∧ q.Stops a.self ∧
        (next^[reqs.length + 1] c').uncounted = c.uncounted ∧
        (next^[reqs.length + 1] c').queue.toList =
          Q ++ (q.arrival tx a.self).map (fun o => ⟨a.self.addr, o.1, o.2⟩) ∧
        (next^[reqs.length + 1] c').seen.toList = c'.seen.toList ++ reqs ++ [⟨d, false⟩] := by
  induction k using Nat.strong_induction_on with
  | _ k ih =>
  intro c' p src data hc hp hpin hsrc hdata hph hk hq
  by_cases hstop : q.Stops p.self
  · -- `p` is the joiner: the walk ends here
    obtain ⟨hc₁, hq₁, hs₁⟩ := home_stop hn hnext hb hc hp hpin hsrc hdata hstop hq
    exact ⟨[], p, ⟨src, p.self.addr, data⟩, Nat.zero_le _, by simpa using hdata, hp, hpin, rfl, hstop, hc₁, hq₁,
      by simpa using hs₁⟩
  obtain ⟨s, hs, hsin, hfol, hc', hq', hseen'⟩ :=
    home_pass hn hnext hb hr hw hc hp hpin hsrc hdata hstop hq
  have hdata' : Message.decode (Message.bytes ⟨tx, q.body⟩) = .ok ⟨tx, q.body⟩ :=
    Message.decode_bytes hb
  have hpcut : p.self.addr ∉ c.cut := hn.uncut p hp hpin
  have hrest : ∃ (reqs : List Delivery) (a : Peer) (d : Datagram),
      reqs.length ≤ k ∧
      (∀ e ∈ reqs ++ [⟨d, false⟩],
        e.dropped = false ∧ Message.decode e.datagram.data = .ok ⟨tx, q.body⟩) ∧
      a ∈ c.peers ∧ a.ring.inRing = true ∧ d.dst = a.self.addr ∧ q.Stops a.self ∧
      (next^[reqs.length + 1] (next c')).uncounted = c.uncounted ∧
      (next^[reqs.length + 1] (next c')).queue.toList =
        Q ++ (q.arrival tx a.self).map (fun o => ⟨a.self.addr, o.1, o.2⟩) ∧
      (next^[reqs.length + 1] (next c')).seen.toList =
        (next c').seen.toList ++ reqs ++ [⟨d, false⟩] := by
    by_cases hsh : s.self = q.home
    · -- `s` is the home, where the walk stops
      have hsstop : q.Stops s.self := hsh ▸ q.stops_home
      obtain ⟨hc₂, hq₂, hs₂⟩ := home_stop hn hnext hb hc' hs hsin hpcut hdata' hsstop hq'
      exact ⟨[], s, ⟨p.self.addr, s.self.addr, Message.bytes ⟨tx, q.body⟩⟩, Nat.zero_le _, by simpa using hdata', hs, hsin, rfl, hsstop, hc₂, hq₂,
        by simpa using hs₂⟩
    · -- `s` lies strictly between `p` and the home, one member closer to it
      have hid : s.self.id ≠ q.home.id := fun h =>
        hsh (hr.eq_of_id_eq (mem_ringMembers hs hsin) hhome h)
      have hfewer := Ring.arcCount_follows hr.nodup (mem_ringIds hp hpin) hfol
        (List.mem_map_of_mem hhome) hid
      obtain ⟨reqs, a, d, hlen, hrest⟩ :=
        ih _ (by omega) (next c') s p.self.addr _ hc' hs hsin hpcut hdata' hsh rfl hq'
      exact ⟨reqs, a, d, by omega, hrest⟩
  obtain ⟨reqs, a, d, hlen, hall, ha, hain, hd, hastop, hc₂, hq₂, hs₂⟩ := hrest
  refine ⟨⟨⟨src, p.self.addr, data⟩, false⟩ :: reqs, a, d, by simp [hlen], ?_, ha, hain, hd,
    hastop, ?_, ?_, ?_⟩
  · intro e he
    rcases List.mem_cons.1 he with rfl | he
    · exact ⟨rfl, hdata⟩
    · exact hall e he
  · rwa [List.length_cons, Function.iterate_succ_apply]
  · rwa [List.length_cons, Function.iterate_succ_apply]
  · rw [List.length_cons, Function.iterate_succ_apply, hs₂, hseen']
    simp

end Walk

/-- Without routing, a walk may never end: a ring member that is its own successor and
where the walk does not stop hands the message back to itself at every delivery, so the
ring and the queue stay as they are however many deliveries follow. -/
theorem homing_circles (hn : c.Reaches) (hnext : DeliversLast Q next) {q : Homing}
    {tx : UInt32} (hb : q.body.Exact) {p : Peer} (hp : p ∈ c.peers)
    (hpin : p.ring.inRing = true) (hloop : p.ring.successor = p.self) (hon : p.self.OnWire)
    (hstop : ¬ q.Stops p.self) (k : Nat) :
    ∀ c' : Cluster, c'.uncounted = c.uncounted →
      c'.queue.toList = Q ++ [⟨p.self.addr, p.self.addr, Message.bytes ⟨tx, q.body⟩⟩] →
      (next^[k] c').uncounted = c.uncounted ∧
        (next^[k] c').queue.toList =
          Q ++ [⟨p.self.addr, p.self.addr, Message.bytes ⟨tx, q.body⟩⟩] := by
  have hh : ∀ t : Turn, t.node.peer = p → t.linkOpen = true →
      (Node.handle p.self.addr ⟨tx, q.body⟩).Sends Node.uncounted t ()
        [(p.self.addr, (⟨tx, q.body⟩ : Message).bytes)] := fun t hpeer hl => by
    subst hpeer
    have h : (Node.handle t.node.peer.self.addr ⟨tx, q.body⟩).Sends Node.uncounted t ()
        [(t.node.peer.ring.successor.addr, (⟨tx, q.body⟩ : Message).bytes)] :=
      handle_passes hpin hstop (hloop ▸ hon.isSet) hb hl
    rwa [hloop] at h
  induction k with
  | zero => exact fun c' hc hq => ⟨hc, hq⟩
  | succ k ih =>
    intro c' hc hq
    obtain ⟨hc₁, hq₁, -⟩ := deliver_sends hn hnext hc hp hpin (hn.uncut p hp hpin)
      (Message.decode_bytes hb) hh hq
    rw [Function.iterate_succ_apply]
    exact ih (next c') hc₁ hq₁

/-- A ring-state walk or a join answer handed to a ring member, on a ring whose successors
route and that its home member belongs to, and delivered before anything queued earlier, is
handled at most as many times as there are members, every time as a delivery of the same
message. The last handling is at its home or, for a join answer, at the joiner, and passes
nothing on along successors: the ring is as it was, and the queue holds what it held
before, with the answer to the joiner added when the walk ends at the landmark. -/
theorem homing_ends (hr : c.Routes) (hn : c.Reaches) (hw : c.MembersOnWire)
    (hnext : DeliversLast Q next) (q : Homing) (tx : UInt32) (hhome : q.home ∈ c.ringMembers)
    {p : Peer} (hp : p ∈ c.peers) (hpin : p.ring.inRing = true) {src : Address}
    (hsrc : src ∉ c.cut) {data : Bytes} (hdata : Message.decode data = .ok ⟨tx, q.body⟩)
    {c' : Cluster} (hc : c'.uncounted = c.uncounted)
    (hq : c'.queue.toList = Q ++ [⟨src, p.self.addr, data⟩]) :
    ∃ (reqs : List Delivery) (a : Peer) (d : Datagram),
      reqs.length + 1 ≤ c.ringIds.length ∧
      (∀ e ∈ reqs ++ [⟨d, false⟩],
        e.dropped = false ∧ Message.decode e.datagram.data = .ok ⟨tx, q.body⟩) ∧
      a ∈ c.peers ∧ a.ring.inRing = true ∧ d.dst = a.self.addr ∧ q.Stops a.self ∧
      (next^[reqs.length + 1] c').uncounted = c.uncounted ∧
      (next^[reqs.length + 1] c').queue.toList =
        Q ++ (q.arrival tx a.self).map (fun o => ⟨a.self.addr, o.1, o.2⟩) ∧
      (next^[reqs.length + 1] c').seen.toList = c'.seen.toList ++ reqs ++ [⟨d, false⟩] := by
  have hb := Homing.exact_of_decode hdata
  by_cases hph : p.self = q.home
  · -- the walk is at its home already
    have hstop : q.Stops p.self := hph ▸ q.stops_home
    obtain ⟨hc₁, hq₁, hs₁⟩ := home_stop hn hnext hb hc hp hpin hsrc hdata hstop hq
    have hpos := List.length_pos_of_mem (mem_ringIds hp hpin)
    exact ⟨[], p, ⟨src, p.self.addr, data⟩, hpos, by simpa using hdata, hp, hpin,
      rfl, hstop, hc₁, hq₁, by simpa using hs₁⟩
  · obtain ⟨reqs, a, d, hlen, hrest⟩ :=
      home_walk hn hnext hb hr hw hhome _ c' p src data hc hp hpin hsrc hdata hph rfl hq
    -- the members strictly between `p` and the home are fewer than the others
    have hbound := Ring.arcCount_add_two_le (mem_ringIds hp hpin) (List.mem_map_of_mem hhome)
      fun h => hph (hr.eq_of_id_eq (mem_ringMembers hp hpin) hhome h)
    exact ⟨reqs, a, d, by omega, hrest⟩

/-- Node `3` at `10.0.0.3`, joining through node 2 of `stillPair`. -/
def pairJoiner : NodeRef := NodeRef.make 3 (.v4 [10, 0, 0, 3])

/-- The answer to `pairJoiner`'s join, naming node 2 as landmark and node 1 as successor. -/
def pairAnswer : Homing := .joinReply pairJoiner refTwo refOne

/-- `stillPair` with the join answer queued for node 1, which passes it on to node 2. -/
def pairAnswered : Cluster :=
  { stillPair with
    queue := ⟨[⟨refTwo.addr, refOne.addr, Message.bytes ⟨7, pairAnswer.body⟩⟩], []⟩ }

theorem homing_ends_stillPair :
    stillPair.Routes ∧ stillPair.Reaches ∧ stillPair.MembersOnWire ∧
    pairAnswer.home ∈ stillPair.ringMembers ∧
    ∃ (reqs : List Delivery) (a : Peer) (d : Datagram),
      reqs.length + 1 ≤ stillPair.ringIds.length ∧
      (∀ e ∈ reqs ++ [⟨d, false⟩],
        e.dropped = false ∧ Message.decode e.datagram.data = .ok ⟨7, pairAnswer.body⟩) ∧
      a ∈ stillPair.peers ∧ a.ring.inRing = true ∧ d.dst = a.self.addr ∧ pairAnswer.Stops a.self ∧
      (deliverNewest^[reqs.length + 1] pairAnswered).uncounted = stillPair.uncounted ∧
      (deliverNewest^[reqs.length + 1] pairAnswered).queue.toList =
        (pairAnswer.arrival 7 a.self).map (fun o => ⟨a.self.addr, o.1, o.2⟩) ∧
      (deliverNewest^[reqs.length + 1] pairAnswered).seen.toList =
        pairAnswered.seen.toList ++ reqs ++ [⟨d, false⟩] := by
  have hmembers : stillPair.ringMembers = [refOne, refTwo] := rfl
  have hhome : pairAnswer.home ∈ stillPair.ringMembers := by
    rw [hmembers]
    exact List.mem_cons_of_mem _ (List.mem_singleton.2 rfl)
  have hone : refOne.OnWire := ⟨[10, 0, 0, 1], rfl, rfl, by decide⟩
  have htwo : refTwo.OnWire := ⟨[10, 0, 0, 2], rfl, rfl, by decide⟩
  have hjoiner : pairJoiner.OnWire := ⟨[10, 0, 0, 3], rfl, rfl, by decide⟩
  have hdata : Message.decode (Message.bytes ⟨7, pairAnswer.body⟩) = .ok ⟨7, pairAnswer.body⟩ :=
    Message.decode_bytes ⟨.of_onWire hjoiner, .of_onWire htwo, .of_onWire hone⟩
  exact ⟨stillPair_routes, stillPair_reaches, stillPair_membersOnWire, hhome,
    homing_ends stillPair_routes stillPair_reaches stillPair_membersOnWire (deliversLast_newest [])
      pairAnswer 7 hhome (p := (pairedWith refOne refTwo).peer) (by simp [stillPair_peers]) rfl
      List.not_mem_nil hdata rfl rfl⟩

end Cluster

end ChordSearch
