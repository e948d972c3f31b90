import Mathlib.Logic.Function.Iterate
import ChordSearch.Cluster.Basic
import ChordSearch.Proofs.Ring.Clockwise
import ChordSearch.Proofs.Wire.RoundTrip

/-! # Turns and deliveries

What a cluster does is made of turns: a node runs a computation, its state changes, and
what it sends is appended to the queue. This module describes turns and deliveries by their
effect, so that the protocol proofs built on it never unfold them.

* `NodeM.Sends act t a out`: run from the turn state `t`, `act` returns `a`, changes nothing
  of the node but its counters and sends `out`, in order. Such runs compose
  (`Sends.bind`); counting (`modifyMetrics_sends`) and sending a message the wire carries
  (`send_sends`) are such runs.
* `Cluster.uncounted` forgets the counters of every member, the queue and the delivery log.
  A member's turn that only sends keeps it (`Cluster.turn_sends`), and a turn that starts by
  only counting goes on as a turn of its own (`Cluster.turn_bind`).
* `Cluster.deliverOne_member`: a datagram between two addresses that are not cut off
  reaches the member that handles its destination and is logged as delivered.
* The ring as the ring layer sees it is the list of `Peer`s, each node's reference and ring
  state. `Cluster.Routes` says the successor pointers route every key: members sit at
  distinct positions and each member's successor is the member that follows it.
  `Cluster.Reaches` says datagrams addressed to a member reach it, and
  `Cluster.MembersOnWire` that the wire carries every member's reference unchanged. All
  three depend only on what `Cluster.settled` keeps, which `uncounted` keeps too
  (`Routes.congr`, `Reaches.congr`, `MembersOnWire.congr`).
* Delivery schedules: `DeliversLast q next` says that `next` takes the datagram queued after
  `q` off the queue and delivers it. Delivering the newest datagram (`deliverNewest`) does so
  whatever `q` is, and delivering the oldest (`deliverFirst`) does so when `q` is empty.
-/

namespace ChordSearch

open NodeM

/-- The message type a datagram reads as, if it reads as a message. -/
def Datagram.kind? (d : Datagram) : Option Kind :=
  match Message.decode d.data with
  | .ok m => some m.body.kind
  | .error _ => none

theorem Datagram.kind?_of_data {d : Datagram} {m : Message} (hd : d.data = m.bytes)
    (h : m.body.Exact) : d.kind? = some m.body.kind := by
  simp [kind?, hd, Message.decode_bytes h]

/-! ### Views of a node -/

/-- A node with its counters cleared. -/
def Node.uncounted (n : Node) : Node := { n with metrics := {} }

/-- A node with its counters, its transaction counter and its lookups in flight cleared:
what a search leaves as it was at the nodes it passes through. -/
def Node.settled (n : Node) : Node :=
  { n with metrics := {}, lastTx := 0, search := { n.search with lookups := Tracker.empty } }

theorem Node.settled_uncounted (n : Node) : n.uncounted.settled = n.settled := rfl

/-- A node as the ring layer sees it: its reference and its ring state. -/
structure Peer where
  self : NodeRef
  ring : Membership

/-- The peer a node is. -/
def Node.peer (n : Node) : Peer := ⟨n.self, n.ring⟩

/-- A view of nodes that forgets at least their counters and keeps what the ring layer
sees of them. -/
structure Forgets (keep : Node → Node) : Prop where
  metrics : ∀ n ms, keep { n with metrics := ms } = keep n
  peer : ∀ n, (keep n).peer = n.peer

theorem forgets_uncounted : Forgets Node.uncounted := ⟨fun _ _ => rfl, fun _ => rfl⟩

theorem forgets_settled : Forgets Node.settled := ⟨fun _ _ => rfl, fun _ => rfl⟩

/-! ### Runs that only send -/

/-- The turn went from `t` to `t'` changing nothing of the node that `keep` keeps and
reporting nothing, and sent `out`, in order. -/
structure Turn.Sent (keep : Node → Node) (t t' : Turn) (out : List (Address × Bytes)) : Prop where
  node : keep t'.node = keep t.node
  now : t'.now = t.now
  linkOpen : t'.linkOpen = t.linkOpen
  outgoing : t'.outgoing.toList = t.outgoing.toList ++ out
  events : t'.events = t.events

namespace Turn.Sent

variable {keep : Node → Node} {t t' t₁ t₂ t₃ : Turn} {out o₁ o₂ : List (Address × Bytes)}

theorem refl (keep : Node → Node) (t : Turn) : t.Sent keep t [] := ⟨rfl, rfl, rfl, by simp, rfl⟩

theorem trans (h₁ : t₁.Sent keep t₂ o₁) (h₂ : t₂.Sent keep t₃ o₂) : t₁.Sent keep t₃ (o₁ ++ o₂) := by
  refine ⟨?_, h₂.now.trans h₁.now, h₂.linkOpen.trans h₁.linkOpen, ?_, h₂.events.trans h₁.events⟩
  · rw [h₂.node, h₁.node]
  · rw [h₂.outgoing, h₁.outgoing, List.append_assoc]

theorem peer (hk : Forgets keep) (h : t.Sent keep t' out) : t'.node.peer = t.node.peer := by
  rw [← hk.peer, h.node, hk.peer]

end Turn.Sent

/-- Run from `t`, `act` returns `a`, changes nothing of the node that `keep` keeps, reports
nothing, and sends `out`, in order. -/
def NodeM.Sends {α : Type} (keep : Node → Node) (act : NodeM α) (t : Turn) (a : α)
    (out : List (Address × Bytes)) : Prop :=
  ∃ t', act.run t = (a, t') ∧ t.Sent keep t' out

namespace NodeM.Sends

variable {keep : Node → Node} {α β : Type} {act : NodeM α} {t : Turn} {a : α}
  {out o₁ o₂ : List (Address × Bytes)}

theorem pure (keep : Node → Node) (t : Turn) (a : α) : (Pure.pure a : NodeM α).Sends keep t a [] :=
  ⟨t, rfl, Turn.Sent.refl keep t⟩

theorem bind {f : α → NodeM β} {b : β} (h : act.Sends keep t a o₁)
    (hf : ∀ t₁, t.Sent keep t₁ o₁ → (f a).Sends keep t₁ b o₂) :
    (act >>= f).Sends keep t b (o₁ ++ o₂) := by
  obtain ⟨t₁, hrun₁, hs₁⟩ := h
  obtain ⟨t₂, hrun₂, hs₂⟩ := hf t₁ hs₁
  refine ⟨t₂, ?_, hs₁.trans hs₂⟩
  rw [StateT.run_bind, hrun₁]
  exact hrun₂

end NodeM.Sends

/-- Run from `t`, `act` first moves the node to `n'` without sending or reporting, then
returns `a`, changing nothing more of the node than `keep` forgets, and sends `out`, in
order. -/
def NodeM.SendsVia {α : Type} (keep : Node → Node) (act : NodeM α) (t : Turn) (n' : Node) (a : α)
    (out : List (Address × Bytes)) : Prop :=
  ∃ t', act.run t = (a, t') ∧ { t with node := n' }.Sent keep t' out

namespace NodeM.SendsVia

variable {keep : Node → Node} {α : Type} {act : NodeM α} {t : Turn} {n₁ n₂ : Node} {a : α}
  {out : List (Address × Bytes)}

theorem of_sends (h : act.Sends keep t a out) : act.SendsVia keep t t.node a out := h

theorem sends (h : act.SendsVia keep t t.node a out) : act.Sends keep t a out := h

theorem of_run_eq {act' : NodeM α} (h : act.run t = act'.run { t with node := n₁ })
    (h' : act'.SendsVia keep { t with node := n₁ } n₂ a out) : act.SendsVia keep t n₂ a out := by
  obtain ⟨t', hrun, hs⟩ := h'
  exact ⟨t', h.trans hrun, hs⟩

theorem congr (hk : keep n₁ = keep n₂) (h : act.SendsVia keep t n₁ a out) :
    act.SendsVia keep t n₂ a out :=
  let ⟨t', hrun, hs⟩ := h
  ⟨t', hrun, { hs with node := hs.node.trans hk }⟩

end NodeM.SendsVia

theorem receive_eq {src : Address} {data : Bytes} {m : Message} (h : Message.decode data = .ok m) :
    Node.receive src data =
      (modifyMetrics fun ms => { ms with received := ms.received.bump m.body.kind.name }) >>=
        fun _ => Node.handle src m := by
  simp only [Node.receive, h]

section Sends

variable {keep : Node → Node} (hk : Forgets keep)
include hk

theorem modifyMetrics_sends (t : Turn) (f : Metrics → Metrics) :
    (modifyMetrics f).Sends keep t () [] :=
  ⟨_, rfl, hk.metrics _ _, rfl, rfl, by simp, rfl⟩

theorem transmit_sends {t : Turn} {dest : Address} {m : Message} (hb : m.body.Exact)
    (hl : t.linkOpen = true) : (transmit dest m).Sends keep t () [(dest, m.bytes)] := by
  let ms : Metrics := { t.node.metrics with sent := t.node.metrics.sent.bump m.body.kind.name }
  let n : Node := { t.node with metrics := ms }
  refine ⟨{ t with node := n, outgoing := t.outgoing.push (dest, m.bytes) }, ?_,
    hk.metrics _ _, rfl, rfl, by simp, rfl⟩
  simp [transmit, Message.encode_bytes hb, hl, modifyMetrics, modifyNode]
  rfl

theorem send_sends {t : Turn} {dest : Address} {tx : UInt32} {body : Body}
    (hset : dest.isSet = true) (hb : body.Exact) (hl : t.linkOpen = true) :
    (send dest tx body).Sends keep t () [(dest, (⟨tx, body⟩ : Message).bytes)] := by
  simpa [send, hset] using @transmit_sends keep hk t dest ⟨tx, body⟩ hb hl

theorem receive_sends (src : Address) {t : Turn} {data : Bytes} {m : Message}
    {out : List (Address × Bytes)} (h : Message.decode data = .ok m)
    (hh : ∀ t₁, t.Sent keep t₁ [] → (Node.handle src m).Sends keep t₁ () out) :
    (Node.receive src data).Sends keep t () out := by
  rw [receive_eq h]
  simpa using (modifyMetrics_sends hk t _).bind hh

end Sends

namespace Cluster

/-- The cluster as `keep` sees its members, with the queue and the delivery log forgotten. -/
def view (keep : Node → Node) (c : Cluster) : Cluster :=
  { c with members := c.members.map keep, queue := {}, seen := #[] }

/-- The cluster with the counters of every member, the queue and the delivery log
forgotten: what a turn that only counts and sends leaves as it was. -/
def uncounted (c : Cluster) : Cluster := c.view Node.uncounted

/-- The cluster with every member settled, and the queue and the delivery log forgotten:
what a search leaves as it was. -/
def settled (c : Cluster) : Cluster := c.view Node.settled

theorem getElem?_view (keep : Node → Node) (c : Cluster) (j : Nat) :
    (c.view keep).members[j]? = c.members[j]?.map keep := by
  simp [view]

theorem view_view {keep₁ keep₂ : Node → Node} (h : ∀ n, keep₂ (keep₁ n) = keep₂ n) (c : Cluster) :
    (c.view keep₁).view keep₂ = c.view keep₂ := by
  simp only [view, Array.map_map, Function.comp_def, h]

theorem view_coarsen {keep₁ keep₂ : Node → Node} (h : ∀ n, keep₂ (keep₁ n) = keep₂ n)
    {c c' : Cluster} (hc : c'.view keep₁ = c.view keep₁) : c'.view keep₂ = c.view keep₂ := by
  rw [← view_view h c', hc, view_view h]

theorem settled_uncounted (c : Cluster) : c.uncounted.settled = c.settled :=
  @view_view Node.uncounted Node.settled (fun _ => rfl) c

theorem settled_of_uncounted {c c' : Cluster} (h : c'.uncounted = c.uncounted) :
    c'.settled = c.settled :=
  @view_coarsen Node.uncounted Node.settled (fun _ => rfl) c c' h

/-- The state a member's turn starts from. -/
def startTurn (c : Cluster) (n : Node) : Turn :=
  { node := n, now := c.clock, linkOpen := c.linkOpen n.self.addr }

/-- The cluster with member `i` replaced by `n`. -/
def setMember (c : Cluster) (i : Nat) (n : Node) : Cluster :=
  { c with members := c.members.modify i fun _ => n }

theorem modify_map_congr {β : Type} {f : Node → β} {a b : Node} (h : f a = f b) (xs : Array Node)
    (i : Nat) : (xs.modify i fun _ => a).map f = (xs.modify i fun _ => b).map f := by
  apply Array.ext_getElem?
  intro j
  by_cases hj : i = j
  · subst hj
    cases hx : xs[i]? <;> simp [Array.getElem?_modify, hx, h]
  · simp [Array.getElem?_modify, hj]

theorem members_modify_map {β : Type} {c : Cluster} {i : Nat} {n n' : Node} (f : Node → β)
    (hi : c.members[i]? = some n) (hn : f n' = f n) :
    (c.members.modify i fun _ => n').map f = c.members.map f := by
  rw [modify_map_congr hn]
  congr 1
  apply Array.ext_getElem?
  intro j
  by_cases hj : i = j
  · subst hj
    simp [Array.getElem?_modify, hi]
  · simp [Array.getElem?_modify, hj]

theorem view_setMember {keep : Node → Node} {c : Cluster} {i : Nat} {n n' : Node}
    (hi : c.members[i]? = some n) (hn : keep n' = keep n) :
    (c.setMember i n').view keep = c.view keep := by
  simp only [view, setMember, members_modify_map keep hi hn]

theorem turn_eq {α : Type} {c : Cluster} {i : Nat} {n : Node} (hi : c.members[i]? = some n)
    (act : NodeM α) :
    c.turn i act = ((some (act.run (c.startTurn n)).1, { c with
      members := c.members.modify i fun _ => (act.run (c.startTurn n)).2.node,
      queue := (act.run (c.startTurn n)).2.outgoing.foldl
        (fun q (p : Address × Bytes) => q.push ⟨n.self.addr, p.1, p.2⟩) c.queue,
      events := c.events ++ (act.run (c.startTurn n)).2.events })) := by
  simp only [turn, hi]
  rfl

theorem toList_foldl_push (src : Address) (out : Array (Address × Bytes)) (q : Fifo Datagram) :
    (out.foldl (fun q (p : Address × Bytes) => q.push ⟨src, p.1, p.2⟩) q).toList =
      q.toList ++ out.toList.map fun p => ⟨src, p.1, p.2⟩ := by
  rw [← Array.foldl_toList]
  induction out.toList generalizing q with
  | nil => simp
  | cons p ps ih => simp [ih]

/-- A member's turn that first moves the member to `n'` and from there only sends leaves
the cluster, as `keep` sees it, with member `n'` in place, keeps the log, and appends what
was sent, from the member's address, to the queue. -/
theorem turn_sendsVia {keep : Node → Node} {α : Type} {c : Cluster} {i : Nat} {n n' : Node}
    {act : NodeM α} {a : α} {out : List (Address × Bytes)} (hi : c.members[i]? = some n)
    (h : act.SendsVia keep (c.startTurn n) n' a out) :
    ∃ c', c.turn i act = (some a, c') ∧ c'.view keep = (c.setMember i n').view keep ∧
      c'.seen = c.seen ∧
      c'.queue.toList = c.queue.toList ++ out.map fun p => ⟨n.self.addr, p.1, p.2⟩ := by
  obtain ⟨t', hrun, hs⟩ := h
  have hout : t'.outgoing.toList = out := by simpa [startTurn] using hs.outgoing
  have hev : t'.events = #[] := hs.events
  have hturn := turn_eq hi act
  rw [hrun] at hturn
  dsimp only at hturn
  refine ⟨_, hturn, ?_, rfl, ?_⟩
  · simp only [view, setMember, hev, Array.append_empty, modify_map_congr hs.node]
  · simp [toList_foldl_push, hout]

theorem turn_sends {keep : Node → Node} {α : Type} {c : Cluster} {i : Nat} {n : Node}
    {act : NodeM α} {a : α} {out : List (Address × Bytes)} (hi : c.members[i]? = some n)
    (h : act.Sends keep (c.startTurn n) a out) :
    ∃ c', c.turn i act = (some a, c') ∧ c'.view keep = c.view keep ∧ c'.seen = c.seen ∧
      c'.queue.toList = c.queue.toList ++ out.map fun p => ⟨n.self.addr, p.1, p.2⟩ := by
  obtain ⟨c', hturn, hview, hseen, hq⟩ := turn_sendsVia hi (NodeM.SendsVia.of_sends h)
  exact ⟨c', hturn, hview.trans (view_setMember hi rfl), hseen, hq⟩

theorem startTurn_of_sent {keep : Node → Node} (hk : Forgets keep) {c : Cluster} {n : Node}
    {t : Turn} (h : (c.startTurn n).Sent keep t []) : c.startTurn t.node = t := by
  have hnow : t.now = c.clock := h.now
  have hself : t.node.self = n.self := congrArg Peer.self (h.peer hk)
  have hopen : t.linkOpen = c.linkOpen t.node.self.addr := by
    rw [h.linkOpen, hself]
    rfl
  have hout : t.outgoing = #[] := Array.toList_inj.1 (by simpa [startTurn] using h.outgoing)
  have hev : t.events = #[] := h.events
  rcases t with ⟨node, now, lo, out, ev⟩
  simp only at hnow hopen hout hev
  subst hnow hopen hout hev
  rfl

theorem getElem?_modify_self {c : Cluster} {i : Nat} {n : Node} (hi : c.members[i]? = some n)
    (n' : Node) : (c.members.modify i fun _ => n')[i]? = some n' := by
  rw [Array.getElem?_modify, if_pos rfl, hi]
  rfl

theorem turn_bind {keep : Node → Node} (hk : Forgets keep) {α β : Type} {c : Cluster} {i : Nat}
    {n : Node} {act : NodeM α} {a : α} (f : α → NodeM β) (hi : c.members[i]? = some n)
    (h : act.Sends keep (c.startTurn n) a []) :
    c.turn i (act >>= f) = (c.turn i act).2.turn i (f a) := by
  obtain ⟨t₁, hrun, hs⟩ := h
  have hstart : c.startTurn t₁.node = t₁ := startTurn_of_sent hk hs
  have hout : t₁.outgoing = #[] := by rw [← hstart]; rfl
  have hev : t₁.events = #[] := by rw [← hstart]; rfl
  have hb : (act >>= f).run (c.startTurn n) = (f a).run t₁ := by
    rw [StateT.run_bind, hrun]
    rfl
  have hc₁ : (c.turn i act).2 = { c with members := c.members.modify i fun _ => t₁.node } := by
    rw [turn_eq hi, hrun]
    simp only [hout, hev, Array.foldl_empty, Array.append_empty]
  have hi₁ : ({ c with members := c.members.modify i fun _ => t₁.node } : Cluster).members[i]? =
      some t₁.node := getElem?_modify_self hi t₁.node
  have hmod : ∀ n', (c.members.modify i fun _ => t₁.node).modify i (fun _ => n') =
      c.members.modify i fun _ => n' := by
    intro n'
    apply Array.toList_inj.1
    simp [List.modify_modify_eq, Function.comp_def]
  have hstart₁ : ({ c with members := c.members.modify i fun _ => t₁.node } : Cluster).startTurn
      t₁.node = t₁ := hstart
  have hself : t₁.node.self = n.self := congrArg Peer.self (hs.peer hk)
  rw [hc₁, turn_eq hi₁, hstart₁, turn_eq hi, hb]
  simp only [hmod, hself]

theorem deliverOne_member {c : Cluster} {d : Datagram} {j : Nat} (hs : d.src ∉ c.cut)
    (hd : d.dst ∉ c.cut) (hj : c.handlerOf d.dst = some j) :
    ∃ c' : Cluster, (∀ keep, c'.view keep = c.view keep) ∧ c'.queue = c.queue ∧
      c'.seen = c.seen.push ⟨d, false⟩ ∧ c.deliverOne d = (c'.turn j (Node.receive d.src d.data)).2 := by
  have hcut : (c.cut.contains d.src || c.cut.contains d.dst) = false := by simp [hs, hd]
  have hj' : ({ c with seen := c.seen.push ⟨d, false⟩ } : Cluster).handlerOf d.dst = some j := hj
  refine ⟨{ c with seen := c.seen.push ⟨d, false⟩ }, fun _ => rfl, rfl, rfl, ?_⟩
  simp only [deliverOne, hcut, hj', Bool.false_eq_true, ↓reduceIte]

/-! ### The ring as the ring layer sees it -/

/-- The nodes as the ring layer sees them, in attach order. -/
def peers (c : Cluster) : List Peer := c.members.toList.map Node.peer

/-- The references of the ring members, in attach order. -/
def ringMembers (c : Cluster) : List NodeRef := (c.peers.filter (·.ring.inRing)).map (·.self)

/-- The positions of the ring members. -/
def ringIds (c : Cluster) : List RingId := c.ringMembers.map (·.id)

theorem getElem?_peers (c : Cluster) (i : Nat) : c.peers[i]? = c.members[i]?.map Node.peer := by
  simp [peers]

/-- Two clusters with the same ring: their members are the same peers, in the same places,
behind the same endpoints and cuts. Every ring predicate depends on nothing else. -/
structure SameRing (c' c : Cluster) : Prop where
  peers : c'.peers = c.peers
  endpoints : c'.endpoints = c.endpoints
  cut : c'.cut = c.cut

theorem handlerOf_eq_peers (c : Cluster) (a : Address) :
    c.handlerOf a = if c.linkOpen a then
      ((List.range c.peers.length).filter fun i =>
        decide (c.peers[i]?.map (·.self.addr) = some a)).getLast?
    else none := by
  have hlen : c.peers.length = c.members.size := by simp [peers]
  simp only [handlerOf, hlen]
  congr 3
  funext i
  rw [getElem?_peers]
  cases c.members[i]? <;> simp [Node.peer]

namespace SameRing

variable {c c' c'' : Cluster}

theorem refl (c : Cluster) : SameRing c c := ⟨rfl, rfl, rfl⟩

theorem trans (h₁ : SameRing c'' c') (h₂ : SameRing c' c) : SameRing c'' c :=
  ⟨h₁.peers.trans h₂.peers, h₁.endpoints.trans h₂.endpoints, h₁.cut.trans h₂.cut⟩

theorem linkOpen (h : SameRing c' c) : c'.linkOpen = c.linkOpen := by
  funext a
  simp only [Cluster.linkOpen, h.endpoints]

theorem handlerOf (h : SameRing c' c) : c'.handlerOf = c.handlerOf := by
  funext a
  rw [handlerOf_eq_peers, handlerOf_eq_peers, h.peers, h.linkOpen]

theorem ringIds (h : SameRing c' c) : c'.ringIds = c.ringIds := by
  simp only [Cluster.ringIds, ringMembers, h.peers]

theorem member_of_peer (h : SameRing c' c) {j : Nat} {p : Peer} (hj : c.peers[j]? = some p) :
    ∃ m, c'.members[j]? = some m ∧ m.peer = p := by
  rw [← h.peers, getElem?_peers] at hj
  exact Option.map_eq_some_iff.1 hj

end SameRing

theorem sameRing_of_view {keep : Node → Node} (hk : Forgets keep) {c c' : Cluster}
    (h : c'.view keep = c.view keep) : SameRing c' c := by
  have hpeers : ∀ c : Cluster, (c.view keep).peers = c.peers := fun c => by
    simp [peers, view, Function.comp_def, hk.peer]
  have hend : (c'.view keep).endpoints = (c.view keep).endpoints := by rw [h]
  have hcut : (c'.view keep).cut = (c.view keep).cut := by rw [h]
  refine ⟨?_, hend, hcut⟩
  rw [← hpeers c', h, hpeers]

theorem sameRing_of_uncounted {c c' : Cluster} (h : c'.uncounted = c.uncounted) : SameRing c' c :=
  sameRing_of_view forgets_uncounted h

theorem sameRing_setMember {c : Cluster} {i : Nat} {n n' : Node} (hi : c.members[i]? = some n)
    (hn : n'.peer = n.peer) : SameRing (c.setMember i n') c :=
  ⟨by rw [peers, peers, ← Array.toList_map, ← Array.toList_map, setMember,
    members_modify_map Node.peer hi hn], rfl, rfl⟩

theorem mem_ringMembers {c : Cluster} {p : Peer} (hp : p ∈ c.peers) (hin : p.ring.inRing = true) :
    p.self ∈ c.ringMembers :=
  List.mem_map.2 ⟨p, List.mem_filter.2 ⟨hp, hin⟩, rfl⟩

theorem mem_ringIds {c : Cluster} {p : Peer} (hp : p ∈ c.peers) (hin : p.ring.inRing = true) :
    p.self.id ∈ c.ringIds :=
  List.mem_map.2 ⟨p.self, mem_ringMembers hp hin, rfl⟩

theorem linkOpen_of_handlerOf {c : Cluster} {a : Address} {j : Nat} (h : c.handlerOf a = some j) :
    c.linkOpen a = true := by
  unfold handlerOf at h
  split at h
  · assumption
  · cases h

/-- Successor pointers route every key: the ring members sit at distinct positions, and
each member's successor is a member, the one that follows it going clockwise. -/
structure Routes (c : Cluster) : Prop where
  nodup : c.ringIds.Nodup
  successor : ∀ p ∈ c.peers, p.ring.inRing = true → ∃ s ∈ c.peers, s.ring.inRing = true ∧
    s.self = p.ring.successor ∧ Ring.Follows c.ringIds p.self.id s.self.id

/-- The network brings every datagram addressed to a ring member to that member: the member
is the node that handles its address, and the address is not cut off. -/
structure Reaches (c : Cluster) : Prop where
  handler : ∀ i p, c.peers[i]? = some p → p.ring.inRing = true → c.handlerOf p.self.addr = some i
  uncut : ∀ p ∈ c.peers, p.ring.inRing = true → p.self.addr ∉ c.cut

/-- The wire carries every ring member's reference unchanged. -/
def MembersOnWire (c : Cluster) : Prop := ∀ p ∈ c.peers, p.ring.inRing = true → p.self.OnWire

section Congr

variable {c c' : Cluster} (h : SameRing c' c)
include h

theorem Routes.congr (hr : c.Routes) : c'.Routes := by
  constructor
  · rw [h.ringIds]
    exact hr.nodup
  · rw [h.ringIds, h.peers]
    exact hr.successor

theorem Reaches.congr (hn : c.Reaches) : c'.Reaches := by
  constructor
  · rw [h.peers, h.handlerOf]
    exact hn.handler
  · rw [h.peers, h.cut]
    exact hn.uncut

theorem MembersOnWire.congr (hw : c.MembersOnWire) : c'.MembersOnWire := by
  rw [MembersOnWire, h.peers]
  exact hw

end Congr

/-! ### Delivery schedules -/

/-- Deliver the datagram sent last. -/
def deliverNewest (c : Cluster) : Cluster :=
  match c.queue.toList.reverse with
  | [] => c
  | d :: older => { c with queue := ⟨older.reverse, []⟩ }.deliverOne d

/-- Deliver the datagram sent first. -/
def deliverFirst (c : Cluster) : Cluster :=
  match c.queue.pop? with
  | none => c
  | some (d, q) => { c with queue := q }.deliverOne d

/-- `next` takes the datagram queued after `q` off the queue and delivers it. -/
def DeliversLast (q : List Datagram) (next : Cluster → Cluster) : Prop :=
  ∀ c d, c.queue.toList = q ++ [d] →
    ∃ Q : Fifo Datagram, Q.toList = q ∧ next c = { c with queue := Q }.deliverOne d

theorem deliversLast_newest (q : List Datagram) : DeliversLast q deliverNewest := by
  intro c d hq
  refine ⟨⟨q, []⟩, by simp [Fifo.toList], ?_⟩
  simp [deliverNewest, hq]

theorem deliversLast_first : DeliversLast [] deliverFirst := by
  intro c d hq
  have hpop := Fifo.toList_pop? c.queue
  rw [hq] at hpop
  obtain ⟨⟨d', Q⟩, hp, hdQ⟩ := Option.map_eq_some_iff.1 hpop
  simp only [List.nil_append, List.cons.injEq] at hdQ
  obtain ⟨rfl, hQ⟩ := hdQ
  exact ⟨Q, hQ, by simp [deliverFirst, hp]⟩

end Cluster

end ChordSearch
