import ChordSearch.Proofs.Ring.Pointers

/-! # The ring never dangles

A cluster's ring pointers stay inside a set of nodes `R` when every member's pointers and
every reference a queued datagram reads as are unset or in `R`, and every member in the ring
has its successor in `R` (`Cluster.PointersIn`). A step keeps this when `R` only grows and
takes in every member in the ring (`Step.pointersIn`): the member that takes a turn keeps
its own turn invariant (`act_pointersIn`, `receive_pointersIn`), and what it sends joins the
queue.

Two sets carry the invariant along runs from fresh nodes (`successor_never_dangles`):

* the members themselves, in runs where no member leaves the ring with an unset predecessor
  while another node is its successor (`Node.LeavesClosed`): every member in the ring has a
  set successor, and that successor is a member;
* the members in the ring, in runs where nobody leaves: every member in the ring has its
  successor in the ring, with datagrams in flight or not.

A member that leaves does not tell every node that points at it, only its two neighbours,
so a node that joined behind a neighbour that has not yet stabilized keeps pointing at the
member that left.
-/

namespace ChordSearch

namespace Cluster

/-- Every member is on the wire with its pointers unset or in `R`, an in-ring member's
successor in `R`, and every queued datagram that reads as a message has its references in
`R`. -/
def PointersIn (R : NodeRef → Prop) (c : Cluster) : Prop :=
  (∀ n ∈ c.members, n.self.OnWire ∧ n.ring.PointersIn R) ∧
  ∀ d ∈ c.queue.toList, ∀ m, Message.decode d.data = .ok m → m.body.PointersIn R

/-- The references of the members. -/
def Members (c : Cluster) (r : NodeRef) : Prop := ∃ n ∈ c.members, n.self = r

theorem InRing.members {c : Cluster} {r : NodeRef} (h : c.InRing r) : c.Members r :=
  let ⟨n, hn, hr, _⟩ := h
  ⟨n, hn, hr⟩

namespace PointersIn

variable {R R' : NodeRef → Prop} {c : Cluster}

theorem mono (hc : c.PointersIn R) (h : ∀ r, R r → R' r) : c.PointersIn R' :=
  ⟨fun n hn => ⟨(hc.1 n hn).1, (hc.1 n hn).2.mono h⟩,
    fun d hd m hm => (hc.2 d hd m hm).mono h⟩

theorem onWire (hc : c.PointersIn R) {r : NodeRef} (hr : c.Members r) : r.OnWire := by
  obtain ⟨n, hn, rfl⟩ := hr
  exact (hc.1 n hn).1

theorem startTurn (hc : c.PointersIn R) (c' : Cluster) {n : Node} (hn : n ∈ c.members) :
    (c'.startTurn n).PointersIn R :=
  ⟨(hc.1 n hn).1, (hc.1 n hn).2.mono fun _ => .inl, by simp [SentIn, Cluster.startTurn]⟩

theorem taken (hc : c.PointersIn R) (k : Nat) (d : Datagram) : (c.taken k d).PointersIn R :=
  ⟨hc.1, fun d' hd' => by
    rw [taken_queue] at hd'
    exact hc.2 d' (List.mem_of_mem_eraseIdx hd')⟩

theorem afterTurn (hc : c.PointersIn R) {i : Nat} {n : Node} (hi : c.members[i]? = some n)
    {t : Turn} (ht : t.PointersIn R) (hRR' : ∀ r, R r → R' r)
    (hin : ∀ r, (c.afterTurn i n t).InRing r → R' r) : (c.afterTurn i n t).PointersIn R' := by
  have hw : ∀ r, t.Wide R r → R' r := by
    rintro r (hr | ⟨rfl, hr⟩)
    · exact hRR' r hr
    · exact hin _ ⟨t.node, node_mem_afterTurn hi t, rfl, hr⟩
  constructor
  · intro m hm
    rcases mem_afterTurn hi hm with rfl | hm
    · exact ⟨ht.1, ht.2.1.mono hw⟩
    · exact ⟨(hc.1 m hm).1, (hc.1 m hm).2.mono hRR'⟩
  · intro d hd msg hdec
    rw [afterTurn_queue, List.mem_append] at hd
    rcases hd with hd | hd
    · exact (hc.2 d hd msg hdec).mono hRR'
    · obtain ⟨p, hp, rfl⟩ := List.mem_map.1 hd
      exact (ht.2.2 p (Array.mem_toList_iff.1 hp) msg hdec).mono hw

end PointersIn

theorem Step.pointersIn {allowed : Cluster → Nat → Op → Prop} {c c' : Cluster}
    {R R' : NodeRef → Prop} (hs : Step allowed c c') (hc : c.PointersIn R)
    (hR : ∀ r, R r → c.Members r)
    (hleave : ∀ i n, allowed c i .leave → c.members[i]? = some n → R n.self ∧ n.LeavesClosed)
    (hRR' : ∀ r, R r → R' r) (hin : ∀ r, c'.InRing r → R' r) : c'.PointersIn R' := by
  have hwire : ∀ r, R r → r.OnWire := fun r hr => hc.onWire (hR r hr)
  rcases hs.cases with rfl | ⟨i, n, op, ha, hi, rfl⟩ | ⟨k, d, hd, ⟨rfl, -⟩ | ⟨j, n, -, hj, rfl⟩⟩
  · exact hc.mono hRR'
  · have hn := Array.mem_of_getElem? hi
    have ht := NodeM.run_of_triple (@act_pointersIn R hwire op)
      ⟨hc.startTurn c hn, fun hop => by subst hop; exact hleave i n ha hi⟩
    exact hc.afterTurn hi ht hRR' hin
  · exact (hc.taken k d).mono hRR'
  · -- the delivered datagram was queued, so what it reads as is closed
    have hdq : ∀ m, Message.decode d.data = .ok m → m.body.PointersIn R :=
      hc.2 d (List.mem_of_getElem? hd)
    have hn := Array.mem_of_getElem? hj
    have ht := NodeM.run_of_triple (@receive_pointersIn R hwire d.src d.data hdq)
      ((hc.taken k d).startTurn (c.taken k d) hn)
    exact (hc.taken k d).afterTurn hj ht hRR' hin

theorem Run.pointersIn {allowed : Cluster → Nat → Op → Prop} {R : Cluster → NodeRef → Prop}
    (hR : ∀ c r, R c r → c.Members r)
    (hleave : ∀ c i n, allowed c i .leave → c.members[i]? = some n → R c n.self ∧ n.LeavesClosed)
    (hstep : ∀ c c', Step allowed c c' → ∀ r, R c r → R c' r)
    (hin : ∀ c r, c.InRing r → R c r) {c₀ c : Cluster} (hrun : Run allowed c₀ c)
    (h₀ : c₀.PointersIn (R c₀)) : c.PointersIn (R c) :=
  Run.invariant (fun c c' hc hs =>
    hs.pointersIn hc (hR c) (hleave c) (hstep c c' hs) (hin c')) hrun h₀

/-- Nodes as set up, with nothing in flight: every member's ring state is the initial
one. -/
def Fresh (c : Cluster) : Prop := c.queue.toList = [] ∧ ∀ n ∈ c.members, n.ring = {}

theorem Fresh.pointersIn {c : Cluster} (h : c.Fresh) (hwire : ∀ n ∈ c.members, n.self.OnWire)
    (R : NodeRef → Prop) : c.PointersIn R := by
  refine ⟨fun n hn => ⟨hwire n hn, ?_⟩, fun d hd => by simp [h.1] at hd⟩
  rw [h.2 n hn]
  exact ⟨.inl rfl, .inl rfl, nofun⟩

/-- The requests of runs whose members leave only closed. -/
def LeaveClosed (c : Cluster) (i : Nat) (op : Op) : Prop :=
  op = .leave → ∀ n, c.members[i]? = some n → n.LeavesClosed

/-- The requests of runs in which nobody leaves. -/
def Stays (_ : Cluster) (_ : Nat) (op : Op) : Prop := op ≠ .leave

theorem Members.of_selves {a b : Cluster}
    (h : a.members.toList.map (·.self) = b.members.toList.map (·.self)) {r : NodeRef}
    (hr : a.Members r) : b.Members r := by
  obtain ⟨n, hn, rfl⟩ := hr
  have hmem : n.self ∈ b.members.toList.map (·.self) := h ▸ List.mem_map.2 ⟨n, Array.mem_toList_iff.2 hn, rfl⟩
  obtain ⟨m, hm, he⟩ := List.mem_map.1 hmem
  exact ⟨m, Array.mem_toList_iff.1 hm, he⟩

theorem Run.pointersIn_members {c₀ c : Cluster} (hrun : Run LeaveClosed c₀ c)
    (h₀ : c₀.PointersIn c₀.Members) : c.PointersIn c.Members :=
  Run.pointersIn (fun _ _ => id)
    (fun _ _ n ha hi => ⟨⟨n, Array.mem_of_getElem? hi, rfl⟩, ha rfl n hi⟩)
    (fun _ _ hs _ => Members.of_selves hs.selves.symm) (fun _ _ => InRing.members) hrun h₀

theorem Run.pointersIn_inRing {c₀ c : Cluster} (hrun : Run Stays c₀ c)
    (h₀ : c₀.PointersIn c₀.InRing) : c.PointersIn c.InRing :=
  Run.pointersIn (fun _ _ => InRing.members) (fun _ _ _ ha => absurd rfl ha)
    (fun _ _ hs _ => hs.inRing fun _ _ _ => id) (fun _ _ => id) hrun h₀

/-- The ring never dangles. Starting from fresh nodes on the wire, in every run whose
members leave only closed, every member in the ring has a set successor that is a member;
in every run in which nobody leaves, that successor is in the ring, in every state of the
run. -/
theorem successor_never_dangles {c₀ c : Cluster} (hfresh : c₀.Fresh)
    (hwire : ∀ n ∈ c₀.members, n.self.OnWire) :
    (Run LeaveClosed c₀ c → ∀ n ∈ c.members, n.ring.inRing = true →
      n.ring.successor.isUnset = false ∧ c.Members n.ring.successor) ∧
    (Run Stays c₀ c → ∀ n ∈ c.members, n.ring.inRing = true → c.InRing n.ring.successor) := by
  constructor
  · intro hrun n hn hin
    have hc := hrun.pointersIn_members (hfresh.pointersIn hwire _)
    have hs : c.Members n.ring.successor := (hc.1 n hn).2.2.2 hin
    exact ⟨by simp [NodeRef.isUnset, (hc.onWire hs).isSet], hs⟩
  · intro hrun n hn hin
    exact ((hrun.pointersIn_inRing (hfresh.pointersIn hwire _)).1 n hn).2.2.2 hin

/-- A node numbered `k` at `10.0.0.k`, as set up. -/
def freshNode (k : UInt8) : Node :=
  { self := NodeRef.make k.toUInt32 (.v4 [10, 0, 0, k]), config := {}, directory := ⟨[]⟩,
    lastTx := 0, reportsEvents := false }

/-- Nodes 1 and 2, as set up, each reachable at its address. -/
def freshPair : Cluster :=
  { members := #[freshNode 1, freshNode 2],
    endpoints := [⟨(freshNode 1).self.addr, false⟩, ⟨(freshNode 2).self.addr, false⟩] }

/-- Node 1 starts a ring and node 2 joins it through node 1, with nothing delivered yet. -/
def joiningPair : Cluster :=
  ((freshPair.turn 0 (Op.join (freshNode 1).self).act).2.turn 1
    (Op.join (freshNode 1).self).act).2

theorem joiningPair_run {allowed : Cluster → Nat → Op → Prop}
    (h : ∀ c i, allowed c i (.join (freshNode 1).self)) : Run allowed freshPair joiningPair :=
  .tail (.single (.act (h _ 0))) (.act (h _ 1))

theorem freshPair_fresh : freshPair.Fresh := by
  refine ⟨rfl, fun n hn => ?_⟩
  simp only [freshPair, List.mem_toArray, List.mem_cons, List.not_mem_nil, or_false] at hn
  rcases hn with rfl | rfl <;> rfl

theorem freshPair_onWire : ∀ n ∈ freshPair.members, n.self.OnWire := by
  intro n hn
  simp only [freshPair, List.mem_toArray, List.mem_cons, List.not_mem_nil, or_false] at hn
  rcases hn with rfl | rfl
  · exact ⟨[10, 0, 0, 1], rfl, rfl, by decide⟩
  · exact ⟨[10, 0, 0, 2], rfl, rfl, by decide⟩

theorem pair_never_dangles :
    freshPair.Fresh ∧ (∀ n ∈ freshPair.members, n.self.OnWire) ∧
    Run LeaveClosed freshPair joiningPair ∧ Run Stays freshPair joiningPair ∧
    (∀ n ∈ joiningPair.members, n.ring.inRing = true →
      n.ring.successor.isUnset = false ∧ joiningPair.Members n.ring.successor) ∧
    (∀ n ∈ joiningPair.members, n.ring.inRing = true → joiningPair.InRing n.ring.successor) := by
  have hrun₁ : Run LeaveClosed freshPair joiningPair := joiningPair_run fun _ _ => nofun
  have hrun₂ : Run Stays freshPair joiningPair := joiningPair_run fun _ _ => nofun
  exact ⟨freshPair_fresh, freshPair_onWire, hrun₁, hrun₂,
    (successor_never_dangles freshPair_fresh freshPair_onWire).1 hrun₁,
    (successor_never_dangles freshPair_fresh freshPair_onWire).2 hrun₂⟩

/-! ### A leave that unsets a successor

Node 2 joins behind node 1 and both stabilize once, so that node 1 points at node 2 while
node 2 has no predecessor yet; node 2 then leaves and tells node 1, its successor, to take
the unset predecessor in its place. Node 1 is its predecessor too, and ends in the ring with
an unset successor. Every datagram is delivered in the order it was sent. -/

/-- Deliver the `n` datagrams at the head of the queue, one at a time. -/
def deliverHeads : Nat → Cluster → Cluster
  | 0, c => c
  | n + 1, c => deliverHeads n (c.deliverAt 0)

theorem Run.deliverHeads {allowed : Cluster → Nat → Op → Prop} (n : Nat) (c : Cluster) :
    Run allowed c (c.deliverHeads n) := by
  induction n generalizing c with
  | zero => exact .refl
  | succ n ih => exact .head (.deliver 0) (ih _)

/-- The pair after node 2 joins, both stabilize once and node 2 leaves. -/
def departedPair : Cluster :=
  let c := (joiningPair.deliverHeads 3).turn 1 Op.stabilize.act
  let c := (c.2.deliverHeads 2).turn 0 Op.stabilize.act
  let c := (c.2.deliverHeads 6).turn 1 Op.leave.act
  c.2.deliverHeads 3

theorem departedPair_run : Run (fun _ _ _ => True) freshPair departedPair := by
  have hj : Run (fun _ _ _ => True) freshPair joiningPair := joiningPair_run fun _ _ => trivial
  have h₁ := (hj.trans (Run.deliverHeads 3 _)).tail (@Step.act _ _ 1 .stabilize trivial)
  have h₂ := (h₁.trans (Run.deliverHeads 2 _)).tail (@Step.act _ _ 0 .stabilize trivial)
  have h₃ := (h₂.trans (Run.deliverHeads 6 _)).tail (@Step.act _ _ 1 .leave trivial)
  exact h₃.trans (Run.deliverHeads 3 _)

theorem departure_unsets_successor :
    freshPair.Fresh ∧ Run (fun _ _ _ => True) freshPair departedPair ∧
    ∃ n ∈ departedPair.members, n.ring.inRing = true ∧ n.ring.successor.isUnset = true := by
  have h : (departedPair.members[0]?.map fun n => (n.ring.inRing, n.ring.successor.isUnset)) =
      some (true, true) := by
    decide +kernel
  obtain ⟨n, hn, he⟩ := Option.map_eq_some_iff.1 h
  obtain ⟨hin, hunset⟩ := Prod.mk.inj he
  exact ⟨freshPair_fresh, departedPair_run, n, Array.mem_of_getElem? hn, hin, hunset⟩

end Cluster

end ChordSearch
