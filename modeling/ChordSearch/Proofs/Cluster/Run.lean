import ChordSearch.Proofs.Node.Effects
import ChordSearch.Proofs.Cluster.Delivery

/-! # Runs of a cluster

A cluster moves in steps. In one step either an operator asks a member to do something (join
or leave the ring, stabilize, ping, publish, search, look a key up), or one datagram, any of
those queued, is taken off the queue and delivered. Which requests a run may make is a
parameter of the step relation, so that a property can be stated for the runs that make
only some kinds of request; deliveries are always allowed, in any order.

An invariant of the cluster is shown by `Run.invariant`: it holds at the start and every
step keeps it. Steps are turns of one member (`turn_run`), so a step keeps a cluster
invariant when the member's computation keeps a matching invariant of its turn, which is a
Hoare triple proved over the computation's text.
-/

namespace ChordSearch

open Std.Do

set_option mvcgen.warning false

/-- What an operator can ask a member to do. -/
inductive Op where
  | join (landmark : NodeRef)
  | leave
  | stabilize
  | ping (dest : NodeRef) (message : Bytes)
  | auditPings
  | ringState
  | resolve (key : RingId) (tx : UInt32)
  | lookup (term : Bytes)
  | publish (ix : Index)
  | search (via : NodeRef) (terms : List Bytes)

/-- The computation a request runs in the member's turn; its result is what the operator
reads, and is dropped. -/
def Op.act : Op → NodeM Unit
  | .join landmark => do let _ ← Ring.join landmark
  | .leave => do let _ ← Ring.leave
  | .stabilize => Node.tick
  | .ping dest message => do let _ ← Ring.sendPing dest message
  | .auditPings => do let _ ← Ring.auditPings
  | .ringState => do let _ ← Ring.ringState
  | .resolve key tx => do let _ ← Ring.resolve key tx
  | .lookup term => do let _ ← Search.lookup term
  | .publish ix => do let _ ← Search.publish ix
  | .search via terms => do let _ ← Search.query via terms

/-! ### What a turn never changes

No handler and no request changes the node's own reference, and only leaving takes a node
out of the ring. -/

/-- The turn's node is `me`, and in the ring if `b` says it was. -/
def Turn.Keeps (me : NodeRef) (b : Bool) (t : Turn) : Prop :=
  t.node.self = me ∧ (b = true → t.node.ring.inRing = true)

theorem lookupFor_keeps {me : NodeRef} {b : Bool} {errand : Errand} {term : Bytes} :
    ⦃fun t => ⌜t.Keeps me b⌝⦄ Search.lookupFor errand term ⦃⇓ _ t => ⌜t.Keeps me b⌝⦄ := by
  mvcgen [Search.lookupFor, Ring.resolve, Ring.findSuccessor]
  all_goals simp_all [Turn.Keeps]

theorem receive_keeps {me : NodeRef} {b : Bool} {from_ : Address} {data : Bytes} :
    ⦃fun t => ⌜t.Keeps me b⌝⦄ Node.receive from_ data ⦃⇓ _ t => ⌜t.Keeps me b⌝⦄ := by
  mvcgen [Node.receive, Node.handle, Ring.pingRequest, Ring.pingAnswer, Ring.pingSucceeded,
    Ring.joinRequest, Ring.joinReply, Ring.initFinger, Ring.requestFinger, Ring.departure,
    Ring.stabilizeReply, Ring.stabilizeRequest, Ring.ringStatePing, Ring.findSuccessor,
    Ring.foundSuccessor, Search.lookupResolved, Ring.fixFinger, Search.keep, Search.fetch,
    Search.reply, Search.forward, lookupFor_keeps, Search.fetchReply]
  all_goals simp_all [Turn.Keeps]

theorem act_keeps {me : NodeRef} {b : Bool} {op : Op} (hop : op ≠ .leave) :
    ⦃fun t => ⌜t.Keeps me b⌝⦄ op.act ⦃⇓ _ t => ⌜t.Keeps me b⌝⦄ := by
  cases op with
  | leave => exact absurd rfl hop
  | publish _ =>
    mvcgen [Op.act, Search.publish, lookupFor_keeps] invariants
    · ⇓ _ t => ⌜t.Keeps me b⌝
  | _ =>
    mvcgen [Op.act, Ring.join, Ring.bootstrap, Node.tick, Ring.stabilize, Ring.fixFinger,
      Ring.requestFinger, Ring.sendPing, Ring.auditPings, Ring.ringState, Ring.resolve,
      Ring.findSuccessor, Search.lookup, Search.query]
    all_goals simp_all [Turn.Keeps]

theorem leave_keeps {me : NodeRef} :
    ⦃fun t => ⌜t.Keeps me false⌝⦄ Op.leave.act ⦃⇓ _ t => ⌜t.Keeps me false⌝⦄ := by
  mvcgen [Op.act, Ring.leave]
  all_goals simp_all [Turn.Keeps]

theorem act_keeps_self {me : NodeRef} (op : Op) :
    ⦃fun t => ⌜t.Keeps me false⌝⦄ op.act ⦃⇓ _ t => ⌜t.Keeps me false⌝⦄ := by
  by_cases hop : op = .leave
  · subst hop
    exact leave_keeps
  · exact act_keeps hop

namespace Cluster

/-- Take the `k`-th queued datagram off the queue and deliver it; nothing happens when fewer
are queued. -/
def deliverAt (c : Cluster) (k : Nat) : Cluster :=
  match c.queue.toList[k]? with
  | none => c
  | some d => { c with queue := ⟨c.queue.toList.eraseIdx k, []⟩ }.deliverOne d

/-- The cluster with the `k`-th queued datagram `d` taken off the queue and logged. -/
def taken (c : Cluster) (k : Nat) (d : Datagram) : Cluster :=
  { c with queue := ⟨c.queue.toList.eraseIdx k, []⟩,
           seen := c.seen.push ⟨d, c.cut.contains d.src || c.cut.contains d.dst⟩ }

/-- One step: member `i` runs a request that `allowed` permits, or a queued datagram is
delivered. -/
inductive Step (allowed : Cluster → Nat → Op → Prop) : Cluster → Cluster → Prop
  | act {c : Cluster} {i : Nat} {op : Op} : allowed c i op → Step allowed c (c.turn i op.act).2
  | deliver {c : Cluster} (k : Nat) : Step allowed c (c.deliverAt k)

/-- The clusters a run of allowed steps leads to. -/
def Run (allowed : Cluster → Nat → Op → Prop) : Cluster → Cluster → Prop :=
  Relation.ReflTransGen (Step allowed)

theorem Run.invariant {allowed : Cluster → Nat → Op → Prop} {I : Cluster → Prop}
    (hstep : ∀ c c', I c → Step allowed c c' → I c') {c c' : Cluster} (hrun : Run allowed c c')
    (h : I c) : I c' := by
  induction hrun with
  | refl => exact h
  | tail _ hs ih => exact hstep _ _ ih hs

theorem Step.mono {allowed allowed' : Cluster → Nat → Op → Prop}
    (h : ∀ c i op, allowed c i op → allowed' c i op) {c c' : Cluster} (hs : Step allowed c c') :
    Step allowed' c c' := by
  cases hs with
  | act ha => exact .act (h _ _ _ ha)
  | deliver k => exact .deliver k

/-! ### Turns -/

/-- The cluster after member `i`, which was `n`, ran a turn ending in `t`. -/
def afterTurn (c : Cluster) (i : Nat) (n : Node) (t : Turn) : Cluster :=
  { c with members := c.members.modify i fun _ => t.node,
           queue := t.outgoing.foldl (fun q (p : Address × Bytes) => q.push ⟨n.self.addr, p.1, p.2⟩)
             c.queue,
           events := c.events ++ t.events }

theorem turn_run {α : Type} {c : Cluster} {i : Nat} {n : Node} (hi : c.members[i]? = some n)
    (act : NodeM α) :
    (c.turn i act).2 = c.afterTurn i n (act.run (c.startTurn n)).2 := by
  rw [turn_eq hi]
  rfl

@[simp] theorem afterTurn_queue (c : Cluster) (i : Nat) (n : Node) (t : Turn) :
    (c.afterTurn i n t).queue.toList =
      c.queue.toList ++ t.outgoing.toList.map fun p => ⟨n.self.addr, p.1, p.2⟩ :=
  toList_foldl_push _ _ _

@[simp] theorem afterTurn_endpoints (c : Cluster) (i : Nat) (n : Node) (t : Turn) :
    (c.afterTurn i n t).endpoints = c.endpoints := rfl

@[simp] theorem afterTurn_cut (c : Cluster) (i : Nat) (n : Node) (t : Turn) :
    (c.afterTurn i n t).cut = c.cut := rfl

theorem getElem?_afterTurn {c : Cluster} {i : Nat} {n : Node} (hi : c.members[i]? = some n)
    (t : Turn) (j : Nat) :
    (c.afterTurn i n t).members[j]? = if j = i then some t.node else c.members[j]? := by
  simp only [afterTurn, Array.getElem?_modify]
  split
  · next h => subst h; simp [hi]
  · next h => rw [if_neg (Ne.symm h)]

theorem mem_afterTurn {c : Cluster} {i : Nat} {n : Node} (hi : c.members[i]? = some n)
    {t : Turn} {m : Node} (hm : m ∈ (c.afterTurn i n t).members) :
    m = t.node ∨ m ∈ c.members := by
  obtain ⟨j, hj⟩ := Array.mem_iff_getElem?.1 hm
  rw [getElem?_afterTurn hi] at hj
  split at hj
  · exact .inl (Option.some.inj hj).symm
  · exact .inr (Array.mem_iff_getElem?.2 ⟨j, hj⟩)

theorem node_mem_afterTurn {c : Cluster} {i : Nat} {n : Node} (hi : c.members[i]? = some n)
    (t : Turn) : t.node ∈ (c.afterTurn i n t).members :=
  Array.mem_iff_getElem?.2 ⟨i, by simp [getElem?_afterTurn hi]⟩

theorem selves_afterTurn {c : Cluster} {i : Nat} {n : Node} (hi : c.members[i]? = some n)
    {t : Turn} (hs : t.node.self = n.self) :
    (c.afterTurn i n t).members.toList.map (·.self) = c.members.toList.map (·.self) := by
  apply List.ext_getElem?
  intro j
  simp only [List.getElem?_map, Array.getElem?_toList, getElem?_afterTurn hi]
  split
  · next h => subst h; simp [hi, hs]
  · rfl

theorem inRing_afterTurn {c : Cluster} {i : Nat} {n : Node} (hi : c.members[i]? = some n)
    {t : Turn} (hs : t.node.self = n.self) (hin : n.ring.inRing = true → t.node.ring.inRing = true)
    {m : Node} (hm : m ∈ c.members) (hmin : m.ring.inRing = true) :
    ∃ m' ∈ (c.afterTurn i n t).members, m'.self = m.self ∧ m'.ring.inRing = true := by
  obtain ⟨j, hj⟩ := Array.mem_iff_getElem?.1 hm
  by_cases hji : j = i
  · subst hji
    rw [hi] at hj
    cases hj
    refine ⟨t.node, Array.mem_iff_getElem?.2 ⟨j, ?_⟩, hs, hin hmin⟩
    simp [getElem?_afterTurn hi]
  · refine ⟨m, Array.mem_iff_getElem?.2 ⟨j, ?_⟩, rfl, hmin⟩
    rw [getElem?_afterTurn hi, if_neg hji, hj]

/-! ### Deliveries -/

@[simp] theorem taken_members (c : Cluster) (k : Nat) (d : Datagram) :
    (c.taken k d).members = c.members := rfl

@[simp] theorem taken_queue (c : Cluster) (k : Nat) (d : Datagram) :
    (c.taken k d).queue.toList = c.queue.toList.eraseIdx k := by
  simp [taken, Fifo.toList]

theorem handlerOf_member {c : Cluster} {a : Address} {j : Nat} (h : c.handlerOf a = some j) :
    ∃ n, c.members[j]? = some n ∧ n.self.addr = a := by
  unfold handlerOf at h
  split at h
  · obtain ⟨-, hj⟩ := List.mem_filter.1 (List.mem_of_getLast? h)
    rcases hm : c.members[j]? with _ | n <;> rw [hm] at hj
    · cases hj
    · exact ⟨n, rfl, of_decide_eq_true hj⟩
  · cases h

theorem handlerOf_isSome {c : Cluster} {a : Address} (ho : c.linkOpen a = true) {i : Nat}
    {n : Node} (hi : c.members[i]? = some n) (ha : n.self.addr = a) : (c.handlerOf a).isSome := by
  have hlt : i < c.members.size := (Array.getElem?_eq_some_iff.1 hi).1
  rw [handlerOf, if_pos ho, List.getLast?_isSome]
  exact @List.ne_nil_of_mem _ i _ (List.mem_filter.2 ⟨List.mem_range.2 hlt, by simp [hi, ha]⟩)

theorem deliverAt_cases (c : Cluster) (k : Nat) :
    c.deliverAt k = c ∨ ∃ d, c.queue.toList[k]? = some d ∧
      ((c.deliverAt k = c.taken k d ∧
          ((c.cut.contains d.src || c.cut.contains d.dst) = true ∨ c.handlerOf d.dst = none)) ∨
        ∃ j, c.handlerOf d.dst = some j ∧
          c.deliverAt k = ((c.taken k d).turn j (Node.receive d.src d.data)).2) := by
  unfold deliverAt
  split
  · exact .inl rfl
  · next d hd =>
    refine .inr ⟨d, hd, ?_⟩
    unfold deliverOne
    dsimp only
    split
    · next hcut => exact .inl ⟨rfl, .inl hcut⟩
    · split
      · next j hj => exact .inr ⟨j, hj, rfl⟩
      · next hj => exact .inl ⟨rfl, .inr hj⟩

theorem turn_cases {α : Type} (c : Cluster) (i : Nat) (act : NodeM α) :
    (c.turn i act).2 = c ∨ ∃ n, c.members[i]? = some n ∧
      (c.turn i act).2 = c.afterTurn i n (act.run (c.startTurn n)).2 := by
  cases hi : c.members[i]? with
  | none => exact .inl (by simp [turn, hi])
  | some n => exact .inr ⟨n, rfl, turn_run hi act⟩

/-- What a step does: nothing, a member's turn on a request it was allowed, or the delivery
of a queued datagram, which is dropped, when it is cut off or no member handles its
destination, or handled in the turn of the member that does. -/
theorem Step.cases {allowed : Cluster → Nat → Op → Prop} {c c' : Cluster}
    (hs : Step allowed c c') :
    c' = c ∨
    (∃ i n op, allowed c i op ∧ c.members[i]? = some n ∧
      c' = c.afterTurn i n (op.act.run (c.startTurn n)).2) ∨
    (∃ k d, c.queue.toList[k]? = some d ∧
      ((c' = c.taken k d ∧
          ((c.cut.contains d.src || c.cut.contains d.dst) = true ∨ c.handlerOf d.dst = none)) ∨
        ∃ j n, c.handlerOf d.dst = some j ∧ c.members[j]? = some n ∧
          c' = (c.taken k d).afterTurn j n
            ((Node.receive d.src d.data).run ((c.taken k d).startTurn n)).2)) := by
  cases hs with
  | @act i op ha =>
    rcases turn_cases c i op.act with h | ⟨n, hi, h⟩
    · exact .inl h
    · exact .inr (.inl ⟨i, n, op, ha, hi, h⟩)
  | deliver k =>
    rcases deliverAt_cases c k with h | ⟨d, hd, h | ⟨j, hj, h⟩⟩
    · exact .inl h
    · exact .inr (.inr ⟨k, d, hd, .inl h⟩)
    · -- the handler is a member, so the turn is its computation
      obtain ⟨n, hn, -⟩ := handlerOf_member hj
      exact .inr (.inr ⟨k, d, hd, .inr ⟨j, n, hj, hn, h.trans (@turn_run _ (c.taken k d) j n hn _)⟩⟩)

theorem Step.selves {allowed : Cluster → Nat → Op → Prop} {c c' : Cluster}
    (hs : Step allowed c c') :
    c'.members.toList.map (·.self) = c.members.toList.map (·.self) := by
  rcases hs.cases with rfl | ⟨i, n, op, -, hi, rfl⟩ | ⟨k, d, -, ⟨rfl, -⟩ | ⟨j, n, -, hj, rfl⟩⟩
  · rfl
  · exact selves_afterTurn hi (NodeM.run_of_triple (act_keeps_self op)
      (show Turn.Keeps n.self false (c.startTurn n) from ⟨rfl, nofun⟩)).1
  · rfl
  · exact selves_afterTurn hj (NodeM.run_of_triple (@receive_keeps _ _ d.src d.data)
      (show Turn.Keeps n.self false ((c.taken k d).startTurn n) from ⟨rfl, nofun⟩)).1

theorem Run.selves {allowed : Cluster → Nat → Op → Prop} {c c' : Cluster}
    (hrun : Run allowed c c') :
    c'.members.toList.map (·.self) = c.members.toList.map (·.self) :=
  Run.invariant (fun _ _ h hs => hs.selves.trans h) hrun rfl

/-- The references of the members in the ring. -/
def InRing (c : Cluster) (r : NodeRef) : Prop :=
  ∃ n ∈ c.members, n.self = r ∧ n.ring.inRing = true

theorem Step.inRing {allowed : Cluster → Nat → Op → Prop}
    (hno : ∀ c i op, allowed c i op → op ≠ .leave) {c c' : Cluster} (hs : Step allowed c c')
    {r : NodeRef} (hr : c.InRing r) : c'.InRing r := by
  obtain ⟨m, hm, rfl, hmin⟩ := hr
  rcases hs.cases with rfl | ⟨i, n, op, ha, hi, rfl⟩ | ⟨k, d, -, ⟨rfl, -⟩ | ⟨j, n, -, hj, rfl⟩⟩
  · exact ⟨m, hm, rfl, hmin⟩
  · have hk := NodeM.run_of_triple (act_keeps (hno _ _ _ ha))
      (show Turn.Keeps n.self n.ring.inRing (c.startTurn n) from ⟨rfl, id⟩)
    exact inRing_afterTurn hi hk.1 hk.2 hm hmin
  · exact ⟨m, hm, rfl, hmin⟩
  · have hk := NodeM.run_of_triple (@receive_keeps _ _ d.src d.data)
      (show Turn.Keeps n.self n.ring.inRing ((c.taken k d).startTurn n) from ⟨rfl, id⟩)
    exact inRing_afterTurn hj hk.1 hk.2 hm hmin

end Cluster

end ChordSearch
