import ChordSearch.Proofs.Ring.Steady
import ChordSearch.Proofs.Search.Custody

/-! # A correct ring holds still

A cluster whose ring members form a correct ring (`Cluster.Correct`), with every stored
term at its owner (`Cluster.Placed`) and nothing in flight, stays so through every run of
requests other than joins and leaves, with datagrams delivered in any order
(`ring_holds_still`): no member's ring flag, successor or predecessor changes, and no
member gives up a posting it stored, so no change of predecessor rehomes one; and every
stored term is at its owner.

The invariant of such runs is `Cluster.Still`: the frame's members are the ring members,
each reached at its address; every member is as `Turn.Steady` leaves one; and every queued
datagram is sound, its lookup awaited where it will be matched (`Cluster.Awaits`). A step
is a turn of one member, which keeps `Turn.Steady` by `act_steady` or `receive_steady`
(`Step.still`); along a run every member stays where it was (`Cluster.Unmoved`).

Two conditions are needed. A resolve runs under the transaction id it is given: under the
id of a lookup for another term still waiting at the member, the answer to the resolve
sends the waiting term to the resolved key's owner (`resolve_reused_id_misplaces`). And no
member's counter may wrap round, or a lookup could be started under the id of one still
waiting (`StillRun`).
-/

namespace ChordSearch

namespace Cluster

/-! ### Correct rings -/

/-- The member that datagrams to `a` reach waits under `tx` only for lookups of `key`: it is
in the ring and coherent for `key` under `tx`. -/
def Awaits (c : Cluster) (a : Address) (tx : UInt32) (key : RingId) : Prop :=
  ∀ j n, c.handlerOf a = some j → c.members[j]? = some n →
    n.ring.inRing = true ∧ n.Coherent tx key

/-- The members in the ring form a correct ring: they sit at distinct positions and at
four-octet addresses, each is the member that datagrams to its address reach, each one's
successor is the next member going clockwise and its predecessor the one before. Every
member has an address. -/
structure Correct (c : Cluster) : Prop where
  nodup : c.ringIds.Nodup
  addressed : ∀ n ∈ c.members, n.self.addr.isSet = true
  wired : ∀ n ∈ c.members, n.ring.inRing = true → n.self.Wired
  handler : ∀ i n, c.members[i]? = some n → n.ring.inRing = true →
    c.handlerOf n.self.addr = some i
  successor : ∀ n ∈ c.members, n.ring.inRing = true →
    c.InRing n.ring.successor ∧ Ring.Follows c.ringIds n.self.id n.ring.successor.id
  predecessor : ∀ n ∈ c.members, n.ring.inRing = true →
    c.InRing n.ring.predecessor ∧ Ring.Follows c.ringIds n.ring.predecessor.id n.self.id

/-- Every stored term is held by its owner only: by a member in the ring, the first going
clockwise from the term's key. -/
def Placed (c : Cluster) : Prop :=
  ∀ n ∈ c.members, ∀ e ∈ n.search.store.map.entries,
    n.ring.inRing = true ∧ Ring.FirstFrom c.ringIds (RingId.hash e.1) n.self.id

theorem InRing.id_mem {c : Cluster} {r : NodeRef} (h : c.InRing r) : r.id ∈ c.ringIds := by
  obtain ⟨n, hn, rfl, hin⟩ := h
  exact mem_ringIds (List.mem_map.2 ⟨n, Array.mem_toList_iff.2 hn, rfl⟩) hin

theorem InRing.mem_ringMembers {c : Cluster} {r : NodeRef} (h : c.InRing r) : r ∈ c.ringMembers := by
  obtain ⟨n, hn, rfl, hin⟩ := h
  exact Cluster.mem_ringMembers (List.mem_map.2 ⟨n, Array.mem_toList_iff.2 hn, rfl⟩) hin

theorem Correct.inRing_inj {c : Cluster} (h : c.Correct) {r r' : NodeRef} (hr : c.InRing r)
    (hr' : c.InRing r') (he : r.id = r'.id) : r = r' :=
  List.inj_on_of_nodup_map h.nodup hr.mem_ringMembers hr'.mem_ringMembers he

/-- The ring of a correct cluster. -/
def Correct.frame {c : Cluster} (h : c.Correct) : Frame where
  In := c.InRing
  ids := c.ringIds
  mem_ids _ hr := hr.id_mem
  id_inj _ _ := h.inRing_inj
  wired _ hr := by
    obtain ⟨n, hn, rfl, hin⟩ := hr
    exact h.wired n hn hin

/-- What every state of a run keeps while the ring of `F` holds still: the frame's members
are the ring members, each the member that datagrams to its address reach, and every member
has an address; every member is linked into the frame's ring, holds only terms it owns and
numbers its fingers below `idBits`; and every queued datagram says only what the ring
allows, with the lookup it carries awaited where it will be matched. -/
structure Still (F : Frame) (c : Cluster) : Prop where
  handler : ∀ i n, c.members[i]? = some n → n.ring.inRing = true →
    c.handlerOf n.self.addr = some i
  covers : ∀ r, F.In r → c.InRing r
  addressed : ∀ n ∈ c.members, n.self.addr.isSet = true
  linked : ∀ n ∈ c.members, F.Linked n
  placed : ∀ n ∈ c.members, F.Placed n
  fingers : ∀ n ∈ c.members, n.FingersIndexed
  sound : ∀ d ∈ c.queue.toList, ∀ m, Message.decode d.data = .ok m →
    F.Sendable d.dst m.body ∧ ∀ a key, m.body.LookupOf d.dst a key → c.Awaits a m.tx key

/-- Every member of `c'` is the member of `c` at its place, in the same place in the ring,
with every posting it stored still stored, and with no lookup started under an id it had
drawn. -/
def Unmoved (c c' : Cluster) : Prop :=
  c'.members.size = c.members.size ∧ ∀ (i : Nat) (n' : Node), c'.members[i]? = some n' →
    ∃ n : Node, c.members[i]? = some n ∧ n'.links = n.links ∧
      (∀ term doc, n.search.store.map.Holds term doc → n'.search.store.map.Holds term doc) ∧
      n.Precedes n'

namespace Unmoved

variable {c c' : Cluster}

theorem refl (c : Cluster) : c.Unmoved c :=
  ⟨rfl, fun _ n hn => ⟨n, hn, rfl, fun _ _ => id, .refl n⟩⟩

theorem trans {c c' c'' : Cluster} (h : c.Unmoved c') (h' : c'.Unmoved c'') : c.Unmoved c'' := by
  refine ⟨h'.1.trans h.1, fun i n'' hn'' => ?_⟩
  obtain ⟨n', hn', hl', hg', hp'⟩ := h'.2 i n'' hn''
  obtain ⟨n, hn, hl, hg, hp⟩ := h.2 i n' hn'
  exact ⟨n, hn, hl'.trans hl, fun t d hx => hg' t d (hg t d hx), hp.trans hp'⟩

theorem places (h : c.Unmoved c') :
    c'.members.toList.map (fun n => (n.self, n.ring.inRing)) =
      c.members.toList.map (fun n => (n.self, n.ring.inRing)) := by
  apply List.ext_getElem?
  intro i
  simp only [List.getElem?_map, Array.getElem?_toList]
  cases hn' : c'.members[i]? with
  | none =>
    have : c.members.size ≤ i := by
      have := Array.getElem?_eq_none_iff.1 hn'
      have := h.1
      omega
    simp [Array.getElem?_eq_none_iff.2 this]
  | some n' =>
    obtain ⟨n, hn, hl, -⟩ := h.2 i n' hn'
    obtain ⟨hself, hin, -⟩ := Node.links_eq.1 hl
    simp [hn, hself, hin]

theorem ringIds (h : c.Unmoved c') : c'.ringIds = c.ringIds := by
  have hr : ∀ c : Cluster, c.ringIds =
      ((c.members.toList.map (fun n => (n.self, n.ring.inRing))).filter (·.2)).map (·.1.id) := by
    intro c
    simp [Cluster.ringIds, ringMembers, peers, List.filter_map, Function.comp_def, Node.peer]
  rw [hr, hr, h.places]

end Unmoved

theorem handlerOf_of_selves {c c' : Cluster}
    (hs : c'.members.toList.map (·.self) = c.members.toList.map (·.self))
    (he : c'.endpoints = c.endpoints) : c'.handlerOf = c.handlerOf := by
  funext a
  have hlen : c'.peers.length = c.peers.length := by
    simpa [peers] using congrArg List.length hs
  have hget : ∀ i : Nat, c'.peers[i]?.map (fun p : Peer => p.self.addr) =
      c.peers[i]?.map (fun p : Peer => p.self.addr) := fun i => by
    have := congrArg (fun l : List NodeRef => l[i]?.map (fun r : NodeRef => r.addr)) hs
    simpa [getElem?_peers, Node.peer, Option.map_map, Function.comp_def] using this
  rw [handlerOf_eq_peers, handlerOf_eq_peers, hlen]
  simp only [hget, linkOpen, he]
  rfl

section Still

variable {F : Frame} {c : Cluster}

theorem Still.handler_eq (h : c.Still F) {r : NodeRef} (hr : F.In r) {j : Nat} {n : Node}
    (hj : c.handlerOf r.addr = some j) (hn : c.members[j]? = some n) :
    n.self = r ∧ n.ring.inRing = true := by
  obtain ⟨m, hm, rfl, hmin⟩ := h.covers r hr
  obtain ⟨i, hi⟩ := Array.mem_iff_getElem?.1 hm
  rw [h.handler i m hi hmin, Option.some.injEq] at hj
  subst hj
  obtain rfl : n = m := Option.some.inj (hn.symm.trans hi)
  exact ⟨rfl, hmin⟩

theorem Still.receivable (h : c.Still F) {dst : Address} {j : Nat} {n : Node}
    (hj : c.handlerOf dst = some j) (hn : c.members[j]? = some n) {b : Body}
    (hs : F.Sendable dst b) : F.Receivable n b := by
  cases b with
  | stabilizeReq s =>
    intro hin
    rcases hs with hu | ⟨hsF, r, hr, rfl, hf⟩
    · exact .inl hu
    · -- the request reaches the member `r`, whose predecessor is the one `s` is before
      obtain ⟨hself, -⟩ := h.handler_eq hr hj hn
      obtain ⟨-, -, hpred, -, hf'⟩ := h.linked n (Array.mem_of_getElem? hn) hin
      rw [hself] at hf'
      have hid := Ring.Follows.left_unique (F.mem_ids _ hsF) (F.mem_ids _ hpred) hf hf'
      exact .inr (F.id_inj _ _ hsF hpred hid)
  | stabilizeRsp p =>
    intro _
    rcases hs with hu | ⟨hp, rfl⟩
    · exact .inl hu
    · exact .inr (h.handler_eq hp hj hn).1.symm
  | findSuccessorRsp _ _ _ => exact hs
  | storeReq t _ =>
    rcases hs with rfl | ⟨r, hr, rfl, hf⟩
    · -- no member is at the unset address
      obtain ⟨m, hm, ha⟩ := handlerOf_member hj
      have := h.addressed m (Array.mem_of_getElem? hm)
      simp [ha, Address.isSet] at this
    · obtain ⟨hself, hin⟩ := h.handler_eq hr hj hn
      exact ⟨hin, hself ▸ hf⟩
  | joinReq _ _ => exact hs.elim
  | joinRsp _ _ _ => exact hs.elim
  | departureReq _ _ => exact hs.elim
  | _ => trivial

theorem Still.receives (h : c.Still F) {d : Datagram} (hd : d ∈ c.queue.toList) {j : Nat}
    {n : Node} (hj : c.handlerOf d.dst = some j) (hn : c.members[j]? = some n) (m : Message)
    (hdec : Message.decode d.data = .ok m) : F.Receives c.Awaits n m := by
  obtain ⟨hs, hl⟩ := h.sound d hd m hdec
  obtain ⟨n', hn', hdst⟩ := handlerOf_member hj
  obtain rfl : n' = n := Option.some.inj (hn'.symm.trans hn)
  refine ⟨h.receivable hj hn hs, Message.decode_refsExact hdec, fun a key hk => ?_⟩
  rw [hdst] at hk
  refine ⟨fun ha => ?_, fun _ => hl a key hk⟩
  exact (hl a key hk j n' (by rw [ha, hdst]; exact hj) hn).2

theorem Still.startTurn (h : c.Still F) {n : Node} (hn : n ∈ c.members) {R : Nat}
    (hroom : n.lastTx.toNat + R < 2 ^ 32) (c' : Cluster) (E : Address → UInt32 → RingId → Prop) :
    (c'.startTurn n).Steady F E n R where
  links := rfl
  linked := h.linked n hn
  grows _ _ := id
  placed := h.placed n hn
  fingers := h.fingers n hn
  precedes := .refl n
  room := hroom
  sent x hx := by simp [Cluster.startTurn] at hx

theorem Still.afterTurn (h : c.Still F) {i : Nat} {n : Node} (hi : c.members[i]? = some n)
    {R : Nat} {t : Turn} (ht : t.Steady F c.Awaits n R) :
    (c.afterTurn i n t).Still F ∧ c.Unmoved (c.afterTurn i n t) := by
  obtain ⟨hself, hin, -, -⟩ := Node.links_eq.1 ht.links
  have hhandler : (c.afterTurn i n t).handlerOf = c.handlerOf :=
    handlerOf_of_selves (selves_afterTurn hi hself) rfl
  have hget := getElem?_afterTurn hi t
  have hown : t.node.ring.inRing = true → (c.afterTurn i n t).handlerOf t.node.self.addr = some i :=
    fun hin' => by rw [hhandler, hself]; exact h.handler i n hi (hin ▸ hin')
  have hawait : ∀ a tx key, c.Awaits a tx key → (c.afterTurn i n t).Awaits a tx key := by
    intro a tx key hw j m hj hm
    rw [hhandler] at hj
    rw [hget] at hm
    split at hm
    · next hji =>
      subst hji
      cases hm
      obtain ⟨hin', hco⟩ := hw j n hj hi
      exact ⟨hin ▸ hin', hco.precedes ht.precedes⟩
    · exact hw j m hj hm
  have hmem : ∀ m ∈ (c.afterTurn i n t).members, m = t.node ∨ m ∈ c.members :=
    fun m hm => mem_afterTurn hi hm
  refine ⟨⟨fun j m hm hmin => ?_, fun r hr => ?_, fun m hm => ?_, fun m hm => ?_, fun m hm => ?_,
    fun m hm => ?_, fun d hd msg hdec => ?_⟩, ⟨Array.size_modify .., fun j m hm => ?_⟩⟩
  · rw [hget] at hm
    split at hm
    · next hji =>
      subst hji
      cases hm
      exact hown hmin
    · rw [hhandler]
      exact h.handler j m hm hmin
  · obtain ⟨m, hm, rfl, hmin⟩ := h.covers r hr
    obtain ⟨m', hm', he, hin'⟩ := inRing_afterTurn hi hself (fun h' => hin ▸ h') hm hmin
    exact ⟨m', hm', he, hin'⟩
  · rcases hmem m hm with rfl | hm
    · rw [hself]
      exact h.addressed n (Array.mem_of_getElem? hi)
    · exact h.addressed m hm
  · rcases hmem m hm with rfl | hm
    · exact ht.linked
    · exact h.linked m hm
  · rcases hmem m hm with rfl | hm
    · exact ht.placed
    · exact h.placed m hm
  · rcases hmem m hm with rfl | hm
    · exact ht.fingers
    · exact h.fingers m hm
  · rw [afterTurn_queue, List.mem_append] at hd
    rcases hd with hd | hd
    · obtain ⟨hs, hl⟩ := h.sound d hd msg hdec
      exact ⟨hs, fun a key hk => hawait a _ key (hl a key hk)⟩
    · -- sent in the turn: sound when sent, with the node's own lookups awaited at its address
      obtain ⟨x, hx, rfl⟩ := List.mem_map.1 hd
      obtain ⟨hs, hl⟩ := ht.sent x (Array.mem_toList_iff.1 hx) msg hdec
      refine ⟨hs, fun a key hk => ?_⟩
      by_cases ha : a = t.node.self.addr
      · obtain ⟨hin', hco⟩ := (hl a key hk).1 ha
        subst ha
        intro j m hj hm
        rw [hown hin', Option.some.injEq] at hj
        subst hj
        rw [hget, if_pos rfl, Option.some.injEq] at hm
        subst hm
        exact ⟨hin', hco⟩
      · exact hawait a _ key ((hl a key hk).2 ha)
  · rw [hget] at hm
    split at hm
    · next hji =>
      subst hji
      cases hm
      exact ⟨n, hi, ht.links, ht.grows, ht.precedes⟩
    · exact ⟨m, hm, rfl, fun _ _ => id, .refl m⟩

theorem Still.taken (h : c.Still F) (k : Nat) (d : Datagram) : (c.taken k d).Still F :=
  { h with
    sound := fun d' hd' => by
      rw [taken_queue] at hd'
      exact h.sound d' (List.mem_of_mem_eraseIdx hd') }

end Still

/-! ### Runs -/

/-- Every member's counter has room for one more id. -/
def Roomy (c : Cluster) : Prop := ∀ n ∈ c.members, n.lastTx.toNat + 1 < 2 ^ 32

/-- The requests of runs that hold a ring still: the request leaves the ring as it is, and
the member's counter has room for the ids it draws. -/
def Steadies (c : Cluster) (i : Nat) (op : Op) : Prop :=
  ∀ n, c.members[i]? = some n → op.Still n ∧ n.lastTx.toNat + op.draws n < 2 ^ 32

/-- The runs that hold a ring still: requests that `Steadies` allows and deliveries in any
order, each step taken while every member's counter has room for one more id. -/
def StillRun : Cluster → Cluster → Prop :=
  Relation.ReflTransGen fun c c' => c.Roomy ∧ Step Steadies c c'

section Runs

variable {F : Frame} {c c' : Cluster}

theorem Step.still (hs : Step Steadies c c') (hroom : c.Roomy) (h : c.Still F) :
    c'.Still F ∧ c.Unmoved c' := by
  rcases hs.cases with rfl | ⟨i, n, op, ha, hi, rfl⟩ | ⟨k, d, hd, ⟨rfl, -⟩ | ⟨j, n, hj, hn, rfl⟩⟩
  · exact ⟨h, .refl _⟩
  · -- a request the member may make, with room for the ids it draws
    obtain ⟨hop, hdraw⟩ := ha n hi
    have hstart : (c.startTurn n).Steady F c.Awaits n (0 + op.draws n) :=
      h.startTurn (Array.mem_of_getElem? hi) (by simpa using hdraw) c c.Awaits
    exact h.afterTurn hi
      (NodeM.run_of_triple (t := c.startTurn n) (@act_steady F c.Awaits n 0 op) ⟨hstart, hop⟩)
  · exact ⟨h.taken k d, .refl c⟩
  · -- a delivery: the datagram was queued, so the member it reaches may handle it
    have hn' := Array.mem_of_getElem? hn
    have ht := NodeM.run_of_triple
      (@receive_steady F c.Awaits n 0 d.src d.data (h.receives (List.mem_of_getElem? hd) hj hn))
      ((h.taken k d).startTurn hn' (hroom n hn') (c.taken k d) c.Awaits)
    exact (h.taken k d).afterTurn hn ht

theorem StillRun.still (hrun : StillRun c c') (h : c.Still F) : c'.Still F ∧ c.Unmoved c' := by
  induction hrun with
  | refl => exact ⟨h, .refl c⟩
  | tail _ hs ih =>
    obtain ⟨hroom, hs⟩ := hs
    obtain ⟨h', hu⟩ := hs.still hroom ih.1
    exact ⟨h', ih.2.trans hu⟩

theorem Correct.still (hc : c.Correct) (hp : c.Placed) (hq : c.queue.toList = [])
    (hf : ∀ n ∈ c.members, n.FingersIndexed) : c.Still hc.frame where
  handler := hc.handler
  covers _ := id
  addressed := hc.addressed
  linked n hn hin := ⟨⟨n, hn, rfl, hin⟩, (hc.successor n hn hin).1, (hc.predecessor n hn hin).1,
    (hc.successor n hn hin).2, (hc.predecessor n hn hin).2⟩
  placed := hp
  fingers := hf
  sound d hd := by simp [hq] at hd

theorem StillRun.placed (hc : c.Correct) (hp : c.Placed) (hq : c.queue.toList = [])
    (hf : ∀ n ∈ c.members, n.FingersIndexed) (hrun : StillRun c c') : c'.Placed := by
  obtain ⟨h, hu⟩ := hrun.still (hc.still hp hq hf)
  intro n hn e he
  rw [hu.ringIds]
  exact h.placed n hn e he

end Runs

/-- A correct ring holds still. From a quiescent cluster whose ring members form a correct
ring with every stored term at its owner, through any run of stabilize ticks, ping audits,
pings, ring-state walks, resolves, lookups, publishes and searches, with datagrams
delivered in any order, no member's ring flag, successor or predecessor changes, no member
gives up a posting it stored, and every stored term is held by its owner only. A resolve
runs under an id the member has drawn and no lookup of another key waits under, and no
member's counter wraps round. -/
theorem ring_holds_still {c₀ c : Cluster} (hc : c₀.Correct) (hp : c₀.Placed)
    (hq : c₀.queue.toList = []) (hf : ∀ n ∈ c₀.members, n.FingersIndexed) (hrun : StillRun c₀ c) :
    (∀ (i : Nat) (n : Node), c.members[i]? = some n → ∃ n₀ : Node, c₀.members[i]? = some n₀ ∧
      n.ring.inRing = n₀.ring.inRing ∧ n.ring.successor = n₀.ring.successor ∧
      n.ring.predecessor = n₀.ring.predecessor ∧
      ∀ term doc, n₀.search.store.map.Holds term doc → n.search.store.map.Holds term doc) ∧
    c.Placed := by
  obtain ⟨-, hu⟩ := hrun.still (hc.still hp hq hf)
  refine ⟨fun i n hn => ?_, hrun.placed hc hp hq hf⟩
  obtain ⟨n₀, hn₀, hl, hg, -⟩ := hu.2 i n hn
  obtain ⟨-, hin, hsucc, hpred⟩ := Node.links_eq.1 hl
  exact ⟨n₀, hn₀, hin, hsucc, hpred, hg⟩

/-! ### Two members -/

theorem stillPair_correct : stillPair.Correct where
  nodup := by decide +kernel
  addressed n hn := by rcases mem_stillPair hn with rfl | rfl <;> rfl
  wired n hn _ := by
    rcases mem_stillPair hn with rfl | rfl
    · exact ⟨[10, 0, 0, 1], rfl, rfl⟩
    · exact ⟨[10, 0, 0, 2], rfl, rfl⟩
  handler i n hi _ := by
    match i, hi with
    | 0, hi =>
      cases hi
      decide
    | 1, hi =>
      cases hi
      decide
  successor n hn _ := by
    unfold Ring.Follows
    rcases mem_stillPair hn with rfl | rfl
    · exact ⟨⟨pairedWith refTwo refOne, by simp [stillPair], rfl, rfl⟩, by decide +kernel⟩
    · exact ⟨⟨pairedWith refOne refTwo, by simp [stillPair], rfl, rfl⟩, by decide +kernel⟩
  predecessor n hn _ := by
    unfold Ring.Follows
    rcases mem_stillPair hn with rfl | rfl
    · exact ⟨⟨pairedWith refTwo refOne, by simp [stillPair], rfl, rfl⟩, by decide +kernel⟩
    · exact ⟨⟨pairedWith refOne refTwo, by simp [stillPair], rfl, rfl⟩, by decide +kernel⟩

theorem stillPair_placed : stillPair.Placed := by
  intro n hn e he
  rcases mem_stillPair hn with rfl | rfl <;> simp [pairedWith, Store.empty, TermMap.empty] at he

theorem stillPair_fingers : ∀ n ∈ stillPair.members, n.FingersIndexed := by
  intro n hn f hf
  rcases mem_stillPair hn with rfl | rfl <;> simp [pairedWith] at hf

/-- Node 1 publishes `apple`, which it owns; the lookup's request to node 2 is in flight. -/
def publishedStill : Cluster := (stillPair.turn 0 (Op.publish appleIndex).act).2

/-- `publishedStill` once node 2 has answered the lookup and node 1 has taken the store request
it then sends itself. -/
def storedStill : Cluster := publishedStill.deliverHeads 3

theorem stillPair_run : StillRun stillPair storedStill := by
  have hroom : stillPair.Roomy := by
    intro n hn
    rcases mem_stillPair hn with rfl | rfl <;> decide
  have hsteady : Steadies stillPair 0 (.publish appleIndex) := by
    intro n hn
    cases hn
    exact ⟨trivial, by decide⟩
  -- every member has drawn one id at most, so each delivery has room
  have h₀ : publishedStill.Roomy := by
    unfold Roomy
    decide +kernel
  have h₁ : (publishedStill.deliverAt 0).Roomy := by
    unfold Roomy
    decide +kernel
  have h₂ : ((publishedStill.deliverAt 0).deliverAt 0).Roomy := by
    unfold Roomy
    decide +kernel
  exact .tail (.tail (.tail (.single ⟨hroom, .act hsteady⟩) ⟨h₀, .deliver 0⟩) ⟨h₁, .deliver 0⟩)
    ⟨h₂, .deliver 0⟩

/-- Node 1 publishes `apple`, which it owns: the lookup goes to node 2 and back, and node 1
stores `apple` itself. -/
theorem storedStill_holds_still :
    stillPair.Correct ∧ stillPair.Placed ∧ stillPair.queue.toList = [] ∧
    (∀ n ∈ stillPair.members, n.FingersIndexed) ∧ StillRun stillPair storedStill ∧
    (storedStill.members[0]?.map fun n => (n.search.store.postings apple).toList) = some [doc1] ∧
    (∀ (i : Nat) (n : Node), storedStill.members[i]? = some n → ∃ n₀ : Node,
      stillPair.members[i]? = some n₀ ∧ n.ring.inRing = n₀.ring.inRing ∧
      n.ring.successor = n₀.ring.successor ∧ n.ring.predecessor = n₀.ring.predecessor ∧
      ∀ term doc, n₀.search.store.map.Holds term doc → n.search.store.map.Holds term doc) ∧
    storedStill.Placed := by
  have hstored : (storedStill.members[0]?.map fun n => (n.search.store.postings apple).toList) =
      some [doc1] := by
    decide +kernel
  exact ⟨stillPair_correct, stillPair_placed, rfl, stillPair_fingers, stillPair_run, hstored,
    ring_holds_still stillPair_correct stillPair_placed rfl stillPair_fingers stillPair_run⟩

/-! ### A resolve under a waiting lookup's id -/

/-- Node 1 publishes `apple`, which it owns, then resolves position zero, which node 2 owns,
under the id its lookup for `apple` waits under. The answer to the resolve is delivered
first, and then the store request it sets off. -/
def misplacedPair : Cluster :=
  let c := (publishedStill.turn 0 (Op.resolve RingId.zero 1).act).2
  (c.deliverAt 1).deliverAt 1

theorem resolve_reused_id_misplaces :
    stillPair.Correct ∧ stillPair.Placed ∧ stillPair.queue.toList = [] ∧
    Run (fun _ _ op => op ≠ .leave ∧ ∀ l, op ≠ .join l) stillPair misplacedPair ∧
    ¬ misplacedPair.Placed := by
  have hrun : Run (fun _ _ op => op ≠ .leave ∧ ∀ l, op ≠ .join l) stillPair misplacedPair :=
    .tail (.tail (.tail (.single (@Step.act _ _ 0 (.publish appleIndex) ⟨nofun, fun _ => nofun⟩))
      (@Step.act _ _ 0 (.resolve RingId.zero 1) ⟨nofun, fun _ => nofun⟩)) (.deliver 1)) (.deliver 1)
  refine ⟨stillPair_correct, stillPair_placed, rfl, hrun, fun hp => ?_⟩
  -- node 2 stores `apple`, which node 1 owns
  have hstored : (misplacedPair.members[1]?.map fun n =>
      (n.self, n.search.store.map.entries.map (·.1))) = some (refTwo, [apple]) ∧
      ¬ Ring.FirstFrom misplacedPair.ringIds (RingId.hash apple) refTwo.id := by
    unfold Ring.FirstFrom
    decide +kernel
  obtain ⟨n, hn, he⟩ := Option.map_eq_some_iff.1 hstored.1
  obtain ⟨hself, hterms⟩ := Prod.mk.inj he
  obtain ⟨e, he, happle⟩ := List.mem_map.1 (hterms ▸ List.mem_singleton_self apple)
  have := (hp n (Array.mem_of_getElem? hn) e he).2
  rw [happle, hself] at this
  exact hstored.2 this

end Cluster

end ChordSearch
