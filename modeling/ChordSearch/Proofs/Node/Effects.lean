import Mathlib
import ChordSearch.Node.Dispatch
import ChordSearch.Proofs.Wire.Decoded

/-! # What the primitives of a turn do

A turn is changed only by a few primitives: changing the ring state, the search state or the
counters, drawing a transaction id, reporting an event and sending a message. Each is given
here as a function on turns (`Turn.mapRing`, `Turn.drawTx`, `Turn.transmitted`, …), with the
equation that running the primitive is that function (`transmit_run`, …) and the Hoare triple
`mvcgen` uses in its place (`transmit_spec`, …). Loops that only send are described the same
way: handing a map of postings to a node is `Turn.storesSent` (`sendAll_run`), failing a list
of pings is `Turn.pingsFailed`.

Proofs about whole handlers then run `mvcgen` over the handler's text with these triples, and
what is left are facts about compositions of these functions, which their field lemmas
(`mapRing_node`, `transmitted_outgoing`, …) take apart.
-/

namespace ChordSearch

open NodeM Std.Do

namespace Turn

/-- The turn with the ring state changed by `f`. -/
def mapRing (f : Membership → Membership) (t : Turn) : Turn :=
  { t with node := { t.node with ring := f t.node.ring } }

/-- The turn with the search state changed by `f`. -/
def mapSearch (f : SearchState → SearchState) (t : Turn) : Turn :=
  { t with node := { t.node with search := f t.node.search } }

/-- The turn with the counters changed by `f`. -/
def mapMetrics (f : Metrics → Metrics) (t : Turn) : Turn :=
  { t with node := { t.node with metrics := f t.node.metrics } }

/-- The turn after drawing the next transaction id. -/
def drawTx (t : Turn) : Turn := { t with node := { t.node with lastTx := t.node.lastTx + 1 } }

/-- The turn after reporting an event, when the node reports events. -/
def noted (kind : EventKind) (peer : String) (message : Bytes) (t : Turn) : Turn :=
  if t.node.reportsEvents then
    { t with
      events := t.events.push (Event.mk t.node.self.num t.node.self.id kind peer message (t.now / 1000000)) }
  else t

/-- The turn after sending `m` to `dest` through the metered endpoint. -/
def transmitted (dest : Address) (m : Message) (t : Turn) : Turn :=
  match m.encode with
  | .error _ => t
  | .ok data =>
    if t.linkOpen then
      ({ t with outgoing := t.outgoing.push (dest, data) }).mapMetrics
        fun ms => { ms with sent := ms.sent.bump m.body.kind.name }
    else t.mapMetrics fun ms => { ms with sendErrors := ms.sendErrors + 1 }

/-- The turn after sending a ring message, dropped when `dest` is no address. -/
def sent (dest : Address) (tx : UInt32) (b : Body) (t : Turn) : Turn :=
  if dest.isSet then t.transmitted dest ⟨tx, b⟩ else t

/-- The turn after handing one term's postings to `dest` under a fresh transaction id. -/
def storeSent (dest : Address) (t : Turn) (p : Bytes × DocSet) : Turn :=
  t.drawTx.transmitted dest ⟨t.node.lastTx + 1, .storeReq p.1 p.2.toList⟩

/-- The turn after handing every term of a list of postings to `dest`, in order. -/
def storesSent (dest : Address) (ps : List (Bytes × DocSet)) (t : Turn) : Turn :=
  ps.foldl (storeSent dest) t

/-- The turn after making `n` the successor. -/
def successorSet (n : NodeRef) (t : Turn) : Turn :=
  if t.node.ring.successor.same n then t
  else (t.mapRing fun r => { r with successor := n }).noted .successorChange n.toText
    (Bytes.ofString ("successor " ++ t.node.ring.successor.toText ++ " -> " ++ n.toText))

/-- The turn after handing a new predecessor `n` the stored terms it owns. -/
def handedOver (n : NodeRef) (t : Turn) : Turn :=
  if n.isUnset then t
  else
    let split := t.node.search.store.extractNotOwned n.id t.node.self.id
    let t' := t.mapSearch fun s => { s with store := split.1 }
    if split.2.isEmpty then t' else t'.storesSent n.addr split.2.entries

/-- The turn after a leaving node handed everything it stored to its successor `n`, unless
`n` is unset or the node itself. -/
def handedAll (n : NodeRef) (t : Turn) : Turn :=
  if n.isUnset || n.same t.node.self then t
  else (t.mapSearch fun s => { s with store := s.store.takeAll.1 }).storesSent n.addr
    t.node.search.store.takeAll.2.entries

/-- The turn after making `n` the predecessor and handing it the stored terms it owns. -/
def predecessorSet (n : NodeRef) (t : Turn) : Turn :=
  if t.node.ring.predecessor.same n then t
  else ((t.mapRing fun r => { r with predecessor := n }).noted .predecessorChange n.toText
    (Bytes.ofString ("predecessor " ++ t.node.ring.predecessor.toText ++ " -> " ++
      n.toText))).handedOver n

/-- The turn after counting and reporting a failed ping. -/
def pingFailed (p : PingRequest) (t : Turn) : Turn :=
  (t.mapMetrics fun m => { m with pings := m.pings.bump "failure" }).noted .pingFailure
    p.dest.toText (Bytes.ofString ("ping " ++ toString p.tx.toNat ++ " to " ++ p.dest.toText ++
      " failed"))

/-- The turn after failing each ping of a list, in order. -/
def pingsFailed (ps : List (Pending PingRequest)) (t : Turn) : Turn :=
  ps.foldl (fun t e => pingFailed e.value t) t

/-! ### Field lemmas -/

section Fields

variable (t : Turn)

@[simp] theorem mapRing_node (f : Membership → Membership) :
    (t.mapRing f).node = { t.node with ring := f t.node.ring } := rfl
@[simp] theorem mapRing_outgoing (f : Membership → Membership) :
    (t.mapRing f).outgoing = t.outgoing := rfl
@[simp] theorem mapRing_linkOpen (f : Membership → Membership) :
    (t.mapRing f).linkOpen = t.linkOpen := rfl
@[simp] theorem mapRing_now (f : Membership → Membership) : (t.mapRing f).now = t.now := rfl

@[simp] theorem mapSearch_node (f : SearchState → SearchState) :
    (t.mapSearch f).node = { t.node with search := f t.node.search } := rfl
@[simp] theorem mapSearch_outgoing (f : SearchState → SearchState) :
    (t.mapSearch f).outgoing = t.outgoing := rfl
@[simp] theorem mapSearch_linkOpen (f : SearchState → SearchState) :
    (t.mapSearch f).linkOpen = t.linkOpen := rfl
@[simp] theorem mapSearch_now (f : SearchState → SearchState) : (t.mapSearch f).now = t.now := rfl

@[simp] theorem mapMetrics_node (f : Metrics → Metrics) :
    (t.mapMetrics f).node = { t.node with metrics := f t.node.metrics } := rfl
@[simp] theorem mapMetrics_outgoing (f : Metrics → Metrics) :
    (t.mapMetrics f).outgoing = t.outgoing := rfl
@[simp] theorem mapMetrics_linkOpen (f : Metrics → Metrics) :
    (t.mapMetrics f).linkOpen = t.linkOpen := rfl
@[simp] theorem mapMetrics_now (f : Metrics → Metrics) : (t.mapMetrics f).now = t.now := rfl

@[simp] theorem drawTx_node : t.drawTx.node = { t.node with lastTx := t.node.lastTx + 1 } := rfl
@[simp] theorem drawTx_outgoing : t.drawTx.outgoing = t.outgoing := rfl
@[simp] theorem drawTx_linkOpen : t.drawTx.linkOpen = t.linkOpen := rfl
@[simp] theorem drawTx_now : t.drawTx.now = t.now := rfl

variable (k : EventKind) (p : String) (b : Bytes)

@[simp] theorem noted_node : (t.noted k p b).node = t.node := by unfold noted; split <;> rfl
@[simp] theorem noted_outgoing : (t.noted k p b).outgoing = t.outgoing := by
  unfold noted; split <;> rfl
@[simp] theorem noted_linkOpen : (t.noted k p b).linkOpen = t.linkOpen := by
  unfold noted; split <;> rfl
@[simp] theorem noted_now : (t.noted k p b).now = t.now := by unfold noted; split <;> rfl

end Fields

section Transmitted

variable (t : Turn) (dest : Address) (m : Message)

theorem transmitted_node :
    ∃ ms, (t.transmitted dest m).node = { t.node with metrics := ms } := by
  unfold transmitted
  split
  · exact ⟨t.node.metrics, rfl⟩
  · split
    · exact ⟨_, rfl⟩
    · exact ⟨_, rfl⟩

@[simp] theorem transmitted_self : (t.transmitted dest m).node.self = t.node.self := by
  obtain ⟨ms, h⟩ := transmitted_node t dest m
  rw [h]
@[simp] theorem transmitted_ring : (t.transmitted dest m).node.ring = t.node.ring := by
  obtain ⟨ms, h⟩ := transmitted_node t dest m
  rw [h]
@[simp] theorem transmitted_search : (t.transmitted dest m).node.search = t.node.search := by
  obtain ⟨ms, h⟩ := transmitted_node t dest m
  rw [h]
@[simp] theorem transmitted_lastTx : (t.transmitted dest m).node.lastTx = t.node.lastTx := by
  obtain ⟨ms, h⟩ := transmitted_node t dest m
  rw [h]
@[simp] theorem transmitted_directory :
    (t.transmitted dest m).node.directory = t.node.directory := by
  obtain ⟨ms, h⟩ := transmitted_node t dest m
  rw [h]
@[simp] theorem transmitted_reportsEvents :
    (t.transmitted dest m).node.reportsEvents = t.node.reportsEvents := by
  obtain ⟨ms, h⟩ := transmitted_node t dest m
  rw [h]
@[simp] theorem transmitted_config : (t.transmitted dest m).node.config = t.node.config := by
  obtain ⟨ms, h⟩ := transmitted_node t dest m
  rw [h]
@[simp] theorem transmitted_linkOpen : (t.transmitted dest m).linkOpen = t.linkOpen := by
  unfold transmitted; split
  · rfl
  · split <;> rfl
@[simp] theorem transmitted_now : (t.transmitted dest m).now = t.now := by
  unfold transmitted; split
  · rfl
  · split <;> rfl

theorem transmitted_outgoing : (t.transmitted dest m).outgoing =
    match m.encode with
    | .ok data => if t.linkOpen then t.outgoing.push (dest, data) else t.outgoing
    | .error _ => t.outgoing := by
  unfold transmitted
  cases m.encode with
  | error _ => rfl
  | ok data => dsimp only; split <;> rfl

variable (tx : UInt32) (b : Body)

@[simp] theorem sent_self : (t.sent dest tx b).node.self = t.node.self := by
  unfold sent; split <;> simp
@[simp] theorem sent_ring : (t.sent dest tx b).node.ring = t.node.ring := by
  unfold sent; split <;> simp
@[simp] theorem sent_search : (t.sent dest tx b).node.search = t.node.search := by
  unfold sent; split <;> simp
@[simp] theorem sent_lastTx : (t.sent dest tx b).node.lastTx = t.node.lastTx := by
  unfold sent; split <;> simp
@[simp] theorem sent_directory : (t.sent dest tx b).node.directory = t.node.directory := by
  unfold sent; split <;> simp
@[simp] theorem sent_linkOpen : (t.sent dest tx b).linkOpen = t.linkOpen := by
  unfold sent; split <;> simp
@[simp] theorem sent_now : (t.sent dest tx b).now = t.now := by
  unfold sent; split <;> simp

variable (p : Bytes × DocSet)

@[simp] theorem storeSent_self : (t.storeSent dest p).node.self = t.node.self := by
  simp [storeSent]
@[simp] theorem storeSent_ring : (t.storeSent dest p).node.ring = t.node.ring := by
  simp [storeSent]
@[simp] theorem storeSent_search : (t.storeSent dest p).node.search = t.node.search := by
  simp [storeSent]
@[simp] theorem storeSent_lastTx : (t.storeSent dest p).node.lastTx = t.node.lastTx + 1 := by
  simp [storeSent]
@[simp] theorem storeSent_linkOpen : (t.storeSent dest p).linkOpen = t.linkOpen := by
  simp [storeSent]
@[simp] theorem storeSent_now : (t.storeSent dest p).now = t.now := by
  simp [storeSent]

end Transmitted

section Handing

variable (dest : Address)

theorem storesSent_node (ps : List (Bytes × DocSet)) (t : Turn) :
    ∃ tx ms, (t.storesSent dest ps).node = { t.node with lastTx := tx, metrics := ms } := by
  induction ps generalizing t with
  | nil => exact ⟨t.node.lastTx, t.node.metrics, rfl⟩
  | cons p ps ih =>
    obtain ⟨tx, ms, h⟩ := ih (t.storeSent dest p)
    obtain ⟨ms', h'⟩ := transmitted_node t.drawTx dest ⟨t.node.lastTx + 1, .storeReq p.1 p.2.toList⟩
    refine ⟨tx, ms, ?_⟩
    rw [storesSent, List.foldl_cons, ← storesSent, h, storeSent, h']
    rfl

variable (ps : List (Bytes × DocSet)) (t : Turn)

@[simp] theorem storesSent_self : (t.storesSent dest ps).node.self = t.node.self := by
  obtain ⟨tx, ms, h⟩ := storesSent_node dest ps t
  rw [h]
@[simp] theorem storesSent_ring : (t.storesSent dest ps).node.ring = t.node.ring := by
  obtain ⟨tx, ms, h⟩ := storesSent_node dest ps t
  rw [h]
@[simp] theorem storesSent_search : (t.storesSent dest ps).node.search = t.node.search := by
  obtain ⟨tx, ms, h⟩ := storesSent_node dest ps t
  rw [h]
@[simp] theorem storesSent_linkOpen : (t.storesSent dest ps).linkOpen = t.linkOpen := by
  induction ps generalizing t with
  | nil => rfl
  | cons p ps ih => exact (ih _).trans (transmitted_linkOpen _ _ _)
@[simp] theorem storesSent_now : (t.storesSent dest ps).now = t.now := by
  induction ps generalizing t with
  | nil => rfl
  | cons p ps ih => exact (ih _).trans (transmitted_now _ _ _)

end Handing

section Pings

theorem pingsFailed_node (ps : List (Pending PingRequest)) (t : Turn) :
    ∃ ms, (t.pingsFailed ps).node = { t.node with metrics := ms } := by
  induction ps generalizing t with
  | nil => exact ⟨t.node.metrics, rfl⟩
  | cons p ps ih =>
    obtain ⟨ms, h⟩ := ih (t.pingFailed p.value)
    refine ⟨ms, ?_⟩
    rw [pingsFailed, List.foldl_cons, ← pingsFailed, h]
    simp [pingFailed]

variable (ps : List (Pending PingRequest)) (t : Turn)

@[simp] theorem pingsFailed_self : (t.pingsFailed ps).node.self = t.node.self := by
  obtain ⟨ms, h⟩ := pingsFailed_node ps t
  rw [h]
@[simp] theorem pingsFailed_ring : (t.pingsFailed ps).node.ring = t.node.ring := by
  obtain ⟨ms, h⟩ := pingsFailed_node ps t
  rw [h]
@[simp] theorem pingsFailed_search : (t.pingsFailed ps).node.search = t.node.search := by
  obtain ⟨ms, h⟩ := pingsFailed_node ps t
  rw [h]
@[simp] theorem pingsFailed_outgoing : (t.pingsFailed ps).outgoing = t.outgoing := by
  induction ps generalizing t with
  | nil => rfl
  | cons p ps ih => exact (ih _).trans (by simp [pingFailed])

variable (p : PingRequest)

@[simp] theorem pingFailed_self : (t.pingFailed p).node.self = t.node.self := by
  simp [pingFailed]
@[simp] theorem pingFailed_ring : (t.pingFailed p).node.ring = t.node.ring := by
  simp [pingFailed]
@[simp] theorem pingFailed_search : (t.pingFailed p).node.search = t.node.search := by
  simp [pingFailed]
@[simp] theorem pingFailed_outgoing : (t.pingFailed p).outgoing = t.outgoing := by
  simp [pingFailed]

end Pings

section Neighbours

variable (n : NodeRef) (t : Turn)

theorem successorSet_node :
    (t.successorSet n).node = { t.node with ring := { t.node.ring with successor := n } } := by
  unfold successorSet
  split
  · next h =>
    obtain rfl := (NodeRef.same_iff _ _).1 h
    rfl
  · simp

@[simp] theorem successorSet_self : (t.successorSet n).node.self = t.node.self := by
  simp [successorSet_node]
@[simp] theorem successorSet_ring :
    (t.successorSet n).node.ring = { t.node.ring with successor := n } := by
  simp [successorSet_node]
@[simp] theorem successorSet_search : (t.successorSet n).node.search = t.node.search := by
  simp [successorSet_node]
@[simp] theorem successorSet_outgoing : (t.successorSet n).outgoing = t.outgoing := by
  unfold successorSet; split <;> simp
@[simp] theorem successorSet_linkOpen : (t.successorSet n).linkOpen = t.linkOpen := by
  unfold successorSet; split <;> simp
@[simp] theorem successorSet_now : (t.successorSet n).now = t.now := by
  unfold successorSet; split <;> simp

@[simp] theorem handedOver_self : (t.handedOver n).node.self = t.node.self := by
  unfold handedOver; split
  · rfl
  · dsimp only; split <;> simp
@[simp] theorem handedOver_ring : (t.handedOver n).node.ring = t.node.ring := by
  unfold handedOver; split
  · rfl
  · dsimp only; split <;> simp
@[simp] theorem handedOver_linkOpen : (t.handedOver n).linkOpen = t.linkOpen := by
  unfold handedOver; split
  · rfl
  · dsimp only; split <;> simp
@[simp] theorem handedOver_now : (t.handedOver n).now = t.now := by
  unfold handedOver; split
  · rfl
  · dsimp only; split <;> simp

@[simp] theorem handedAll_self : (t.handedAll n).node.self = t.node.self := by
  unfold handedAll; split <;> simp
@[simp] theorem handedAll_ring : (t.handedAll n).node.ring = t.node.ring := by
  unfold handedAll; split <;> simp
@[simp] theorem handedAll_linkOpen : (t.handedAll n).linkOpen = t.linkOpen := by
  unfold handedAll; split <;> simp
@[simp] theorem handedAll_now : (t.handedAll n).now = t.now := by
  unfold handedAll; split <;> simp

@[simp] theorem predecessorSet_self : (t.predecessorSet n).node.self = t.node.self := by
  unfold predecessorSet; split <;> simp
@[simp] theorem predecessorSet_ring :
    (t.predecessorSet n).node.ring = { t.node.ring with predecessor := n } := by
  unfold predecessorSet
  split
  · next h =>
    obtain rfl := (NodeRef.same_iff _ _).1 h
    rfl
  · simp
@[simp] theorem predecessorSet_linkOpen : (t.predecessorSet n).linkOpen = t.linkOpen := by
  unfold predecessorSet; split <;> simp
@[simp] theorem predecessorSet_now : (t.predecessorSet n).now = t.now := by
  unfold predecessorSet; split <;> simp

end Neighbours

end Turn

/-! ### Running the primitives -/

theorem NodeM.triple_run {α : Type} (x : NodeM α) (Q : PostCond α (.arg Turn .pure)) :
    ⦃fun t => Q.1 (x.run t).1 (x.run t).2⦄ x ⦃Q⦄ := by
  intro t h
  exact h

theorem NodeM.run_of_triple {α : Type} {act : NodeM α} {P : Turn → Prop} {Q : α → Turn → Prop}
    (h : ⦃fun t => ⌜P t⌝⦄ act ⦃⇓ a t => ⌜Q a t⌝⦄) {t : Turn} (hp : P t) :
    Q (act.run t).1 (act.run t).2 :=
  h t hp

theorem NodeM.triple_of_run {α : Type} {x : NodeM α} {a : Turn → α} {F : Turn → Turn}
    (h : ∀ t, x.run t = (a t, F t)) {Q : PostCond α (.arg Turn .pure)} :
    ⦃fun t => Q.1 (a t) (F t)⦄ x ⦃Q⦄ := by
  intro t hq
  apply NodeM.triple_run x Q t
  simpa only [h t] using hq

theorem NodeM.forM_run {β : Type} (l : List β) (f : β → NodeM Unit) (t : Turn) :
    (l.forM f).run t = ((), l.foldl (fun t b => ((f b).run t).2) t) := by
  induction l generalizing t with
  | nil => rfl
  | cons b l ih =>
    rw [List.foldl_cons, ← ih]
    rfl

theorem report_run (k : EventKind) (p : String) (b : Bytes) (t : Turn) :
    (report k p b).run t = ((), t.noted k p b) := by
  simp only [report, Turn.noted, StateT.run_bind, StateT.run_get, pure_bind]
  split <;> rfl

theorem transmit_run (dest : Address) (m : Message) (t : Turn) :
    (transmit dest m).run t = ((), t.transmitted dest m) := by
  unfold transmit Turn.transmitted
  cases m.encode with
  | error _ => rfl
  | ok data =>
    simp only [StateT.run_bind, StateT.run_get, pure_bind]
    split <;> rfl

theorem send_run (dest : Address) (tx : UInt32) (b : Body) (t : Turn) :
    (send dest tx b).run t = ((), t.sent dest tx b) := by
  unfold send Turn.sent
  split
  · exact transmit_run _ _ t
  · rfl

theorem sendStore_run (dest : Address) (term : Bytes) (docs : DocSet) (t : Turn) :
    (Search.sendStore dest term docs).run t = ((), t.storeSent dest (term, docs)) :=
  transmit_run _ _ _

theorem sendAll_run (dest : Address) (m : TermMap) (t : Turn) :
    (Search.sendAll dest m).run t = ((), t.storesSent dest m.entries) := by
  unfold Search.sendAll Turn.storesSent
  rw [NodeM.forM_run]
  simp only [sendStore_run]

theorem pingFailed_run (p : PingRequest) (t : Turn) :
    (Ring.pingFailed p).run t = ((), t.pingFailed p) := by
  simp only [Ring.pingFailed, StateT.run_bind, report_run]
  rfl

theorem pingsFailed_run (ps : List (Pending PingRequest)) (t : Turn) :
    (ps.forM fun e => Ring.pingFailed e.value).run t = ((), t.pingsFailed ps) := by
  rw [NodeM.forM_run]
  simp only [pingFailed_run]
  rfl

theorem setSuccessor_run (n : NodeRef) (t : Turn) :
    (Ring.setSuccessor n).run t = ((), t.successorSet n) := by
  simp only [Ring.setSuccessor, Turn.successorSet, ring, StateT.run_bind, StateT.run_get,
    StateT.run_pure, pure_bind]
  split
  · rfl
  · simp only [StateT.run_bind, report_run]
    rfl

theorem predecessorChanged_run (n : NodeRef) (t : Turn) :
    (Search.predecessorChanged n).run t = ((), t.handedOver n) := by
  simp only [Search.predecessorChanged, Turn.handedOver]
  split
  · rfl
  · simp only [search, self, StateT.run_bind, StateT.run_get, StateT.run_pure, pure_bind]
    split
    · rfl
    · exact sendAll_run _ _ _

theorem leaving_run (n : NodeRef) (t : Turn) :
    (Search.leaving n).run t = ((), t.handedAll n) := by
  simp only [Search.leaving, Turn.handedAll, self, search, StateT.run_bind, StateT.run_get,
    StateT.run_pure, pure_bind]
  split
  · rfl
  · simp only [StateT.run_bind]
    exact sendAll_run _ _ _

theorem setPredecessor_run (n : NodeRef) (t : Turn) :
    (Ring.setPredecessor n).run t = ((), t.predecessorSet n) := by
  simp only [Ring.setPredecessor, Turn.predecessorSet, ring, StateT.run_bind, StateT.run_get,
    StateT.run_pure, pure_bind]
  split
  · rfl
  · simp only [StateT.run_bind, report_run, predecessorChanged_run]
    rfl

/-! ### Triples for `mvcgen` -/

section Specs

variable {α : Type}

@[spec] theorem node_spec {Q : PostCond Node (.arg Turn .pure)} :
    ⦃fun t => Q.1 t.node t⦄ node ⦃Q⦄ := NodeM.triple_run _ Q
@[spec] theorem self_spec {Q : PostCond NodeRef (.arg Turn .pure)} :
    ⦃fun t => Q.1 t.node.self t⦄ self ⦃Q⦄ := NodeM.triple_run _ Q
@[spec] theorem ring_spec {Q : PostCond Membership (.arg Turn .pure)} :
    ⦃fun t => Q.1 t.node.ring t⦄ ring ⦃Q⦄ := NodeM.triple_run _ Q
@[spec] theorem search_spec {Q : PostCond SearchState (.arg Turn .pure)} :
    ⦃fun t => Q.1 t.node.search t⦄ search ⦃Q⦄ := NodeM.triple_run _ Q
@[spec] theorem now_spec {Q : PostCond Int (.arg Turn .pure)} :
    ⦃fun t => Q.1 t.now t⦄ now ⦃Q⦄ := NodeM.triple_run _ Q

@[spec] theorem modifyRing_spec {f : Membership → Membership} {Q : PostCond Unit (.arg Turn .pure)} :
    ⦃fun t => Q.1 () (t.mapRing f)⦄ modifyRing f ⦃Q⦄ := NodeM.triple_run _ Q
@[spec] theorem modifySearch_spec {f : SearchState → SearchState}
    {Q : PostCond Unit (.arg Turn .pure)} :
    ⦃fun t => Q.1 () (t.mapSearch f)⦄ modifySearch f ⦃Q⦄ := NodeM.triple_run _ Q
@[spec] theorem modifyMetrics_spec {f : Metrics → Metrics} {Q : PostCond Unit (.arg Turn .pure)} :
    ⦃fun t => Q.1 () (t.mapMetrics f)⦄ modifyMetrics f ⦃Q⦄ := NodeM.triple_run _ Q
@[spec] theorem nextTx_spec {Q : PostCond UInt32 (.arg Turn .pure)} :
    ⦃fun t => Q.1 (t.node.lastTx + 1) t.drawTx⦄ nextTx ⦃Q⦄ := NodeM.triple_run _ Q

@[spec] theorem report_spec {k : EventKind} {p : String} {b : Bytes}
    {Q : PostCond Unit (.arg Turn .pure)} :
    ⦃fun t => Q.1 () (t.noted k p b)⦄ report k p b ⦃Q⦄ := NodeM.triple_of_run (report_run k p b)
@[spec] theorem transmit_spec {dest : Address} {m : Message} {Q : PostCond Unit (.arg Turn .pure)} :
    ⦃fun t => Q.1 () (t.transmitted dest m)⦄ transmit dest m ⦃Q⦄ :=
  NodeM.triple_of_run (transmit_run dest m)
@[spec] theorem send_spec {dest : Address} {tx : UInt32} {b : Body}
    {Q : PostCond Unit (.arg Turn .pure)} :
    ⦃fun t => Q.1 () (t.sent dest tx b)⦄ send dest tx b ⦃Q⦄ := NodeM.triple_of_run (send_run dest tx b)
@[spec] theorem sendStore_spec {dest : Address} {term : Bytes} {docs : DocSet}
    {Q : PostCond Unit (.arg Turn .pure)} :
    ⦃fun t => Q.1 () (t.storeSent dest (term, docs))⦄ Search.sendStore dest term docs ⦃Q⦄ :=
  NodeM.triple_of_run (sendStore_run dest term docs)
@[spec] theorem sendAll_spec {dest : Address} {m : TermMap} {Q : PostCond Unit (.arg Turn .pure)} :
    ⦃fun t => Q.1 () (t.storesSent dest m.entries)⦄ Search.sendAll dest m ⦃Q⦄ :=
  NodeM.triple_of_run (sendAll_run dest m)
@[spec] theorem pingFailed_spec {p : PingRequest} {Q : PostCond Unit (.arg Turn .pure)} :
    ⦃fun t => Q.1 () (t.pingFailed p)⦄ Ring.pingFailed p ⦃Q⦄ :=
  NodeM.triple_of_run (pingFailed_run p)

@[spec] theorem setSuccessor_spec {n : NodeRef} {Q : PostCond Unit (.arg Turn .pure)} :
    ⦃fun t => Q.1 () (t.successorSet n)⦄ Ring.setSuccessor n ⦃Q⦄ :=
  NodeM.triple_of_run (setSuccessor_run n)
@[spec] theorem predecessorChanged_spec {n : NodeRef} {Q : PostCond Unit (.arg Turn .pure)} :
    ⦃fun t => Q.1 () (t.handedOver n)⦄ Search.predecessorChanged n ⦃Q⦄ :=
  NodeM.triple_of_run (predecessorChanged_run n)
@[spec] theorem leaving_spec {n : NodeRef} {Q : PostCond Unit (.arg Turn .pure)} :
    ⦃fun t => Q.1 () (t.handedAll n)⦄ Search.leaving n ⦃Q⦄ :=
  NodeM.triple_of_run (leaving_run n)
@[spec] theorem setPredecessor_spec {n : NodeRef} {Q : PostCond Unit (.arg Turn .pure)} :
    ⦃fun t => Q.1 () (t.predecessorSet n)⦄ Ring.setPredecessor n ⦃Q⦄ :=
  NodeM.triple_of_run (setPredecessor_run n)

@[spec] theorem pingsFailed_spec {ps : List (Pending PingRequest)}
    {Q : PostCond Unit (.arg Turn .pure)} :
    ⦃fun t => Q.1 () (t.pingsFailed ps)⦄ ps.forM (fun e => Ring.pingFailed e.value) ⦃Q⦄ :=
  NodeM.triple_of_run (pingsFailed_run ps)

end Specs

end ChordSearch
