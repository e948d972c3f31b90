import ChordSearch.Proofs.Ring.Frame
import ChordSearch.Proofs.Wire.Normal
import ChordSearch.Proofs.Ring.Dangling

/-! # Entering the ring

A node enters the ring in two places only: a join through itself creates a ring of one, and
a join answer naming it as the joiner lets it in when it is out. Nothing else sets the flag.

A node does not remember which join an answer belongs to. When it is asked to join again
while its first join waits, two answers come back; the first lets it in, and the second,
arriving after it has left, lets it in again although nobody asked it to. Without such
duplicate joins, at most one join request or answer names a member at any time, none unless
the member waits for one (`Cluster.Awaiting`), so a member that is out of the ring and not
waiting stays out until it is asked to join.

The join messages are read back naming the joiner they were written with, whatever their
other fields (`Message.carries_joinReq`, `Message.carries_joinRsp`): the joiner's eight
bytes stand at a fixed place from the end or from the start.
-/

namespace ChordSearch

open NodeM Std.Do

set_option mvcgen.warning false

/-! ### The joiner a message names -/

/-- The node a join request or a join answer names as the joiner. -/
def Body.joiner : Body → Option NodeRef
  | .joinReq _ r => some r
  | .joinRsp r _ _ => some r
  | _ => none

/-- The joiner the bytes of a datagram name, when they read as a join request or answer. -/
def Message.joinerOf (data : Bytes) : Option NodeRef :=
  match Message.decode data with
  | .ok m => m.body.joiner
  | .error _ => none

/-- The joiners named by a list of outgoing datagrams, in order. -/
def joinersOf (out : List (Address × Bytes)) : List NodeRef :=
  out.filterMap fun x => Message.joinerOf x.2

theorem Body.joiner_eq_none {b : Body} (h₁ : b.kind ≠ .joinReq) (h₂ : b.kind ≠ .joinRsp) :
    b.joiner = none := by
  cases b <;> first | rfl | exact absurd rfl h₁ | exact absurd rfl h₂

theorem Body.kind_ne_of_joiner {b : Body} (hb : b.joiner = none) :
    b.kind ≠ .joinReq ∧ b.kind ≠ .joinRsp := by
  cases b <;> simp_all [Body.joiner, Body.kind]

namespace NodeRef

theorem length_wireBytes {r : NodeRef} (h : ∀ os, r.addr = .v4 os → os.length = 4) :
    r.wireBytes.length = 8 := by
  unfold wireBytes
  split
  · next os hos => simp [Codec.length_u32, h os hos]
  · simp

theorem Exact.four_octets {r : NodeRef} (h : r.Exact) :
    ∀ os, r.addr = .v4 os → os.length = 4 := by
  intro os h4
  rcases h with rfl | ⟨os', hos, hlen, -⟩
  · simp [unset, unsetWith, make] at h4
  · rw [hos, Address.v4.injEq] at h4
    rwa [← h4]

theorem Wired.four_octets {r : NodeRef} (h : r.Wired) : ∀ os, r.addr = .v4 os → os.length = 4 := by
  intro os h4
  obtain ⟨os', hos, hlen⟩ := h
  rw [hos, Address.v4.injEq] at h4
  rwa [← h4]

theorem Exact.length_wireBytes {r : NodeRef} (h : r.Exact) : r.wireBytes.length = 8 :=
  NodeRef.length_wireBytes h.four_octets

theorem Exact.received_eq {r : NodeRef} (h : r.Exact) : r.received = r := by
  rcases h with rfl | ⟨os, hos, -, hz⟩
  · rfl
  · unfold received
    rw [if_neg]
    rintro (hu | ⟨h0, h4⟩)
    · simp [isUnset, hos, Address.isSet] at hu
    · rw [hos, Address.v4.injEq] at h4
      exact hz ⟨h0, h4⟩

theorem Wired.wire_ne {r m : NodeRef} (hm : m.Wired) (hne : r ≠ m) : r.wire ≠ m := by
  rcases r.wire_eq_or with h | h <;> rw [h]
  · exact hne
  · rintro rfl
    obtain ⟨os, hos, -⟩ := hm
    simp [unset, unsetWith, make] at hos

theorem Wired.received_eq {r : NodeRef} (h : r.Wired) : r.received = r.wire := by
  obtain ⟨os, hos, -⟩ := h
  have hu : r.isUnset = false := by simp [isUnset, hos, Address.isSet]
  unfold received wire
  simp [hu]

theorem Exact.eq_of_wireBytes {a b : NodeRef} (ha : a.Exact) (hb : b.Exact)
    (h : a.wireBytes = b.wireBytes) : a = b := by
  have hra : (Body.stabilizeReq a).Readable := ⟨by simp [Body.texts], by simp [Body.sets], by simpa [Body.refs] using ha⟩
  have hrb : (Body.stabilizeReq b).Readable := ⟨by simp [Body.texts], by simp [Body.sets], by simpa [Body.refs] using hb⟩
  have := Body.eq_of_spell_eq hra hrb rfl h
  simpa using this

end NodeRef

theorem Message.spell_of_encode_decode {tx : UInt32} {b : Body} {w : Bytes} {m' : Message}
    (he : (⟨tx, b⟩ : Message).encode = .ok w) (hd : Message.decode w = .ok m') :
    b.Writable ∧ m'.body.Readable ∧ m'.body.kind = b.kind ∧ m'.body.spell = b.sortSets.spell := by
  obtain ⟨hw, rfl⟩ := Message.encode_eq_ok_iff.1 he
  obtain ⟨hr, hw'⟩ := Message.decode_eq_ok_iff.1 hd
  have hk := Message.kind_of_encode_decode he hd
  refine ⟨hw, hr, hk, ?_⟩
  have hrest := (List.cons.inj hw').2
  exact ((List.append_inj hrest (by simp [Codec.length_u32])).2).symm

theorem Message.carries_joinReq {tx : UInt32} {l r : NodeRef}
    (hr : ∀ os, r.addr = .v4 os → os.length = 4) :
    (⟨tx, .joinReq l r⟩ : Message).Carries fun b => b.joiner = some r.received := by
  intro w ⟨tx', b'⟩ he hd
  obtain ⟨hw, hread, hk, hs⟩ := Message.spell_of_encode_decode he hd
  cases b' with
  | joinReq l' r' =>
    simp only [Body.spell, Body.sortSets, Body.mapFields, id] at hs
    have hr' : r'.Exact := hread.2.2 r' (by simp [Body.refs])
    have hsplit := List.append_inj' hs (by rw [hr'.length_wireBytes, NodeRef.length_wireBytes hr])
    have hrw : r.Writable := hw.2.2 r (by simp [Body.refs])
    exact congrArg some (hr'.eq_of_wireBytes (NodeRef.exact_received hrw hr)
      (by rw [NodeRef.wireBytes_received]; exact hsplit.2))
  | _ => cases hk

theorem Message.carries_joinRsp {tx : UInt32} {r l s : NodeRef}
    (hr : ∀ os, r.addr = .v4 os → os.length = 4) :
    (⟨tx, .joinRsp r l s⟩ : Message).Carries fun b => b.joiner = some r.received := by
  intro w ⟨tx', b'⟩ he hd
  obtain ⟨hw, hread, hk, hs⟩ := Message.spell_of_encode_decode he hd
  cases b' with
  | joinRsp r' l' s' =>
    simp only [Body.spell, Body.sortSets, Body.mapFields, id] at hs
    have hr' : r'.Exact := hread.2.2 r' (by simp [Body.refs])
    have hsplit := List.append_inj hs (by rw [hr'.length_wireBytes, NodeRef.length_wireBytes hr])
    have hrw : r.Writable := hw.2.2 r (by simp [Body.refs])
    exact congrArg some (hr'.eq_of_wireBytes (NodeRef.exact_received hrw hr)
      (by rw [NodeRef.wireBytes_received]; exact hsplit.1))
  | _ => cases hk

theorem Message.carries_no_joiner {m : Message} (h₁ : m.body.kind ≠ .joinReq)
    (h₂ : m.body.kind ≠ .joinRsp) : m.Carries fun b => b.joiner = none :=
  Message.Carries.of_kind fun _ hk => Body.joiner_eq_none (hk ▸ h₁) (hk ▸ h₂)

theorem Message.joinerOf_sublist {m : Message} {L : List NodeRef}
    (hm : m.Carries fun b => b.joiner.toList.Sublist L) {data : Bytes} (he : m.encode = .ok data) :
    (Message.joinerOf data).toList.Sublist L := by
  unfold Message.joinerOf
  split
  · next m' hd => exact hm data m' he hd
  · exact List.nil_sublist L

theorem Message.joinerOf_of_decode {data : Bytes} {m : Message} (hd : Message.decode data = .ok m) :
    Message.joinerOf data = m.body.joiner := by
  simp [Message.joinerOf, hd]

theorem joinersOf_push (out : Array (Address × Bytes)) (x : Address × Bytes) :
    joinersOf (out.push x).toList = joinersOf out.toList ++ (Message.joinerOf x.2).toList := by
  cases h : Message.joinerOf x.2 <;> simp [joinersOf, h]

/-! ### What a turn does to the join flags -/

/-- A turn of node `me`, whose ring and joining flags are `inRing` and `joining`, and whose
join requests and answers name, in order, some of the nodes of `L`. -/
structure Turn.Joins (me : NodeRef) (inRing joining : Bool) (L : List NodeRef) (t : Turn) :
    Prop where
  self : t.node.self = me
  inRing : t.node.ring.inRing = inRing
  joining : t.node.ring.joining = joining
  named : (joinersOf t.outgoing.toList).Sublist L

namespace Turn

variable (t : Turn)

theorem joinersOf_transmitted {dest : Address} {m : Message} (h₁ : m.body.kind ≠ .joinReq)
    (h₂ : m.body.kind ≠ .joinRsp) :
    joinersOf (t.transmitted dest m).outgoing.toList = joinersOf t.outgoing.toList := by
  rw [transmitted_outgoing]
  cases he : m.encode with
  | error _ => rfl
  | ok data =>
    dsimp only
    split
    · have hn : (Message.joinerOf data).toList.Sublist [] := Message.joinerOf_sublist
        ((Message.carries_no_joiner h₁ h₂).mono fun b hb => by simp [hb]) he
      rw [joinersOf_push, List.sublist_nil.1 hn, List.append_nil]
    · rfl

theorem joinersOf_sent {dest : Address} {tx : UInt32} {b : Body} (h₁ : b.kind ≠ .joinReq)
    (h₂ : b.kind ≠ .joinRsp) :
    joinersOf (t.sent dest tx b).outgoing.toList = joinersOf t.outgoing.toList := by
  unfold sent
  split
  · exact t.joinersOf_transmitted h₁ h₂
  · rfl

@[simp] theorem joinersOf_storeSent (dest : Address) (p : Bytes × DocSet) :
    joinersOf (t.storeSent dest p).outgoing.toList = joinersOf t.outgoing.toList := by
  simp only [storeSent]
  exact t.drawTx.joinersOf_transmitted (by simp [Body.kind]) (by simp [Body.kind])

@[simp] theorem joinersOf_storesSent (dest : Address) (ps : List (Bytes × DocSet)) :
    joinersOf (t.storesSent dest ps).outgoing.toList = joinersOf t.outgoing.toList := by
  induction ps generalizing t with
  | nil => rfl
  | cons p ps ih =>
    rw [storesSent, List.foldl_cons, ← storesSent, ih, joinersOf_storeSent]

@[simp] theorem joinersOf_handedOver (n : NodeRef) :
    joinersOf (t.handedOver n).outgoing.toList = joinersOf t.outgoing.toList := by
  unfold handedOver
  split
  · rfl
  · dsimp only
    split <;> simp

@[simp] theorem joinersOf_handedAll (n : NodeRef) :
    joinersOf (t.handedAll n).outgoing.toList = joinersOf t.outgoing.toList := by
  unfold handedAll
  split <;> simp

@[simp] theorem joinersOf_predecessorSet (n : NodeRef) :
    joinersOf (t.predecessorSet n).outgoing.toList = joinersOf t.outgoing.toList := by
  unfold predecessorSet
  split <;> simp

end Turn

namespace Turn.Joins

variable {me : NodeRef} {i j : Bool} {L : List NodeRef} {t : Turn}

theorem keep (h : t.Joins me i j L) {t' : Turn} (hs : t'.node.self = t.node.self)
    (hi : t'.node.ring.inRing = t.node.ring.inRing) (hj : t'.node.ring.joining = t.node.ring.joining)
    (ho : joinersOf t'.outgoing.toList = joinersOf t.outgoing.toList) : t'.Joins me i j L :=
  ⟨hs.trans h.self, hi.trans h.inRing, hj.trans h.joining, ho ▸ h.named⟩

theorem noted (h : t.Joins me i j L) (k : EventKind) (p : String) (b : Bytes) :
    (t.noted k p b).Joins me i j L :=
  h.keep (by simp) (by simp) (by simp) (by simp)

theorem mapSearch (h : t.Joins me i j L) (f : SearchState → SearchState) :
    (t.mapSearch f).Joins me i j L :=
  h.keep rfl rfl rfl rfl

theorem mapMetrics (h : t.Joins me i j L) (f : Metrics → Metrics) :
    (t.mapMetrics f).Joins me i j L :=
  h.keep rfl rfl rfl rfl

theorem drawTx (h : t.Joins me i j L) : t.drawTx.Joins me i j L :=
  h.keep rfl rfl rfl rfl

theorem successorSet (h : t.Joins me i j L) (n : NodeRef) : (t.successorSet n).Joins me i j L :=
  h.keep (by simp) (by simp) (by simp) (by simp)

theorem predecessorSet (h : t.Joins me i j L) (n : NodeRef) :
    (t.predecessorSet n).Joins me i j L :=
  h.keep (by simp) (by simp) (by simp) (by simp)

theorem handedAll (h : t.Joins me i j L) (n : NodeRef) : (t.handedAll n).Joins me i j L :=
  h.keep (by simp) (by simp) (by simp) (by simp)

theorem storeSent (h : t.Joins me i j L) (dest : Address) (p : Bytes × DocSet) :
    (t.storeSent dest p).Joins me i j L :=
  h.keep (by simp) (by simp) (by simp) (by simp)

theorem pingFailed (h : t.Joins me i j L) (p : PingRequest) : (t.pingFailed p).Joins me i j L :=
  h.keep (by simp) (by simp) (by simp) (by simp)

theorem pingsFailed (h : t.Joins me i j L) (ps : List (Pending PingRequest)) :
    (t.pingsFailed ps).Joins me i j L :=
  h.keep (by simp) (by simp) (by simp) (by simp)

theorem transmitted_quiet (h : t.Joins me i j L) {dest : Address} {m : Message}
    (hm : m.body.joiner = none) : (t.transmitted dest m).Joins me i j L :=
  h.keep (by simp) (by simp) (by simp)
    (t.joinersOf_transmitted (Body.kind_ne_of_joiner hm).1 (Body.kind_ne_of_joiner hm).2)

theorem sent_quiet (h : t.Joins me i j L) {dest : Address} {tx : UInt32} {b : Body}
    (hb : b.joiner = none) : (t.sent dest tx b).Joins me i j L :=
  h.keep (by simp) (by simp) (by simp)
    (t.joinersOf_sent (Body.kind_ne_of_joiner hb).1 (Body.kind_ne_of_joiner hb).2)

theorem start (c : Cluster) (n : Node) :
    (c.startTurn n).Joins n.self n.ring.inRing n.ring.joining [] :=
  ⟨rfl, rfl, rfl, by simp [Cluster.startTurn, joinersOf]⟩

theorem quiet (h : t.Joins me i j L) {b : Body} (hb : b.joiner = none) :
    t.Joins me i j (L ++ b.joiner.toList) := by
  rw [hb, Option.toList_none, List.append_nil]
  exact h

theorem mono (h : t.Joins me i j L) {L' : List NodeRef} (hL : L.Sublist L') :
    t.Joins me i j L' :=
  ⟨h.self, h.inRing, h.joining, h.named.trans hL⟩

theorem mapRing (h : t.Joins me i j L) {f : Membership → Membership} {i' j' : Bool}
    (hi : (f t.node.ring).inRing = i') (hj : (f t.node.ring).joining = j') :
    (t.mapRing f).Joins me i' j' L :=
  ⟨h.self, hi, hj, h.named⟩

theorem mapRing_keeps (h : t.Joins me i j L) {f : Membership → Membership}
    (hi : (f t.node.ring).inRing = t.node.ring.inRing)
    (hj : (f t.node.ring).joining = t.node.ring.joining) : (t.mapRing f).Joins me i j L :=
  h.mapRing (hi.trans h.inRing) (hj.trans h.joining)

theorem transmitted (h : t.Joins me i j L) {dest : Address} {m : Message} {L' : List NodeRef}
    (hm : m.Carries fun b => b.joiner.toList.Sublist L') :
    (t.transmitted dest m).Joins me i j (L ++ L') := by
  refine ⟨by simp [h.self], by simp [h.inRing], by simp [h.joining], ?_⟩
  rw [transmitted_outgoing]
  cases he : m.encode with
  | error _ => exact h.named.trans (List.sublist_append_left L L')
  | ok data =>
    dsimp only
    split
    · rw [joinersOf_push]
      exact h.named.append (Message.joinerOf_sublist hm he)
    · exact h.named.trans (List.sublist_append_left L L')

theorem sent (h : t.Joins me i j L) {dest : Address} {tx : UInt32} {b : Body} {L' : List NodeRef}
    (hm : (⟨tx, b⟩ : Message).Carries fun b => b.joiner.toList.Sublist L') :
    (t.sent dest tx b).Joins me i j (L ++ L') := by
  unfold Turn.sent
  split
  · exact h.transmitted hm
  · exact h.mono (List.sublist_append_left L L')

theorem sent_joiner (h : t.Joins me i j L) {dest : Address} {tx : UInt32} {b : Body} {r : NodeRef}
    (hb : b.joiner = some r) (hr : ∀ os, r.addr = .v4 os → os.length = 4) :
    (t.sent dest tx b).Joins me i j (L ++ [r.received]) := by
  cases b with
  | joinReq l r' =>
    cases hb
    exact h.sent ((Message.carries_joinReq hr).mono fun b hb => by simp [hb])
  | joinRsp r' l s =>
    cases hb
    exact h.sent ((Message.carries_joinRsp hr).mono fun b hb => by simp [hb])
  | _ => cases hb

theorem sent_exact (h : t.Joins me i j L) {dest : Address} {tx : UInt32} {b : Body} {r : NodeRef}
    (hb : b.joiner = some r) (hr : r.Exact) : (t.sent dest tx b).Joins me i j (L ++ [r]) := by
  have hs : (t.sent dest tx b).Joins me i j (L ++ [r.received]) := h.sent_joiner hb hr.four_octets
  rwa [hr.received_eq] at hs

theorem sent_own (h : t.Joins me i j L) (hme : me.Wired) {dest : Address} {tx : UInt32} {b : Body}
    (hb : b.joiner = some t.node.self) : (t.sent dest tx b).Joins me i j (L ++ [me.wire]) := by
  have hs : (t.sent dest tx b).Joins me i j (L ++ [t.node.self.received]) :=
    h.sent_joiner hb (h.self ▸ hme.four_octets)
  rwa [h.self, hme.received_eq] at hs

end Turn.Joins

theorem NodeM.triple_post {α : Type} {act : NodeM α} {P Q Q' : Turn → Prop}
    (h : ⦃fun t => ⌜P t⌝⦄ act ⦃⇓ _ t => ⌜Q t⌝⦄) (hq : ∀ t, Q t → Q' t) :
    ⦃fun t => ⌜P t⌝⦄ act ⦃⇓ _ t => ⌜Q' t⌝⦄ := by
  intro t hp
  exact hq _ (NodeM.run_of_triple h hp)

/-! ### The handlers -/

section Handlers

variable {me : NodeRef} {ir jn : Bool} {L : List NodeRef}

theorem requestFinger_joins {f : Finger} :
    ⦃fun t => ⌜t.Joins me ir jn L⌝⦄ Ring.requestFinger f ⦃⇓ _ t => ⌜t.Joins me ir jn L⌝⦄ := by
  intro t h
  mvcgen [Ring.requestFinger]
  exact h.drawTx.sent_quiet rfl

theorem initFinger_joins {n : Nat} :
    ⦃fun t => ⌜t.Joins me ir jn L⌝⦄ Ring.initFinger n ⦃⇓ _ t => ⌜t.Joins me ir jn L⌝⦄ := by
  intro t h
  mvcgen [Ring.initFinger, requestFinger_joins]
  exact h.mapRing_keeps rfl rfl

theorem fixFinger_joins {n : Nat} :
    ⦃fun t => ⌜t.Joins me ir jn L⌝⦄ Ring.fixFinger n ⦃⇓ _ t => ⌜t.Joins me ir jn L⌝⦄ := by
  intro t h
  mvcgen [Ring.fixFinger, requestFinger_joins]
  all_goals exact h.mapRing_keeps rfl rfl

theorem stabilize_joins :
    ⦃fun t => ⌜t.Joins me ir jn L⌝⦄ Ring.stabilize ⦃⇓ _ t => ⌜t.Joins me ir jn L⌝⦄ := by
  intro t h
  mvcgen [Ring.stabilize, fixFinger_joins]
  exact (h.drawTx.sent_quiet rfl).mapRing_keeps rfl rfl

theorem findSuccessor_joins {tx : UInt32} {n : NodeRef} {key : RingId} {idx : UInt32} :
    ⦃fun t => ⌜t.Joins me ir jn L⌝⦄ Ring.findSuccessor tx n key idx
    ⦃⇓ _ t => ⌜t.Joins me ir jn L⌝⦄ := by
  intro t h
  mvcgen [Ring.findSuccessor]
  all_goals exact h.sent_quiet rfl

theorem resolve_joins {key : RingId} {tx : UInt32} :
    ⦃fun t => ⌜t.Joins me ir jn L⌝⦄ Ring.resolve key tx ⦃⇓ _ t => ⌜t.Joins me ir jn L⌝⦄ := by
  mvcgen [Ring.resolve, findSuccessor_joins]

theorem lookupFor_joins {errand : Errand} {term : Bytes} :
    ⦃fun t => ⌜t.Joins me ir jn L⌝⦄ Search.lookupFor errand term ⦃⇓ _ t => ⌜t.Joins me ir jn L⌝⦄ := by
  intro t h
  have hres : ∀ key tx, ⦃fun t => ⌜t.Joins me ir jn L⌝⦄ Ring.resolve key tx
      ⦃⇓ _ t => ⌜t.Joins me ir jn L⌝⦄ := fun _ _ => resolve_joins
  mvcgen [Search.lookupFor, hres]
  · exact h.drawTx.mapSearch _
  · next h' => exact h'.mapSearch _

theorem lookupResolved_joins {owner : NodeRef} {key : RingId} {tx : UInt32} :
    ⦃fun t => ⌜t.Joins me ir jn L⌝⦄ Search.lookupResolved owner key tx
    ⦃⇓ _ t => ⌜t.Joins me ir jn L⌝⦄ := by
  intro t h
  mvcgen [Search.lookupResolved]
  · exact h.mapSearch _
  · exact ((h.mapSearch _).mapSearch _).storeSent _ _
  · exact (h.mapSearch _).transmitted_quiet rfl
  · exact (h.mapSearch _).noted _ _ _

theorem foundSuccessor_joins {tx : UInt32} {owner : NodeRef} {start : RingId} {index : UInt32} :
    ⦃fun t => ⌜t.Joins me ir jn L⌝⦄ Ring.foundSuccessor tx owner start index
    ⦃⇓ _ t => ⌜t.Joins me ir jn L⌝⦄ := by
  intro t h
  mvcgen [Ring.foundSuccessor, lookupResolved_joins, initFinger_joins, fixFinger_joins]
  all_goals exact h.mapRing_keeps rfl rfl

theorem stabilizeRequest_joins {tx : UInt32} {sender : NodeRef} :
    ⦃fun t => ⌜t.Joins me ir jn L⌝⦄ Ring.stabilizeRequest tx sender ⦃⇓ _ t => ⌜t.Joins me ir jn L⌝⦄ := by
  intro t h
  mvcgen [Ring.stabilizeRequest]
  · exact (h.predecessorSet _).sent_quiet rfl
  · exact h.sent_quiet rfl

theorem stabilizeReply_joins {p : NodeRef} :
    ⦃fun t => ⌜t.Joins me ir jn L⌝⦄ Ring.stabilizeReply p ⦃⇓ _ t => ⌜t.Joins me ir jn L⌝⦄ := by
  intro t h
  mvcgen [Ring.stabilizeReply]
  exact h.successorSet _

theorem departure_joins {sender conn : NodeRef} :
    ⦃fun t => ⌜t.Joins me ir jn L⌝⦄ Ring.departure sender conn ⦃⇓ _ t => ⌜t.Joins me ir jn L⌝⦄ := by
  intro t h
  mvcgen [Ring.departure]
  · exact ((h.predecessorSet _).successorSet _).noted _ _ _
  · exact (h.predecessorSet _).noted _ _ _
  · exact (h.successorSet _).noted _ _ _
  · exact h.noted _ _ _

theorem pingRequest_joins {from_ : Address} {tx : UInt32} {message : Bytes} :
    ⦃fun t => ⌜t.Joins me ir jn L⌝⦄ Ring.pingRequest from_ tx message
    ⦃⇓ _ t => ⌜t.Joins me ir jn L⌝⦄ := by
  intro t h
  mvcgen [Ring.pingRequest]
  exact (h.noted _ _ _).sent_quiet rfl

theorem pingAnswer_joins {tx : UInt32} :
    ⦃fun t => ⌜t.Joins me ir jn L⌝⦄ Ring.pingAnswer tx ⦃⇓ _ t => ⌜t.Joins me ir jn L⌝⦄ := by
  intro t h
  mvcgen [Ring.pingAnswer, Ring.pingSucceeded]
  exact ((h.mapRing_keeps rfl rfl).mapMetrics _).noted _ _ _

theorem ringStatePing_joins {tx : UInt32} {originator : NodeRef} :
    ⦃fun t => ⌜t.Joins me ir jn L⌝⦄ Ring.ringStatePing tx originator ⦃⇓ _ t => ⌜t.Joins me ir jn L⌝⦄ := by
  intro t h
  mvcgen [Ring.ringStatePing]
  exact h.sent_quiet rfl

theorem keep_joins {term : Bytes} {docs : List Bytes} :
    ⦃fun t => ⌜t.Joins me ir jn L⌝⦄ Search.keep term docs ⦃⇓ _ t => ⌜t.Joins me ir jn L⌝⦄ := by
  intro t h
  mvcgen [Search.keep]
  exact h.mapSearch _

theorem fetch_joins {tx originator : UInt32} {key : Bytes} {remaining accumulated : List Bytes} :
    ⦃fun t => ⌜t.Joins me ir jn L⌝⦄ Search.fetch tx originator key remaining accumulated
    ⦃⇓ _ t => ⌜t.Joins me ir jn L⌝⦄ := by
  intro t h
  mvcgen [Search.fetch, Search.reply, Search.forward, lookupFor_joins]
  all_goals exact h.transmitted_quiet rfl

theorem fetchReply_joins {tx : UInt32} {docs : List Bytes} :
    ⦃fun t => ⌜t.Joins me ir jn L⌝⦄ Search.fetchReply tx docs ⦃⇓ _ t => ⌜t.Joins me ir jn L⌝⦄ := by
  intro t h
  mvcgen [Search.fetchReply]
  exact ((h.mapSearch _).mapMetrics _).noted _ _ _

theorem joinRequest_joins {tx : UInt32} {l r : NodeRef} (hr : r.Exact) :
    ⦃fun t => ⌜t.Joins me ir jn L⌝⦄ Ring.joinRequest tx l r
    ⦃⇓ _ t => ⌜t.Joins me ir jn (L ++ [r])⌝⦄ := by
  intro t h
  mvcgen [Ring.joinRequest]
  · exact h.mono (List.sublist_append_left L [r])
  · exact h.sent_exact rfl hr
  · exact h.sent_exact rfl hr

theorem joinReply_joins {tx : UInt32} {r l s : NodeRef} (hr : r.Exact) :
    ⦃fun t => ⌜t.Joins me ir jn L⌝⦄ Ring.joinReply tx r l s
    ⦃⇓ _ t => ⌜t.Joins me ir jn (L ++ [r]) ∨ (r = me ∧ ir = false ∧ t.Joins me true false L)⌝⦄ := by
  intro t h
  have hinit : ⦃fun t => ⌜t.Joins me true false L⌝⦄ Ring.initFinger 1
      ⦃⇓ _ t => ⌜t.Joins me true false L⌝⦄ := initFinger_joins
  mvcgen [Ring.joinReply, hinit]
  · exact .inl (h.sent_exact rfl hr)
  · exact .inl (h.mono (List.sublist_append_left L [r]))
  · exact ((h.mapRing (by rfl) (by rfl)).successorSet s).noted _ _ _
  · -- the node named by the answer is this node, out of the ring
    intro hs
    have hme : t.node.self = r := (NodeRef.same_iff _ _).1 ‹_›
    have hout : ir = false := by
      rw [← h.inRing]
      simpa using ‹¬t.node.ring.inRing = true›
    exact .inr ⟨hme.symm.trans h.self, hout, hs⟩
  · exact .inl (h.mono (List.sublist_append_left L [r]))
  · exact .inl (h.sent_exact rfl hr)

/-- Handling a message that reads back with exact references: the flags are kept and the
joiners named are those of `L` and the message's own, or a join answer naming this node lets
it into the ring. -/
theorem handle_joins {from_ : Address} {m : Message} (hx : m.body.RefsExact) :
    ⦃fun t => ⌜t.Joins me ir jn L⌝⦄ Node.handle from_ m
    ⦃⇓ _ t => ⌜t.Joins me ir jn (L ++ m.body.joiner.toList) ∨
      ((∃ l s, m.body = .joinRsp me l s) ∧ ir = false ∧ t.Joins me true false L)⌝⦄ := by
  rcases m with ⟨tx, b⟩
  cases b with
  | pingReq _ => exact NodeM.triple_post pingRequest_joins fun _ ht => .inl (ht.quiet rfl)
  | pingRsp _ => exact NodeM.triple_post pingAnswer_joins fun _ ht => .inl (ht.quiet rfl)
  | joinReq _ _ => exact NodeM.triple_post (joinRequest_joins hx.2) fun _ ht => .inl ht
  | joinRsp _ l s =>
    refine NodeM.triple_post (joinReply_joins hx.1) fun _ ht => ht.imp id ?_
    rintro ⟨rfl, hout, hin⟩
    exact ⟨⟨l, s, rfl⟩, hout, hin⟩
  | departureReq _ _ => exact NodeM.triple_post departure_joins fun _ ht => .inl (ht.quiet rfl)
  | stabilizeRsp _ => exact NodeM.triple_post stabilizeReply_joins fun _ ht => .inl (ht.quiet rfl)
  | stabilizeReq _ =>
    exact NodeM.triple_post stabilizeRequest_joins fun _ ht => .inl (ht.quiet rfl)
  | ringStatePing _ => exact NodeM.triple_post ringStatePing_joins fun _ ht => .inl (ht.quiet rfl)
  | findSuccessorReq _ _ _ =>
    exact NodeM.triple_post findSuccessor_joins fun _ ht => .inl (ht.quiet rfl)
  | findSuccessorRsp _ _ _ =>
    exact NodeM.triple_post foundSuccessor_joins fun _ ht => .inl (ht.quiet rfl)
  | storeReq _ _ => exact NodeM.triple_post keep_joins fun _ ht => .inl (ht.quiet rfl)
  | fetchReq _ _ _ _ => exact NodeM.triple_post fetch_joins fun _ ht => .inl (ht.quiet rfl)
  | fetchRsp _ => exact NodeM.triple_post fetchReply_joins fun _ ht => .inl (ht.quiet rfl)

theorem receive_joins {from_ : Address} {data : Bytes} :
    ⦃fun t => ⌜t.Joins me ir jn L⌝⦄ Node.receive from_ data
    ⦃⇓ _ t => ⌜t.Joins me ir jn (L ++ (Message.joinerOf data).toList) ∨
      ((∃ tx l s, Message.decode data = .ok ⟨tx, .joinRsp me l s⟩) ∧ ir = false ∧
        t.Joins me true false L)⌝⦄ := by
  intro t h
  unfold Node.receive
  split
  · mvcgen
    exact .inl ((h.mapMetrics _).mono (List.sublist_append_left _ _))
  · next m hd =>
    have hh := @handle_joins me ir jn L from_ m (Message.decode_refsExact hd)
    mvcgen [hh]
    · exact h.mapMetrics _
    · -- the datagram's joiner is the message's
      rcases m with ⟨tx, b⟩
      rw [Message.joinerOf_of_decode hd]
      refine fun ht => ht.imp id ?_
      rintro ⟨⟨l, s, rfl⟩, hout, hin⟩
      exact ⟨⟨tx, l, s, hd⟩, hout, hin⟩

end Handlers

section Requests

variable {me : NodeRef} {ir jn : Bool} {L : List NodeRef}

theorem bootstrap_joins :
    ⦃fun t => ⌜t.Joins me ir jn L⌝⦄ Ring.bootstrap ⦃⇓ _ t => ⌜t.Joins me true false L⌝⦄ := by
  intro t h
  mvcgen [Ring.bootstrap]
  exact ((((h.mapRing (by rfl) (by rfl)).successorSet _).predecessorSet _).mapRing_keeps rfl
    rfl).noted _ _ _

theorem join_joins {landmark : NodeRef} (hme : me.Wired) :
    ⦃fun t => ⌜t.Joins me ir jn L⌝⦄ Ring.join landmark
    ⦃⇓ _ t => ⌜t.Joins me ir jn L ∨ (ir = false ∧ landmark = me ∧ t.Joins me true false L) ∨
      (ir = false ∧ landmark ≠ me ∧ t.Joins me false true (L ++ [me.wire]))⌝⦄ := by
  intro t h
  have hboot : ⦃fun t => ⌜t.Joins me ir jn L⌝⦄ Ring.bootstrap
      ⦃⇓ _ t => ⌜t.Joins me true false L⌝⦄ := bootstrap_joins
  mvcgen [Ring.join, hboot]
  · exact .inl h
  · exact .inl h
  · -- a join through the node itself
    have hout : ir = false := by
      rw [← h.inRing]
      simpa using ‹¬t.node.ring.inRing = true›
    have hl : landmark = me := ((NodeRef.same_iff _ _).1 ‹_›).trans h.self
    exact .inr (.inl ⟨hout, hl, ‹_›⟩)
  · -- a join through another node waits for the answer
    have hout : ir = false := by
      rw [← h.inRing]
      simpa using ‹¬t.node.ring.inRing = true›
    have hl : landmark ≠ me := fun he => ‹¬landmark.same t.node.self = true›
      ((NodeRef.same_iff _ _).2 (he.trans h.self.symm))
    exact .inr (.inr ⟨hout, hl, (h.mapRing (by exact h.inRing.trans hout) (by rfl)).drawTx.sent_own hme rfl⟩)

theorem leave_joins :
    ⦃fun t => ⌜t.Joins me ir jn L⌝⦄ Ring.leave
    ⦃⇓ _ t => ⌜(ir = false ∧ t.Joins me ir jn L) ∨ (ir = true ∧ t.Joins me false false L)⌝⦄ := by
  intro t h
  mvcgen [Ring.leave]
  · have hout : ir = false := by
      rw [← h.inRing]
      simpa using ‹(!t.node.ring.inRing) = true›
    exact .inl ⟨hout, h⟩
  all_goals
    have hin : ir = true := by
      rw [← h.inRing]
      simpa using ‹¬(!t.node.ring.inRing) = true›
    refine .inr ⟨hin, ?_⟩
  · exact ((((h.handedAll _).drawTx.sent_quiet rfl).drawTx.sent_quiet rfl).mapRing (by rfl) (by rfl)).noted _ _ _
  · exact (((h.handedAll _).drawTx.sent_quiet rfl).mapRing (by rfl) (by rfl)).noted
      _ _ _
  · exact ((h.handedAll _).mapRing (by rfl) (by rfl)).noted _ _ _

theorem tick_joins : ⦃fun t => ⌜t.Joins me ir jn L⌝⦄ Node.tick ⦃⇓ _ t => ⌜t.Joins me ir jn L⌝⦄ := by
  intro t h
  have hstab : ⦃fun t => ⌜t.Joins me ir jn L⌝⦄ Ring.stabilize ⦃⇓ _ t => ⌜t.Joins me ir jn L⌝⦄ :=
    stabilize_joins
  mvcgen [Node.tick, hstab]
  exact ‹Turn.Joins me ir jn L _›.mapMetrics _

theorem sendPing_joins {dest : NodeRef} {message : Bytes} :
    ⦃fun t => ⌜t.Joins me ir jn L⌝⦄ Ring.sendPing dest message ⦃⇓ _ t => ⌜t.Joins me ir jn L⌝⦄ := by
  intro t h
  mvcgen [Ring.sendPing]
  · exact h.drawTx.pingFailed _
  · exact (h.drawTx.mapRing_keeps rfl rfl).sent_quiet rfl

theorem auditPings_joins :
    ⦃fun t => ⌜t.Joins me ir jn L⌝⦄ Ring.auditPings ⦃⇓ _ t => ⌜t.Joins me ir jn L⌝⦄ := by
  intro t h
  mvcgen [Ring.auditPings]
  exact (h.mapRing_keeps rfl rfl).pingsFailed _

theorem ringState_joins :
    ⦃fun t => ⌜t.Joins me ir jn L⌝⦄ Ring.ringState ⦃⇓ _ t => ⌜t.Joins me ir jn L⌝⦄ := by
  intro t h
  mvcgen [Ring.ringState]
  exact h.drawTx.sent_quiet rfl

theorem lookup_joins {term : Bytes} :
    ⦃fun t => ⌜t.Joins me ir jn L⌝⦄ Search.lookup term ⦃⇓ _ t => ⌜t.Joins me ir jn L⌝⦄ := by
  intro t h
  have hres : ∀ key tx, ⦃fun t => ⌜t.Joins me ir jn L⌝⦄ Ring.resolve key tx
      ⦃⇓ _ t => ⌜t.Joins me ir jn L⌝⦄ := fun _ _ => resolve_joins
  mvcgen [Search.lookup, hres]
  exact h.drawTx.mapSearch _

theorem query_joins {via : NodeRef} {terms : List Bytes} :
    ⦃fun t => ⌜t.Joins me ir jn L⌝⦄ Search.query via terms ⦃⇓ _ t => ⌜t.Joins me ir jn L⌝⦄ := by
  intro t h
  mvcgen [Search.query]
  exact (h.drawTx.mapSearch _).transmitted_quiet rfl

theorem publish_joins {ix : Index} :
    ⦃fun t => ⌜t.Joins me ir jn L⌝⦄ Search.publish ix ⦃⇓ _ t => ⌜t.Joins me ir jn L⌝⦄ := by
  intro t h
  have hlook : ∀ errand term, ⦃fun t => ⌜t.Joins me ir jn L⌝⦄ Search.lookupFor errand term
      ⦃⇓ _ t => ⌜t.Joins me ir jn L⌝⦄ := fun _ _ => lookupFor_joins
  mvcgen [Search.publish, hlook] invariants
  · ⇓ _ t => ⌜t.Joins me ir jn L⌝
  all_goals exact h.mapSearch _

/-- Every operator request keeps the flags and names no joiner, except a join, which lets the
node into a ring of its own or has it wait for the answer to a request naming it, and the
leave of a node in the ring. -/
theorem act_joins {op : Op} (hme : me.Wired) :
    ⦃fun t => ⌜t.Joins me ir jn L⌝⦄ op.act
    ⦃⇓ _ t => ⌜t.Joins me ir jn L ∨
      (∃ l, op = .join l ∧ ir = false ∧
        (l = me ∧ t.Joins me true false L ∨ l ≠ me ∧ t.Joins me false true (L ++ [me.wire]))) ∨
      (op = .leave ∧ ir = true ∧ t.Joins me false false L)⌝⦄ := by
  have quiet : ∀ {act : NodeM Unit}, ⦃fun t => ⌜t.Joins me ir jn L⌝⦄ act
      ⦃⇓ _ t => ⌜t.Joins me ir jn L⌝⦄ → ⦃fun t => ⌜t.Joins me ir jn L⌝⦄ act
      ⦃⇓ _ t => ⌜t.Joins me ir jn L ∨
        (∃ l, op = .join l ∧ ir = false ∧
          (l = me ∧ t.Joins me true false L ∨ l ≠ me ∧ t.Joins me false true (L ++ [me.wire]))) ∨
        (op = .leave ∧ ir = true ∧ t.Joins me false false L)⌝⦄ :=
    fun h => NodeM.triple_post h fun _ => .inl
  cases op with
  | join l =>
    have hj : ⦃fun t => ⌜t.Joins me ir jn L⌝⦄ Ring.join l
        ⦃⇓ _ t => ⌜t.Joins me ir jn L ∨ (ir = false ∧ l = me ∧ t.Joins me true false L) ∨
          (ir = false ∧ l ≠ me ∧ t.Joins me false true (L ++ [me.wire]))⌝⦄ := join_joins hme
    mvcgen [Op.act, hj]
    obtain h | ⟨hout, rfl, h⟩ | ⟨hout, hne, h⟩ := ‹Turn.Joins me ir jn L _ ∨ _›
    · exact .inl h
    · exact .inr (.inl ⟨_, rfl, hout, .inl ⟨rfl, h⟩⟩)
    · exact .inr (.inl ⟨l, rfl, hout, .inr ⟨hne, h⟩⟩)
  | leave =>
    have hl : ⦃fun t => ⌜t.Joins me ir jn L⌝⦄ Ring.leave
        ⦃⇓ _ t => ⌜(ir = false ∧ t.Joins me ir jn L) ∨ (ir = true ∧ t.Joins me false false L)⌝⦄ :=
      leave_joins
    mvcgen [Op.act, hl]
    obtain ⟨-, h⟩ | ⟨hin, h⟩ := ‹(ir = false ∧ Turn.Joins me ir jn L _) ∨ _›
    · exact .inl h
    · exact .inr (.inr ⟨trivial, hin, h⟩)
  | stabilize => exact quiet (by mvcgen [Op.act, tick_joins])
  | ping _ _ => exact quiet (by mvcgen [Op.act, sendPing_joins])
  | auditPings => exact quiet (by mvcgen [Op.act, auditPings_joins])
  | ringState => exact quiet (by mvcgen [Op.act, ringState_joins])
  | resolve _ _ => exact quiet (by mvcgen [Op.act, resolve_joins])
  | lookup _ => exact quiet (by mvcgen [Op.act, lookup_joins])
  | publish _ => exact quiet (by mvcgen [Op.act, publish_joins])
  | search _ _ => exact quiet (by mvcgen [Op.act, query_joins])

theorem act_leave_joins :
    ⦃fun t => ⌜t.Joins me true jn L⌝⦄ Op.leave.act ⦃⇓ _ t => ⌜t.Joins me false false L⌝⦄ := by
  intro t h
  have hl : ⦃fun t => ⌜t.Joins me true jn L⌝⦄ Ring.leave
      ⦃⇓ _ t => ⌜(true = false ∧ t.Joins me true jn L) ∨ (true = true ∧ t.Joins me false false L)⌝⦄ :=
    leave_joins
  mvcgen [Op.act, hl]
  obtain ⟨hf, -⟩ | ⟨-, h⟩ := ‹(true = false ∧ Turn.Joins me true jn L _) ∨ _›
  · cases hf
  · exact h

end Requests

/-! ### Join requests and answers in flight -/

namespace Cluster

/-- How many queued join requests and answers name `r` as the joiner. -/
def asking (c : Cluster) (r : NodeRef) : Nat :=
  (c.queue.toList.filterMap fun d => Message.joinerOf d.data).count r

theorem asking_afterTurn (c : Cluster) (i : Nat) (n : Node) (t : Turn) (r : NodeRef) :
    (c.afterTurn i n t).asking r = c.asking r + (joinersOf t.outgoing.toList).count r := by
  simp [asking, joinersOf, List.filterMap_map]

theorem asking_taken {c : Cluster} {k : Nat} {d : Datagram} (hd : c.queue.toList[k]? = some d)
    (r : NodeRef) :
    c.asking r = (c.taken k d).asking r + (Message.joinerOf d.data).toList.count r := by
  obtain ⟨hk, rfl⟩ := List.getElem?_eq_some_iff.1 hd
  have hp := ((List.getElem_cons_eraseIdx_perm hk).filterMap
    fun d => Message.joinerOf d.data).count_eq r
  rw [asking, asking, taken_queue, ← hp, List.filterMap_cons]
  cases Message.joinerOf (c.queue.toList[k]).data <;> simp [List.count_cons]

/-- Members at distinct references, each at a four-octet address. -/
structure Addressed (c : Cluster) : Prop where
  nodup : (c.members.toList.map (·.self)).Nodup
  wired : ∀ (j : Nat) (n : Node), c.members[j]? = some n → n.self.Wired

theorem Addressed.self_ne {c : Cluster} (h : c.Addressed) {i j : Nat} {n m : Node}
    (hi : c.members[i]? = some n) (hj : c.members[j]? = some m) (hij : j ≠ i) :
    m.self ≠ n.self := by
  intro he
  have hi' : (c.members.toList.map (·.self))[i]? = some n.self := by simp [hi]
  have hj' : (c.members.toList.map (·.self))[j]? = some m.self := by simp [hj]
  have hlt : j < (c.members.toList.map (·.self)).length := (List.getElem?_eq_some_iff.1 hj').1
  exact hij ((List.getElem?_inj hlt h.nodup).1 (hj'.trans (he ▸ hi'.symm)))

theorem exists_member_of_selves {c c' : Cluster}
    (hs : c'.members.toList.map (·.self) = c.members.toList.map (·.self)) {j : Nat} {m : Node}
    (hm : c'.members[j]? = some m) : ∃ n, c.members[j]? = some n ∧ n.self = m.self := by
  have hj : (c.members.toList.map (·.self))[j]? = some m.self := by
    rw [← hs]
    simp [hm]
  simpa using hj

theorem Addressed.of_selves {c c' : Cluster} (h : c.Addressed)
    (hs : c'.members.toList.map (·.self) = c.members.toList.map (·.self)) : c'.Addressed := by
  refine ⟨hs ▸ h.nodup, fun j m hm => ?_⟩
  obtain ⟨n, hn, he⟩ := exists_member_of_selves hs hm
  exact he ▸ h.wired j n hn

/-- What the join requests and answers in flight allow: a member waiting for an answer is
out of the ring, and at most one queued join request or answer names a member, none unless
it waits for one. -/
structure Awaiting (c : Cluster) : Prop where
  out : ∀ (j : Nat) (n : Node), c.members[j]? = some n → n.ring.joining = true → n.ring.inRing = false
  asked : ∀ (j : Nat) (n : Node), c.members[j]? = some n →
    c.asking n.self ≤ if n.ring.joining then 1 else 0

/-- The requests under which no member is asked to join while its own earlier join waits
for its answer. -/
def JoinsOnce (c : Cluster) (i : Nat) (op : Op) : Prop :=
  ∀ (l : NodeRef) (n : Node), op = .join l → c.members[i]? = some n → n.ring.joining = false

theorem Fresh.awaiting {c : Cluster} (h : c.Fresh) : c.Awaiting := by
  refine ⟨fun j n hn => ?_, fun j n hn => ?_⟩
  · rw [h.2 n (Array.mem_of_getElem? hn)]
    exact fun _ => rfl
  · simp [asking, h.1]

theorem Awaiting.taken {c : Cluster} (hc : c.Awaiting) {k : Nat} {d : Datagram}
    (hd : c.queue.toList[k]? = some d) : (c.taken k d).Awaiting := by
  refine ⟨hc.out, fun j n hn => ?_⟩
  have := asking_taken hd n.self
  have := hc.asked j n hn
  omega

theorem afterTurn_awaiting {b : Cluster} {i : Nat} {n : Node} (hi : b.members[i]? = some n)
    {t : Turn}
    (hnew : (t.node.ring.joining = true → t.node.ring.inRing = false) ∧
      b.asking t.node.self + (joinersOf t.outgoing.toList).count t.node.self ≤
        if t.node.ring.joining then 1 else 0)
    (hold : ∀ (j : Nat) (m : Node), j ≠ i → b.members[j]? = some m →
      (m.ring.joining = true → m.ring.inRing = false) ∧
        b.asking m.self + (joinersOf t.outgoing.toList).count m.self ≤
          if m.ring.joining then 1 else 0) :
    (b.afterTurn i n t).Awaiting := by
  refine ⟨fun j m hm => ?_, fun j m hm => ?_⟩ <;> rw [getElem?_afterTurn hi] at hm <;>
    split at hm
  · cases hm
    exact hnew.1
  · exact (hold j m ‹_› hm).1
  · cases hm
    rw [asking_afterTurn]
    exact hnew.2
  · rw [asking_afterTurn]
    exact (hold j m ‹_› hm).2

/-! ### Steps -/

theorem afterTurn_other {b : Cluster} {i j : Nat} {m n n' : Node} (hi : b.members[i]? = some m)
    {t : Turn} (hji : j ≠ i) (hn : b.members[j]? = some n)
    (hn' : (b.afterTurn i m t).members[j]? = some n') : n' = n := by
  rw [getElem?_afterTurn hi, if_neg hji, hn] at hn'
  exact (Option.some.inj hn').symm

theorem afterTurn_self {b : Cluster} {i : Nat} {m n' : Node} (hi : b.members[i]? = some m)
    {t : Turn} (hn' : (b.afterTurn i m t).members[i]? = some n') : n' = t.node := by
  rw [getElem?_afterTurn hi, if_pos rfl] at hn'
  exact (Option.some.inj hn').symm

/-- What a step does to a member's flags: nothing; or the member's own join, through itself
into a ring of its own or through another member to wait for the answer; or its leave from
the ring; or its handling of a join answer naming it while it is out of the ring, which lets
it in. -/
theorem Step.flags {allowed : Cluster → Nat → Op → Prop} {c c' : Cluster}
    (hs : Step allowed c c') (haddr : c.Addressed) {j : Nat} {n n' : Node}
    (hn : c.members[j]? = some n) (hn' : c'.members[j]? = some n') :
    (n'.ring.inRing = n.ring.inRing ∧ n'.ring.joining = n.ring.joining) ∨
    (∃ l, allowed c j (.join l) ∧ c' = (c.turn j (Op.join l).act).2 ∧ n.ring.inRing = false ∧
      (l = n.self ∧ n'.ring.inRing = true ∧ n'.ring.joining = false ∨
        l ≠ n.self ∧ n'.ring.inRing = false ∧ n'.ring.joining = true)) ∨
    (allowed c j .leave ∧ c' = (c.turn j Op.leave.act).2 ∧ n.ring.inRing = true ∧
      n'.ring.inRing = false ∧ n'.ring.joining = false) ∨
    (∃ k d tx l s, c.queue.toList[k]? = some d ∧ c.handlerOf d.dst = some j ∧
      Message.decode d.data = .ok ⟨tx, .joinRsp n.self l s⟩ ∧ c' = c.deliverAt k ∧
      n.ring.inRing = false ∧ n'.ring.inRing = true ∧ n'.ring.joining = false) := by
  cases hs with
  | @act i op ha =>
    rcases turn_cases c i op.act with h | ⟨m, hi, h⟩
    · rw [h, hn] at hn'
      cases hn'
      exact .inl ⟨rfl, rfl⟩
    · rw [h] at hn'
      by_cases hji : j = i
      · subst hji
        obtain rfl : m = n := Option.some.inj (hi.symm.trans hn)
        obtain rfl := afterTurn_self hi hn'
        rcases NodeM.run_of_triple (@act_joins _ _ _ _ op (haddr.wired j m hi)) (Turn.Joins.start c m) with
          ht | ⟨l, rfl, hout, ⟨rfl, ht⟩ | ⟨hne, ht⟩⟩ | ⟨rfl, hin, ht⟩
        · exact .inl ⟨ht.inRing, ht.joining⟩
        · exact .inr (.inl ⟨_, ha, rfl, hout, .inl ⟨rfl, ht.inRing, ht.joining⟩⟩)
        · exact .inr (.inl ⟨l, ha, rfl, hout, .inr ⟨hne, ht.inRing, ht.joining⟩⟩)
        · exact .inr (.inr (.inl ⟨ha, rfl, hin, ht.inRing, ht.joining⟩))
      · obtain rfl := afterTurn_other hi hji hn hn'
        exact .inl ⟨rfl, rfl⟩
  | deliver k =>
    rcases deliverAt_cases c k with h | ⟨d, hd, ⟨h, -⟩ | ⟨i, hi, h⟩⟩
    · rw [h, hn] at hn'
      cases hn'
      exact .inl ⟨rfl, rfl⟩
    · rw [h, taken_members, hn] at hn'
      cases hn'
      exact .inl ⟨rfl, rfl⟩
    · obtain ⟨m, hm, -⟩ := handlerOf_member hi
      have hm' : (c.taken k d).members[i]? = some m := hm
      rw [h, turn_run hm'] at hn'
      by_cases hji : j = i
      · subst hji
        obtain rfl : m = n := Option.some.inj (hm.symm.trans hn)
        obtain rfl := afterTurn_self hm' hn'
        rcases NodeM.run_of_triple receive_joins (Turn.Joins.start (c.taken k d) m) with
          ht | ⟨⟨tx, l, s, hdec⟩, hout, ht⟩
        · exact .inl ⟨ht.inRing, ht.joining⟩
        · exact .inr (.inr (.inr ⟨k, d, tx, l, s, hd, hi, hdec, rfl, hout, ht.inRing, ht.joining⟩))
      · obtain rfl := afterTurn_other hm' hji hn hn'
        exact .inl ⟨rfl, rfl⟩

theorem count_le_of_sublist {J : List NodeRef} {x : NodeRef} (hJ : J.Sublist [x]) (r : NodeRef) :
    J.count r ≤ if x = r then 1 else 0 := by
  have := hJ.count_le r
  by_cases hx : x = r <;> simp_all

/-- A member's own request keeps the bookkeeping, when it is no join while its earlier join
waits: a join through another member names the member alone, and the member, out of the
ring, was named by nothing before. -/
theorem Awaiting.act {c : Cluster} (hc : c.Awaiting) (haddr : c.Addressed) {i : Nat} {n : Node}
    {op : Op} (hi : c.members[i]? = some n) (hop : JoinsOnce c i op) :
    (c.afterTurn i n (op.act.run (c.startTurn n)).2).Awaiting := by
  have hw := haddr.wired i n hi
  have ht := NodeM.run_of_triple (@act_joins _ _ _ _ op hw) (Turn.Joins.start c n)
  set t := (op.act.run (c.startTurn n)).2
  have hJ : (joinersOf t.outgoing.toList).Sublist [n.self.wire] := by
    rcases ht with ht | ⟨l, -, -, ⟨-, ht⟩ | ⟨-, ht⟩⟩ | ⟨-, -, ht⟩
    all_goals first | exact ht.named.trans (List.nil_sublist _) | exact ht.named
  refine afterTurn_awaiting hi ?_ fun j m hji hm => ⟨hc.out j m hm, ?_⟩
  · have hs : t.node.self = n.self := by
      rcases ht with ht | ⟨l, -, -, ⟨-, ht⟩ | ⟨-, ht⟩⟩ | ⟨-, -, ht⟩ <;> exact ht.self
    rw [hs]
    rcases ht with ht | ⟨l, rfl, hout, ⟨rfl, ht⟩ | ⟨hne, ht⟩⟩ | ⟨rfl, hin, ht⟩
    · -- the flags are kept and nothing names the member
      have h0 : (joinersOf t.outgoing.toList).count n.self = 0 :=
        Nat.le_zero.1 (ht.named.count_le _)
      rw [h0, Nat.add_zero, ht.inRing, ht.joining]
      exact ⟨hc.out i n hi, hc.asked i n hi⟩
    · -- a ring of one: nothing was waiting, and nothing names the member
      have hwait := hop _ n rfl hi
      have h0 : (joinersOf t.outgoing.toList).count n.self = 0 :=
        Nat.le_zero.1 (ht.named.count_le _)
      have hask := hc.asked i n hi
      rw [hwait] at hask
      rw [h0, ht.joining]
      exact ⟨by simp, by simpa using hask⟩
    · -- a join through another member: one request names the member
      have hask : c.asking n.self = 0 := by simpa [hop l n rfl hi] using hc.asked i n hi
      have h1 : (joinersOf t.outgoing.toList).count n.self ≤ 1 :=
        (count_le_of_sublist hJ n.self).trans (by split <;> omega)
      rw [ht.joining, ht.inRing, if_pos rfl]
      exact ⟨fun _ => rfl, by omega⟩
    · -- a leave from the ring: nothing was waiting, and nothing names the member
      have hwait : n.ring.joining = false := by
        by_contra hj
        have := hc.out i n hi (by simpa using hj)
        rw [hin] at this
        cases this
      have h0 : (joinersOf t.outgoing.toList).count n.self = 0 :=
        Nat.le_zero.1 (ht.named.count_le _)
      have hask := hc.asked i n hi
      rw [hwait] at hask
      rw [h0, ht.joining]
      exact ⟨by simp, by simpa using hask⟩
  · -- another member: the request names nobody but its sender
    have hne : n.self.wire ≠ m.self :=
      (haddr.wired j m hm).wire_ne (haddr.self_ne hi hm hji).symm
    have h0 := count_le_of_sublist hJ m.self
    rw [if_neg hne] at h0
    have := hc.asked j m hm
    omega

/-- Handling a queued datagram keeps the bookkeeping: what the handler passes on names at
most the datagram's own joiner, and a join answer lets in only a member it names, which then
waits for nothing more. -/
theorem Awaiting.deliver {c : Cluster} (hc : c.Awaiting) {k : Nat} {d : Datagram}
    (hd : c.queue.toList[k]? = some d) {i : Nat} {n : Node} (hi : c.members[i]? = some n) :
    ((c.taken k d).afterTurn i n
      ((Node.receive d.src d.data).run ((c.taken k d).startTurn n)).2).Awaiting := by
  have hi' : (c.taken k d).members[i]? = some n := hi
  have ht := NodeM.run_of_triple (@receive_joins _ _ _ _ d.src d.data)
    (Turn.Joins.start (c.taken k d) n)
  set t := ((Node.receive d.src d.data).run ((c.taken k d).startTurn n)).2
  have hJ : (joinersOf t.outgoing.toList).Sublist (Message.joinerOf d.data).toList := by
    rcases ht with ht | ⟨-, -, ht⟩
    · simpa using ht.named
    · exact ht.named.trans (List.nil_sublist _)
  have hle : ∀ r, (c.taken k d).asking r + (joinersOf t.outgoing.toList).count r ≤ c.asking r :=
    fun r => by
      have := asking_taken hd r
      have := hJ.count_le r
      omega
  refine afterTurn_awaiting hi' ?_ fun j m _ hm =>
    ⟨hc.out j m hm, (hle m.self).trans (hc.asked j m hm)⟩
  rcases ht with ht | ⟨⟨tx, l, s, hdec⟩, -, ht⟩
  · rw [ht.self, ht.inRing, ht.joining]
    exact ⟨hc.out i n hi, (hle n.self).trans (hc.asked i n hi)⟩
  · -- a join answer naming the member was the one thing in flight for it
    have hnamed : Message.joinerOf d.data = some n.self := by
      rw [Message.joinerOf_of_decode hdec]
      rfl
    have htake := asking_taken hd n.self
    rw [hnamed] at htake
    have hask := hc.asked i n hi
    have h0 : (joinersOf t.outgoing.toList).count n.self = 0 :=
      Nat.le_zero.1 (ht.named.count_le _)
    rw [ht.self, ht.joining, h0]
    refine ⟨by simp, ?_⟩
    split at hask <;> simp at htake <;> simp <;> omega

theorem Step.awaiting {allowed : Cluster → Nat → Op → Prop}
    (hjo : ∀ c i op, allowed c i op → JoinsOnce c i op) {c c' : Cluster} (hs : Step allowed c c')
    (hc : c.Awaiting) (haddr : c.Addressed) : c'.Awaiting := by
  rcases hs.cases with rfl | ⟨i, n, op, ha, hi, rfl⟩ | ⟨k, d, hd, ⟨rfl, -⟩ | ⟨i, n, -, hi, rfl⟩⟩
  · exact hc
  · exact hc.act haddr hi (hjo _ _ _ ha)
  · exact hc.taken hd
  · exact hc.deliver hd hi

theorem Run.awaiting {allowed : Cluster → Nat → Op → Prop}
    (hjo : ∀ c i op, allowed c i op → JoinsOnce c i op) {c₀ c : Cluster}
    (hrun : Run allowed c₀ c) (h₀ : c₀.Awaiting) (haddr : c₀.Addressed) :
    c.Awaiting ∧ c.Addressed := by
  have hstep : ∀ x x', x.Awaiting ∧ x.Addressed → Step allowed x x' →
      x'.Awaiting ∧ x'.Addressed :=
    fun _ _ ⟨hx, hax⟩ hs => ⟨hs.awaiting hjo hx hax, hax.of_selves hs.selves⟩
  exact Run.invariant hstep hrun ⟨h₀, haddr⟩

/-- The requests in which no member is asked to join while its own earlier join waits, and
member `j` is not asked to join at all. -/
def Unasked (j : Nat) (c : Cluster) (i : Nat) (op : Op) : Prop :=
  JoinsOnce c i op ∧ ∀ l, op = .join l → i ≠ j

theorem Run.stays_out {j : Nat} {c c' : Cluster} (hrun : Run (Unasked j) c c')
    (hc : c.Awaiting) (haddr : c.Addressed)
    (hj : ∀ n, c.members[j]? = some n → n.ring.inRing = false ∧ n.ring.joining = false) :
    ∀ n', c'.members[j]? = some n' → n'.ring.inRing = false ∧ n'.ring.joining = false := by
  have hstep : ∀ x x', (x.Awaiting ∧ x.Addressed ∧
      ∀ n, x.members[j]? = some n → n.ring.inRing = false ∧ n.ring.joining = false) →
      Step (Unasked j) x x' → x'.Awaiting ∧ x'.Addressed ∧
        ∀ n, x'.members[j]? = some n → n.ring.inRing = false ∧ n.ring.joining = false := by
    intro x x' ⟨hx, hax, hxj⟩ hs
    refine ⟨hs.awaiting (fun _ _ _ h => h.1) hx hax, hax.of_selves hs.selves, fun n' hn' => ?_⟩
    obtain ⟨n, hn, -⟩ := exists_member_of_selves hs.selves hn'
    obtain ⟨hout, hwait⟩ := hxj n hn
    rcases hs.flags hax hn hn' with ⟨hi, hw⟩ | ⟨l, ha, -⟩ | ⟨-, -, hin, -⟩ |
      ⟨k, d, tx, l, s, hd, -, hdec, -⟩
    · exact ⟨hi.trans hout, hw.trans hwait⟩
    · exact absurd rfl (ha.2 l rfl)
    · rw [hout] at hin
      cases hin
    · -- a join answer naming the member would be in flight, but nothing names it
      have htake := asking_taken hd n.self
      rw [Message.joinerOf_of_decode hdec] at htake
      have hask : x.asking n.self = 0 := by simpa [hwait] using hx.asked j n hn
      simp [Body.joiner] at htake
      omega
  exact (Run.invariant hstep hrun ⟨hc, haddr, hj⟩).2.2

theorem leave_flags {c : Cluster} {j : Nat} {n m : Node} (hn : c.members[j]? = some n)
    (hin : n.ring.inRing = true) (hm : (c.turn j Op.leave.act).2.members[j]? = some m) :
    m.ring.inRing = false ∧ m.ring.joining = false := by
  rw [turn_run hn] at hm
  obtain rfl := afterTurn_self hn hm
  have ht := NodeM.run_of_triple act_leave_joins
    (show (c.startTurn n).Joins n.self true n.ring.joining [] from
      ⟨rfl, hin, rfl, by simp [startTurn, joinersOf]⟩)
  exact ⟨ht.inRing, ht.joining⟩

/-- A node enters the ring only when asked to. From fresh nodes at distinct four-octet
addresses: in every run, whatever the requests, duplicated joins included, a member that is
out of the ring before a step and in it after took that step in its own join through itself,
or in handling a join answer that names it. In runs where no member is asked to join while
its own earlier join waits for its answer, a member stays out of the ring, from its creation
or from its leave of the ring, through every later run in which it is not asked to join. -/
theorem enters_only_when_asked {c₀ : Cluster} (hfresh : c₀.Fresh) (haddr : c₀.Addressed) :
    (∀ (allowed : Cluster → Nat → Op → Prop) (c c' : Cluster) (j : Nat) (n n' : Node),
      Run allowed c₀ c → Step allowed c c' → c.members[j]? = some n →
      c'.members[j]? = some n' → n.ring.inRing = false → n'.ring.inRing = true →
      (allowed c j (.join n.self) ∧ c' = (c.turn j (Op.join n.self).act).2) ∨
      ∃ k d tx l s, c.queue.toList[k]? = some d ∧ c.handlerOf d.dst = some j ∧
        Message.decode d.data = .ok ⟨tx, .joinRsp n.self l s⟩ ∧ c' = c.deliverAt k) ∧
    (∀ (j : Nat) (c' : Cluster) (n' : Node), Run (Unasked j) c₀ c' →
      c'.members[j]? = some n' → n'.ring.inRing = false) ∧
    (∀ (c c' : Cluster) (j : Nat) (n n' : Node), Run JoinsOnce c₀ c →
      c.members[j]? = some n → n.ring.inRing = true →
      Run (Unasked j) (c.turn j Op.leave.act).2 c' → c'.members[j]? = some n' →
      n'.ring.inRing = false) := by
  refine ⟨?_, ?_, ?_⟩
  · intro allowed c c' j n n' hrun hs hn hn' hout hin
    have hc : c.Addressed := haddr.of_selves hrun.selves
    rcases hs.flags hc hn hn' with ⟨hsame, -⟩ | ⟨l, ha, hc', -, ⟨rfl, -⟩ | ⟨-, hstay, -⟩⟩ |
      ⟨-, -, hwas, -⟩ | ⟨k, d, tx, l, s, hd, hh, hdec, hc', -⟩
    · rw [hout, hin] at hsame
      cases hsame
    · exact .inl ⟨ha, hc'⟩
    · rw [hin] at hstay
      cases hstay
    · rw [hout] at hwas
      cases hwas
    · exact .inr ⟨k, d, tx, l, s, hd, hh, hdec, hc'⟩
  · -- a fresh member is out of the ring and waits for nothing
    intro j c' n' hrun hn'
    refine (Run.stays_out hrun hfresh.awaiting haddr (fun n hn => ?_) n' hn').1
    rw [hfresh.2 n (Array.mem_of_getElem? hn)]
    exact ⟨rfl, rfl⟩
  · -- so is a member right after it left the ring
    intro c c' j n n' hrun hn hin hrun' hn'
    have hleave : Step JoinsOnce c (c.turn j Op.leave.act).2 :=
      @Step.act JoinsOnce c j .leave fun _ _ h => by cases h
    obtain ⟨hc₁, ha₁⟩ := Run.awaiting (fun _ _ _ h => h) (hrun.tail hleave) hfresh.awaiting haddr
    exact (Run.stays_out hrun' hc₁ ha₁ (fun _ hm => leave_flags hn hin hm) n' hn').1

theorem freshPair_addressed : freshPair.Addressed := by
  refine ⟨?_, fun j n hn => ?_⟩
  · have hne : (freshNode 1).self ≠ (freshNode 2).self := fun h => by
      have := congrArg NodeRef.num h
      simp [freshNode, NodeRef.make] at this
    simpa [freshPair] using hne
  · obtain ⟨os, hos, hlen, -⟩ := freshPair_onWire n (Array.mem_of_getElem? hn)
    exact ⟨os, hos, hlen⟩

theorem freshPair_enters_only_when_asked :
    freshPair.Fresh ∧ freshPair.Addressed ∧
    (∀ (allowed : Cluster → Nat → Op → Prop) (c c' : Cluster) (j : Nat) (n n' : Node),
      Run allowed freshPair c → Step allowed c c' → c.members[j]? = some n →
      c'.members[j]? = some n' → n.ring.inRing = false → n'.ring.inRing = true →
      (allowed c j (.join n.self) ∧ c' = (c.turn j (Op.join n.self).act).2) ∨
      ∃ k d tx l s, c.queue.toList[k]? = some d ∧ c.handlerOf d.dst = some j ∧
        Message.decode d.data = .ok ⟨tx, .joinRsp n.self l s⟩ ∧ c' = c.deliverAt k) ∧
    (∀ (j : Nat) (c' : Cluster) (n' : Node), Run (Unasked j) freshPair c' →
      c'.members[j]? = some n' → n'.ring.inRing = false) ∧
    (∀ (c c' : Cluster) (j : Nat) (n n' : Node), Run JoinsOnce freshPair c →
      c.members[j]? = some n → n.ring.inRing = true →
      Run (Unasked j) (c.turn j Op.leave.act).2 c' → c'.members[j]? = some n' →
      n'.ring.inRing = false) :=
  ⟨freshPair_fresh, freshPair_addressed,
    enters_only_when_asked freshPair_fresh freshPair_addressed⟩

end Cluster

end ChordSearch
