import ChordSearch.Proofs.Ring.Pointers
import ChordSearch.Proofs.Wire.Decoded

/-! # The ring a message may speak of

A ring that holds still is given by a `Frame`: its members, each at a four-octet address,
and their positions. A member is linked into it (`Frame.Linked`) when its successor and
predecessor are the members next to it going clockwise, and it holds a term only if it owns
it (`Frame.Placed`). What a message may say depends on where it goes (`Frame.Sendable`): a
stabilize request names the member before the one it reaches, its answer the member it
reaches, an answer for a key the key's owner, and a store request goes to the owner of its
term; nobody joins or leaves. The member it reaches may handle what that allows
(`Frame.Receivable`).

A node matches answers to lookups by transaction id alone. An answer for a key is matched
correctly when the node has drawn its id already and every lookup waiting under the id is
for that key (`Node.Coherent`). Ids are drawn in increasing order, so while the counter
does not wrap no lookup the node starts later waits under an id it had drawn, and coherence
lasts as the node moves on (`Node.Precedes`). A message is sound (`Frame.Sound`) when the
ring allows it and the lookup it carries is coherent where it will be matched.

The wire names node `0` at `0.0.0.0` as the unset reference (`NodeRef.wire`), so what the
ring allows a message to name is a member or the unset reference.
-/

namespace ChordSearch

/-! ### References on the wire -/

namespace NodeRef

/-- The reference is at a four-octet IPv4 address, as every node set up from a valid
configuration is. -/
def Wired (r : NodeRef) : Prop := ∃ os, r.addr = .v4 os ∧ os.length = 4

/-- The reference the wire delivers for `r`: node `0` at `0.0.0.0` is written as the unset
reference, every other reference as itself. -/
def wire (r : NodeRef) : NodeRef :=
  if r.num = 0 ∧ r.addr = .v4 [0, 0, 0, 0] then unset else r

theorem wire_eq_or (r : NodeRef) : r.wire = r ∨ r.wire = unset := by
  unfold wire
  split
  · exact .inr rfl
  · exact .inl rfl

theorem putNode_wire (r : NodeRef) : Codec.putNode r.wire = Codec.putNode r := by
  unfold wire
  split
  · next h =>
    rw [Codec.putNode, Codec.putNode, h.2, h.1]
    rfl
  · rfl

theorem Wired.exact_wire {r : NodeRef} (h : r.Wired) : r.wire.Exact := by
  obtain ⟨os, hos, hlen⟩ := h
  unfold wire
  split
  · exact .inl rfl
  · next hz => exact .inr ⟨os, hos, hlen, fun ⟨h0, h4⟩ => hz ⟨h0, by rw [hos, h4]⟩⟩

theorem Exact.wire_eq {r : NodeRef} (h : r.Exact) : r.wire = r := by
  rcases h with rfl | ⟨os, hos, -, hz⟩
  · unfold wire
    split <;> rfl
  · unfold wire
    rw [if_neg]
    rintro ⟨h0, h4⟩
    rw [hos, Address.v4.injEq] at h4
    exact hz ⟨h0, h4⟩

end NodeRef

/-- A body with every reference as the wire delivers it. -/
def Body.wire : Body → Body
  | .joinReq l r => .joinReq l.wire r.wire
  | .joinRsp r l s => .joinRsp r.wire l.wire s.wire
  | .departureReq s c => .departureReq s.wire c.wire
  | .stabilizeRsp p => .stabilizeRsp p.wire
  | .stabilizeReq s => .stabilizeReq s.wire
  | .ringStatePing o => .ringStatePing o.wire
  | .findSuccessorReq n s i => .findSuccessorReq n.wire s i
  | .findSuccessorRsp n s i => .findSuccessorRsp n.wire s i
  | b => b

theorem Body.kind_wire (b : Body) : b.wire.kind = b.kind := by
  cases b <;> rfl

theorem Body.putPayload_wire (b : Body) :
    Codec.putPayload b.wire.payload = Codec.putPayload b.payload := by
  cases b <;> simp [Body.wire, Body.payload, Codec.putPayload, NodeRef.putNode_wire]

theorem Message.encode_wire (tx : UInt32) (b : Body) :
    (⟨tx, b.wire⟩ : Message).encode = (⟨tx, b⟩ : Message).encode := by
  simp only [Message.encode, Body.kind_wire, Body.putPayload_wire]

theorem Message.tx_of_encode_decode {m m' : Message} {w : Bytes} (he : m.encode = .ok w)
    (hd : Message.decode w = .ok m') : m'.tx = m.tx := by
  obtain ⟨b₁, b₂, b₃, b₄, h4⟩ : ∃ b₁ b₂ b₃ b₄, Codec.u32 m.tx = [b₁, b₂, b₃, b₄] :=
    List.length_eq_four.1 (by simp [Codec.u32])
  have htx : UInt32.ofNat (Bytes.toNatBE [b₁, b₂, b₃, b₄]) = m.tx := by
    rw [← h4, Codec.u32, Bytes.toNatBE_ofNatBE, Nat.mod_eq_of_lt (by have := m.tx.toNat_lt; omega),
      UInt32.ofNat_toNat]
  unfold Message.encode at he
  split at he
  · cases he
    rw [h4] at hd
    simp only [List.cons_append, List.nil_append, Message.decode] at hd
    split at hd
    · cases hd
    · split at hd
      · cases hd
      · split at hd
        · cases hd
        · cases hd
          exact htx
        · cases hd
  · cases he
  · cases he

theorem Message.Carries.of_wire {P : Body → Prop} {tx : UInt32} {b : Body} (hx : b.wire.Exact)
    (hp : P b.wire) : (⟨tx, b⟩ : Message).Carries P := by
  intro w m' he hd
  rw [← Message.encode_wire] at he
  exact @Message.Carries.of_exact P ⟨tx, b.wire⟩ hx hp w m' he hd

theorem Message.Carries.mono {P Q : Body → Prop} {m : Message} (h : m.Carries P)
    (hPQ : ∀ b, P b → Q b) : m.Carries Q :=
  fun w m' he hd => hPQ _ (h w m' he hd)

open Codec in
theorem Message.carries_storeTerm {tx : UInt32} {t : Bytes} {d : List Bytes} :
    (⟨tx, .storeReq t d⟩ : Message).Carries fun b => ∃ d', b = .storeReq t d' := by
  intro w m' he hd
  have hpay : ∀ p, putPayload (.store t d) = .ok p →
      ∃ s, Codec.Fits t ∧ p = (u16 t.length ++ t) ++ s := by
    intro p hp
    simp only [putPayload, putStr] at hp
    split at hp
    · simp [bind, Except.bind] at hp
    · next hfit =>
      cases hs : putSet d with
      | error e => simp [hs, bind, Except.bind] at hp
      | ok s =>
        simp [hs, bind, Except.bind, pure, Except.pure] at hp
        exact ⟨s, by unfold Codec.Fits; omega, hp.symm⟩
  have hw : ∃ s, Codec.Fits t ∧ w = Kind.storeReq.tag :: (u32 tx ++ ((u16 t.length ++ t) ++ s)) := by
    unfold Message.encode at he
    cases hp : putPayload (Body.payload (.storeReq t d)) with
    | error e => rw [hp] at he; cases e <;> cases he
    | ok p =>
      rw [hp] at he
      obtain ⟨s, hfit, rfl⟩ := hpay p hp
      exact ⟨s, hfit, (Except.ok.inj he).symm⟩
  obtain ⟨s, hfit, rfl⟩ := hw
  obtain ⟨b₁, b₂, b₃, b₄, h4⟩ : ∃ b₁ b₂ b₃ b₄, u32 tx = [b₁, b₂, b₃, b₄] :=
    List.length_eq_four.1 (by simp [u32])
  rw [h4] at hd
  have hread := reads_str hfit s
  simp only [Message.decode, List.cons_append, List.nil_append, Kind.ofTag?_tag, Codec.body] at hd
  simp only [StateT.run_bind, hread] at hd
  cases hset : StateT.run Codec.set s with
  | none => simp [hset] at hd
  | some q =>
    obtain ⟨docs, left⟩ := q
    have hset' : Codec.set s = some (docs, left) := hset
    simp only [bind, pure, StateT.run, hset', Option.bind_some, StateT.pure] at hd
    split at hd
    · cases hd
    · next body heq =>
      obtain ⟨rfl, -⟩ := Prod.mk.inj (Option.some.inj heq)
      exact ⟨docs, by rw [← (Except.ok.inj hd)]⟩
    · cases hd

/-! ### The ring -/

theorem Ring.Follows.left_unique {ids : List RingId} {x x' y : RingId} (hx : x ∈ ids)
    (hx' : x' ∈ ids) (h : Follows ids x y) (h' : Follows ids x' y) : x = x' := by
  by_contra hne
  obtain ⟨hxy, hle⟩ := h.ne_of_mem hx' (Ne.symm hne)
  obtain ⟨hx'y, hle'⟩ := h'.ne_of_mem hx hne
  have h₁ := RingId.dist_add_of_le hle
  have h₂ := RingId.dist_add_of_le hle'
  have h₃ := RingId.dist_add_dist_comm hne
  have h₄ := RingId.dist_add_dist_comm hxy
  have h₅ := RingId.dist_add_dist_comm hx'y
  have hpos := ringSize_pos
  omega

/-- A ring that holds still: the references of its members, each at a four-octet address,
and their positions. -/
structure Frame where
  /-- The members. -/
  In : NodeRef → Prop
  /-- The positions of the members. -/
  ids : List RingId
  mem_ids : ∀ r, In r → r.id ∈ ids
  id_inj : ∀ r r', In r → In r' → r.id = r'.id → r = r'
  wired : ∀ r, In r → r.Wired

/-- The node's place in the ring: itself, whether it is a member, and its two neighbours. -/
def Node.links (n : Node) : NodeRef × Bool × NodeRef × NodeRef :=
  (n.self, n.ring.inRing, n.ring.successor, n.ring.predecessor)

theorem Node.links_eq {n n' : Node} : n'.links = n.links ↔ n'.self = n.self ∧
    n'.ring.inRing = n.ring.inRing ∧ n'.ring.successor = n.ring.successor ∧
    n'.ring.predecessor = n.ring.predecessor := by
  simp [links]

namespace Frame

variable (F : Frame)

/-- A node in the ring is a member, between its predecessor and its successor. -/
def Linked (n : Node) : Prop :=
  n.ring.inRing = true → F.In n.self ∧ F.In n.ring.successor ∧ F.In n.ring.predecessor ∧
    Ring.Follows F.ids n.self.id n.ring.successor.id ∧
    Ring.Follows F.ids n.ring.predecessor.id n.self.id

/-- Every term the node stores is one it owns: it is in the ring and the first member from
the term's key. -/
def Placed (n : Node) : Prop :=
  ∀ e ∈ n.search.store.map.entries,
    n.ring.inRing = true ∧ Ring.FirstFrom F.ids (RingId.hash e.1) n.self.id

/-- What the ring lets a message to `dst` say. A stabilize request names the member before
the one at `dst`, and a stabilize answer the member at `dst`; an answer for a key names its
owner; a store request goes to the owner of its term, or to no address; nobody joins or
leaves. A named member may read as the unset reference. -/
def Sendable (dst : Address) : Body → Prop
  | .stabilizeReq s => RefIn (fun s => F.In s ∧ ∃ r, F.In r ∧ r.addr = dst ∧
      Ring.Follows F.ids s.id r.id) s
  | .stabilizeRsp p => RefIn (fun p => F.In p ∧ p.addr = dst) p
  | .findSuccessorRsp o key _ => RefIn (fun o => F.In o ∧ Ring.FirstFrom F.ids key o.id) o
  | .storeReq t _ => dst = .unset ∨
      ∃ r, F.In r ∧ r.addr = dst ∧ Ring.FirstFrom F.ids (RingId.hash t) r.id
  | .joinReq _ _ | .joinRsp _ _ _ | .departureReq _ _ => False
  | _ => True

/-- What the ring lets node `n` receive: a stabilize request from its predecessor, a
stabilize answer naming itself, an answer naming the owner of its key, and a store request
for a term it owns. -/
def Receivable (n : Node) : Body → Prop
  | .stabilizeReq s => n.ring.inRing = true → s = NodeRef.unset ∨ s = n.ring.predecessor
  | .stabilizeRsp p => n.ring.inRing = true → p = NodeRef.unset ∨ p = n.self
  | .findSuccessorRsp o key _ => RefIn (fun o => F.In o ∧ Ring.FirstFrom F.ids key o.id) o
  | .storeReq t _ => n.ring.inRing = true ∧ Ring.FirstFrom F.ids (RingId.hash t) n.self.id
  | .joinReq _ _ | .joinRsp _ _ _ | .departureReq _ _ => False
  | _ => True

end Frame

/-! ### Lookups in flight -/

/-- An answer for `key` under `tx` is matched correctly at the node: the node has drawn `tx`
already, so no lookup it starts from now on waits under it, and every lookup waiting under
`tx` is for a term whose key is `key`. -/
def Node.Coherent (n : Node) (tx : UInt32) (key : RingId) : Prop :=
  tx.toNat ≤ n.lastTx.toNat ∧
    ∀ e ∈ n.search.lookups.entries, e.tx = tx → RingId.hash e.value.term = key

/-- `n'` is a later state of `n`: its counter is not behind, and every lookup it has waiting
under an id `n` had drawn was waiting at `n`. -/
def Node.Precedes (n n' : Node) : Prop :=
  n.lastTx.toNat ≤ n'.lastTx.toNat ∧
    ∀ e ∈ n'.search.lookups.entries, e.tx.toNat ≤ n.lastTx.toNat → e ∈ n.search.lookups.entries

/-- Every finger entry is numbered below `idBits`, so a finger request never travels under
the lookup index. -/
def Node.FingersIndexed (n : Node) : Prop := ∀ f ∈ n.ring.fingers, f.index < idBits

theorem ofNat_ne_lookupIndex {i : Nat} (h : i < idBits) : UInt32.ofNat i ≠ lookupIndex := by
  intro he
  have := congrArg UInt32.toNat he
  simp only [UInt32.toNat_ofNat', UInt32.toNat_ofNat, lookupIndex] at this
  unfold idBits at h
  omega

/-- The message asks for, or answers, the owner of `key` for a lookup of the node at `a`.
Only lookups travel under `lookupIndex`. -/
def Body.LookupOf (dst a : Address) (key : RingId) : Body → Prop
  | .findSuccessorReq r k i => i = lookupIndex ∧ k = key ∧ r.addr = a ∧ a.isSet = true
  | .findSuccessorRsp _ k i => i = lookupIndex ∧ k = key ∧ dst = a
  | _ => False

namespace Frame

variable (F : Frame) (E : Address → UInt32 → RingId → Prop)

/-- A message node `n` sends to `dst` is sound: the ring allows what it says, and a lookup it
carries is coherent where it will be matched, at `n` itself, then a ring member, or as `E`
says elsewhere. -/
def Sound (n : Node) (dst : Address) (m : Message) : Prop :=
  F.Sendable dst m.body ∧ ∀ a key, m.body.LookupOf dst a key →
    (a = n.self.addr → n.ring.inRing = true ∧ n.Coherent m.tx key) ∧
      (a ≠ n.self.addr → E a m.tx key)

/-- A message node `n` may handle: the ring allows it at `n`, and a lookup it carries is
coherent where it will be matched. -/
def Receives (n : Node) (m : Message) : Prop :=
  F.Receivable n m.body ∧ m.body.RefsExact ∧ ∀ a key, m.body.LookupOf n.self.addr a key →
    (a = n.self.addr → n.Coherent m.tx key) ∧ (a ≠ n.self.addr → E a m.tx key)

end Frame

theorem Tracker.mem_take {α : Type} {tr : Tracker α} {tx : UInt32} {e : Pending α}
    (h : e ∈ (tr.take tx).2.entries) : e ∈ tr.entries := by
  unfold Tracker.take at h
  split at h
  · exact List.mem_of_mem_filter h
  · exact h

theorem Tracker.take_found {α : Type} {tr : Tracker α} {tx : UInt32} {e : Pending α}
    (h : (tr.take tx).1 = some e) : e ∈ tr.entries ∧ e.tx = tx := by
  unfold Tracker.take at h
  split at h
  · next e' he =>
    cases h
    exact ⟨List.mem_of_find?_eq_some he, by simpa using List.find?_some he⟩
  · cases h

namespace Node

variable {n n' n'' : Node} {tx : UInt32} {key : RingId}

theorem Precedes.refl (n : Node) : n.Precedes n := ⟨le_rfl, fun _ he _ => he⟩

theorem Precedes.trans (h : n.Precedes n') (h' : n'.Precedes n'') : n.Precedes n'' :=
  ⟨h.1.trans h'.1, fun e he hle => h.2 e (h'.2 e he (hle.trans h.1)) hle⟩

theorem Precedes.of_eq (hx : n'.lastTx = n.lastTx) (hl : n'.search.lookups = n.search.lookups) :
    n.Precedes n' :=
  ⟨(congrArg UInt32.toNat hx).ge, fun _ he _ => hl ▸ he⟩

theorem Coherent.precedes (h : n.Coherent tx key) (hp : n.Precedes n') : n'.Coherent tx key :=
  ⟨h.1.trans hp.1, fun e he htx => h.2 e (hp.2 e he (htx ▸ h.1)) htx⟩

end Node

theorem Frame.Placed.of_links {F : Frame} {n n' : Node} (h : F.Placed n) (hl : n'.links = n.links)
    (hs : n'.search.store = n.search.store) : F.Placed n' := by
  obtain ⟨hself, hin, -, -⟩ := Node.links_eq.1 hl
  intro e he
  rw [hs] at he
  rw [hin, hself]
  exact h e he

theorem RefIn.wire {P : NodeRef → Prop} {r : NodeRef} (h : P r) : RefIn P r.wire :=
  (NodeRef.wire_eq_or r).elim (fun he => .inr (by rw [he]; exact h)) .inl

theorem Body.lookupOf_request {dst a : Address} {k key : RingId} {r : NodeRef} {idx : UInt32}
    (h : (Body.findSuccessorReq r key idx).wire.LookupOf dst a k) :
    idx = lookupIndex ∧ key = k ∧ r.addr = a ∧ a.isSet = true := by
  simp only [Body.wire, Body.LookupOf] at h
  obtain ⟨hi, hk, ha, hs⟩ := h
  refine ⟨hi, hk, ?_, hs⟩
  rcases NodeRef.wire_eq_or r with he | he <;> rw [he] at ha
  · exact ha
  · -- the unset reference has no address
    subst ha
    simp [NodeRef.unset, NodeRef.unsetWith, NodeRef.make, Address.isSet] at hs

theorem Body.lookupOf_answer {dst a : Address} {k key : RingId} {o : NodeRef} {idx : UInt32}
    (h : (Body.findSuccessorRsp o key idx).wire.LookupOf dst a k) :
    idx = lookupIndex ∧ key = k ∧ dst = a := by
  simpa [Body.wire, Body.LookupOf] using h

namespace Frame

variable (F : Frame)

theorem sendable_stabilizeReq {s r : NodeRef} (hs : F.In s) (hr : F.In r)
    (hf : Ring.Follows F.ids s.id r.id) : F.Sendable r.addr (Body.stabilizeReq s).wire := by
  simp only [Body.wire, Sendable]
  exact RefIn.wire ⟨hs, r, hr, rfl, hf⟩

theorem sendable_stabilizeRsp {p : NodeRef} (hp : F.In p) :
    F.Sendable p.addr (Body.stabilizeRsp p).wire := by
  simp only [Body.wire, Sendable]
  exact RefIn.wire ⟨hp, rfl⟩

theorem sendable_answer {dst : Address} {o : NodeRef} {key : RingId} {idx : UInt32} (ho : F.In o)
    (hf : Ring.FirstFrom F.ids key o.id) : F.Sendable dst (Body.findSuccessorRsp o key idx).wire := by
  simp only [Body.wire, Sendable]
  exact RefIn.wire ⟨ho, hf⟩

end Frame

theorem Frame.Linked.of_links {F : Frame} {n n' : Node} (h : F.Linked n) (hl : n'.links = n.links) :
    F.Linked n' := by
  obtain ⟨hself, hin, hsucc, hpred⟩ := Node.links_eq.1 hl
  unfold Frame.Linked
  rw [hself, hin, hsucc, hpred]
  exact h

theorem Frame.Sound.of_precedes {F : Frame} {E : Address → UInt32 → RingId → Prop} {n n' : Node}
    {dst : Address} {m : Message} (h : F.Sound E n dst m) (hl : n'.links = n.links)
    (hp : n.Precedes n') : F.Sound E n' dst m := by
  obtain ⟨hself, hin, -, -⟩ := Node.links_eq.1 hl
  refine ⟨h.1, fun a key hk => ?_⟩
  rw [hself, hin]
  obtain ⟨h₁, h₂⟩ := h.2 a key hk
  exact ⟨fun ha => ⟨(h₁ ha).1, (h₁ ha).2.precedes hp⟩, h₂⟩

theorem Turn.coherent_started (t : Turn) (now : Int) (l : PendingLookup) :
    (t.drawTx.mapSearch fun s => { s with lookups := s.lookups.add now (t.node.lastTx + 1) l
      }).node.Coherent (t.node.lastTx + 1) (RingId.hash l.term) := by
  refine ⟨by simp, fun e he htx => ?_⟩
  simp only [mapSearch_node, Tracker.add, List.mem_append, List.mem_filter, List.mem_singleton] at he
  rcases he with ⟨-, hne⟩ | rfl
  · simp [htx] at hne
  · rfl

/-- The message types the ring places no condition on. -/
def Kind.Plain (k : Kind) : Prop :=
  k = .pingReq ∨ k = .pingRsp ∨ k = .ringStatePing ∨ k = .fetchReq ∨ k = .fetchRsp

theorem Frame.carries_plain (F : Frame) (E : Address → UInt32 → RingId → Prop) {n : Node}
    {dst : Address} {m : Message} (hk : m.body.kind.Plain) :
    m.Carries fun b => F.Sound E n dst ⟨m.tx, b⟩ :=
  Message.Carries.of_kind fun b hb => by
    rw [← hb] at hk
    cases b <;> simp_all [Kind.Plain, Body.kind, Frame.Sound, Frame.Sendable, Body.LookupOf]

end ChordSearch
