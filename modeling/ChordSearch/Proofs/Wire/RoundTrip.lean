import Mathlib
import ChordSearch.Wire.Codec

/-! # What the wire carries unchanged

Writing a message and reading the datagram back gives the message again, as long as every
field is one the format represents exactly:

* a string of at most 65535 bytes (`Codec.Fits`);
* a set already in ascending byte order, of fewer than `2^32` such strings
  (`Codec.ExactSet`): sets are written sorted and read in written order;
* the unset node reference, or a node at an IPv4 address that is not node `0` at
  `0.0.0.0` (`NodeRef.Exact`): the unset reference is eight zero bytes, and so is that
  node, which therefore reads back as unset.

The readers are specified by `Codec.Reads r w v`: `r` consumes exactly `w` and yields `v`,
whatever follows. Field by field these compose (`Reads.bind`) into the readers of the
thirteen bodies (`reads_body`), and `Message.decode_encode` is the round trip of a whole
datagram: for a body with exact fields, writing succeeds and reading the bytes back gives
the message. A message sent is therefore its bytes `Message.bytes` (`encode_bytes`), which
read back as the message (`decode_bytes`).
-/

namespace ChordSearch

namespace Codec

/-- `r` consumes exactly the bytes `w` and yields `v`, whatever bytes follow. -/
def Reads {α : Type} (r : Reader α) (w : Bytes) (v : α) : Prop :=
  ∀ rest, r.run (w ++ rest) = some (v, rest)

section Reads

variable {α β : Type}

theorem Reads.bind {r : Reader α} {f : α → Reader β} {w₁ w₂ : Bytes} {a : α} {b : β}
    (h₁ : Reads r w₁ a) (h₂ : Reads (f a) w₂ b) : Reads (r >>= f) (w₁ ++ w₂) b := by
  intro rest
  rw [List.append_assoc]
  simpa [StateT.run_bind, h₁ (w₂ ++ rest)] using h₂ rest

theorem Reads.pure (a : α) : Reads (Pure.pure a : Reader α) [] a := by
  intro rest
  rfl

theorem Reads.bind_pure {r : Reader α} {w : Bytes} {a : α} (f : α → β) (h : Reads r w a) :
    Reads (r >>= fun x => Pure.pure (f x)) w (f a) := by
  intro rest
  simp [h rest]

theorem Reads.map {r : Reader α} {w : Bytes} {a : α} (f : α → β) (h : Reads r w a) :
    Reads (f <$> r) w (f a) := by
  intro rest
  simp [StateT.run_map, h rest]

theorem reads_take (w : Bytes) : Reads (take w.length) w w := by
  intro rest
  simp [take, StateT.run_bind, StateT.run_get, StateT.run_map, StateT.run_set]

theorem reads_number {n : Nat} (w : Nat) (h : n < 256 ^ w) : Reads (number w) (Bytes.ofNatBE w n) n := by
  have hr := (reads_take (Bytes.ofNatBE w n)).map Bytes.toNatBE
  rw [Bytes.length_ofNatBE, Bytes.toNatBE_ofNatBE, Nat.pow_eq, Nat.mod_eq_of_lt h] at hr
  intro rest
  simpa [number, StateT.run_bind] using hr rest

theorem reads_word (x : UInt32) : Reads word (u32 x) x := by
  have hr := (reads_number 4 (n := x.toNat) (by have := x.toNat_lt; omega)).map UInt32.ofNat
  rw [UInt32.ofNat_toNat] at hr
  intro rest
  simpa [word, u32, StateT.run_bind] using hr rest

/-- A string the wire carries: at most 65535 bytes. -/
def Fits (s : Bytes) : Prop := s.length ≤ 65535

theorem reads_str {s : Bytes} (h : Fits s) : Reads str (u16 s.length ++ s) s := by
  have hn : Reads (number 2) (u16 s.length) s.length := reads_number 2 (by unfold Fits at h; omega)
  exact hn.bind (reads_take s)

theorem putStr_eq {s : Bytes} (h : Fits s) : putStr s = .ok (u16 s.length ++ s) := by
  unfold Fits at h
  simp [putStr, Nat.not_lt.2 h]

/-- The bytes of a list of strings, each written with its length. -/
def strBytes (xs : List Bytes) : Bytes := (xs.map fun s => u16 s.length ++ s).flatten

theorem reads_strs {xs : List Bytes} (h : ∀ s ∈ xs, Fits s) : Reads (strs xs.length) (strBytes xs) xs := by
  induction xs with
  | nil => exact Reads.pure _
  | cons s xs ih =>
    have hs := reads_str (h s (List.mem_cons_self ..))
    have ht := ih fun t ht => h t (List.mem_cons_of_mem _ ht)
    have hc : Reads (strs (s :: xs).length) ((u16 s.length ++ s) ++ strBytes xs) (s :: xs) :=
      hs.bind (ht.bind_pure _)
    simpa [strBytes] using hc

theorem length_strBytes (xs : List Bytes) : xs.length * 2 ≤ (strBytes xs).length := by
  induction xs with
  | nil => simp [strBytes]
  | cons s xs ih =>
    simp only [strBytes, List.map_cons, List.flatten_cons, List.length_append, u16,
      Bytes.length_ofNatBE] at ih ⊢
    simp only [List.length_cons]
    omega

/-- A set the wire carries unchanged: already in ascending byte order, fewer than `2^32`
strings, each of which fits. -/
def ExactSet (xs : List Bytes) : Prop :=
  xs.Pairwise (fun a b => !Bytes.lexLt b a) ∧ xs.length < 2 ^ 32 ∧ ∀ s ∈ xs, Fits s

theorem reads_set_of_fits {xs : List Bytes} (hlen : xs.length < 2 ^ 32) (hfit : ∀ s ∈ xs, Fits s) :
    Reads set (Bytes.ofNatBE 4 xs.length ++ strBytes xs) xs := by
  have hn := reads_number 4 (n := xs.length) (by omega)
  have hs := reads_strs hfit
  have hlb := length_strBytes xs
  intro rest
  rw [List.append_assoc]
  have hrest : ¬ (strBytes xs).length + rest.length < xs.length * 2 := by omega
  simp [set, StateT.run_bind, hn (strBytes xs ++ rest), StateT.run_get, hrest, hs rest]

theorem reads_set {xs : List Bytes} (h : ExactSet xs) :
    Reads set (Bytes.ofNatBE 4 xs.length ++ strBytes xs) xs :=
  reads_set_of_fits h.2.1 h.2.2

theorem mapM_putStr {xs : List Bytes} (h : ∀ s ∈ xs, Fits s) :
    xs.mapM putStr = .ok (xs.map fun s => u16 s.length ++ s) := by
  induction xs with
  | nil => rfl
  | cons s xs ih =>
    simp only [List.mapM_cons, putStr_eq (h s (List.mem_cons_self ..)), List.map_cons,
      ih fun t ht => h t (List.mem_cons_of_mem _ ht)]
    rfl

theorem putSet_eq {xs : List Bytes} (h : ExactSet xs) :
    putSet xs = .ok (Bytes.ofNatBE 4 xs.length ++ strBytes xs) := by
  have hsort : Bytes.sort xs = xs := List.mergeSort_of_pairwise h.1
  simp [putSet, hsort, mapM_putStr h.2.2, strBytes]

theorem reads_ringId (x : RingId) : Reads ringId x.toBytes x := by
  have hr := (reads_take x.toBytes).map RingId.ofBytes
  rw [RingId.ofBytes_toBytes] at hr
  intro rest
  simpa [ringId, RingId.toBytes, StateT.run_bind] using hr rest

end Reads

end Codec

namespace NodeRef

theorem eq_make (n : NodeRef) : n = make n.num n.addr := by
  cases n with
  | mk num addr id h => subst h; rfl

/-- A set reference the wire carries unchanged: a node at a four-octet IPv4 address, other
than node `0` at `0.0.0.0`, which is written as the eight zero bytes of the unset
reference. -/
def OnWire (n : NodeRef) : Prop :=
  ∃ os, n.addr = .v4 os ∧ os.length = 4 ∧ ¬ (n.num = 0 ∧ os = [0, 0, 0, 0])

/-- A reference the wire carries unchanged: the unset reference, or one on the wire. -/
def Exact (n : NodeRef) : Prop := n = unset ∨ n.OnWire

theorem OnWire.isSet {n : NodeRef} (h : n.OnWire) : n.addr.isSet = true := by
  obtain ⟨os, hos, -⟩ := h
  simp [hos, Address.isSet]

theorem Exact.of_onWire {n : NodeRef} (h : n.OnWire) : n.Exact := .inr h

/-- The eight bytes of a reference. -/
def wireBytes (n : NodeRef) : Bytes :=
  match n.addr with
  | .v4 os => Codec.u32 n.num ++ os
  | _ => List.replicate 8 0

theorem putNode_eq {n : NodeRef} (h : n.Exact) : Codec.putNode n = .ok n.wireBytes := by
  rcases h with rfl | ⟨os, hos, -⟩
  · rfl
  · simp [Codec.putNode, wireBytes, hos]

theorem reads_node {n : NodeRef} (h : n.Exact) : Codec.Reads Codec.node n.wireBytes n := by
  rcases h with rfl | ⟨os, hos, hlen, hzero⟩
  · -- the unset reference: number zero and four zero octets
    intro rest
    have hw := Codec.reads_word 0 ([0, 0, 0, 0] ++ rest)
    have hz : (Codec.take 4).run (0 :: 0 :: 0 :: 0 :: rest) = some ([0, 0, 0, 0], rest) :=
      Codec.reads_take [0, 0, 0, 0] rest
    have : unset.wireBytes = Codec.u32 0 ++ [0, 0, 0, 0] := by decide
    rw [this, List.append_assoc]
    simp only [Codec.node, StateT.run_bind, hw]
    simp [hz]
  · have hw := Codec.reads_word n.num
    have hz := Codec.reads_take os
    rw [hlen] at hz
    intro rest
    simp only [wireBytes, hos, List.append_assoc]
    simp only [Codec.node, StateT.run_bind, hw (os ++ rest), hz rest, Option.bind_eq_bind,
      Option.bind_some]
    rw [if_neg hzero]
    rw [eq_make n, hos]
    rfl

end NodeRef

namespace Body

open Codec

/-- A body whose every field the wire carries unchanged. -/
def Exact : Body → Prop
  | .pingReq t | .pingRsp t => Fits t
  | .joinReq l r => l.Exact ∧ r.Exact
  | .joinRsp r l s => r.Exact ∧ l.Exact ∧ s.Exact
  | .departureReq s c => s.Exact ∧ c.Exact
  | .stabilizeRsp p => p.Exact
  | .stabilizeReq s => s.Exact
  | .ringStatePing o => o.Exact
  | .findSuccessorReq n _ _ | .findSuccessorRsp n _ _ => n.Exact
  | .storeReq t d => Fits t ∧ ExactSet d
  | .fetchReq _ k r a => Fits k ∧ ExactSet r ∧ ExactSet a
  | .fetchRsp d => ExactSet d

theorem reads_body (b : Body) (h : b.Exact) :
    ∃ r w, Codec.body b.kind = some r ∧ putPayload b.payload = .ok w ∧ Reads r w b := by
  cases b with
  | pingReq t => exact ⟨_, _, rfl, putStr_eq h, (reads_str h).map _⟩
  | pingRsp t => exact ⟨_, _, rfl, putStr_eq h, (reads_str h).map _⟩
  | joinReq l r =>
    refine ⟨_, l.wireBytes ++ r.wireBytes, rfl, ?_, ?_⟩
    · simp [payload, putPayload, NodeRef.putNode_eq h.1, NodeRef.putNode_eq h.2, bind, Except.bind, pure, Except.pure]
    · exact (NodeRef.reads_node h.1).bind ((NodeRef.reads_node h.2).bind_pure _)
  | joinRsp r l s =>
    refine ⟨_, r.wireBytes ++ (l.wireBytes ++ s.wireBytes), rfl, ?_, ?_⟩
    · simp [payload, putPayload, NodeRef.putNode_eq h.1, NodeRef.putNode_eq h.2.1,
        NodeRef.putNode_eq h.2.2, bind, Except.bind, pure, Except.pure]
    · exact (NodeRef.reads_node h.1).bind ((NodeRef.reads_node h.2.1).bind
        ((NodeRef.reads_node h.2.2).bind_pure _))
  | departureReq s c =>
    refine ⟨_, s.wireBytes ++ c.wireBytes, rfl, ?_, ?_⟩
    · simp [payload, putPayload, NodeRef.putNode_eq h.1, NodeRef.putNode_eq h.2, bind, Except.bind, pure, Except.pure]
    · exact (NodeRef.reads_node h.1).bind ((NodeRef.reads_node h.2).bind_pure _)
  | stabilizeRsp p => exact ⟨_, _, rfl, NodeRef.putNode_eq h, (NodeRef.reads_node h).map _⟩
  | stabilizeReq s => exact ⟨_, _, rfl, NodeRef.putNode_eq h, (NodeRef.reads_node h).map _⟩
  | ringStatePing o => exact ⟨_, _, rfl, NodeRef.putNode_eq h, (NodeRef.reads_node h).map _⟩
  | findSuccessorReq n s i =>
    refine ⟨_, n.wireBytes ++ (s.toBytes ++ u32 i), rfl, ?_, ?_⟩
    · simp [payload, putPayload, NodeRef.putNode_eq h, bind, Except.bind, pure, Except.pure]
    · exact (NodeRef.reads_node h).bind ((reads_ringId s).bind ((reads_word i).bind_pure _))
  | findSuccessorRsp n s i =>
    refine ⟨_, n.wireBytes ++ (s.toBytes ++ u32 i), rfl, ?_, ?_⟩
    · simp [payload, putPayload, NodeRef.putNode_eq h, bind, Except.bind, pure, Except.pure]
    · exact (NodeRef.reads_node h).bind ((reads_ringId s).bind ((reads_word i).bind_pure _))
  | storeReq t d =>
    refine ⟨_, (u16 t.length ++ t) ++ (Bytes.ofNatBE 4 d.length ++ strBytes d), rfl, ?_, ?_⟩
    · simp [payload, putPayload, putStr_eq h.1, putSet_eq h.2, bind, Except.bind, pure, Except.pure]
    · exact (reads_str h.1).bind ((reads_set h.2).bind_pure _)
  | fetchReq o k r a =>
    refine ⟨_, u32 o ++ ((u16 k.length ++ k) ++ ((Bytes.ofNatBE 4 r.length ++ strBytes r) ++
      (Bytes.ofNatBE 4 a.length ++ strBytes a))), rfl, ?_, ?_⟩
    · simp [payload, putPayload, putStr_eq h.1, putSet_eq h.2.1, putSet_eq h.2.2, bind, Except.bind, pure, Except.pure]
    · exact (reads_word o).bind ((reads_str h.1).bind ((reads_set h.2.1).bind
        ((reads_set h.2.2).bind_pure _)))
  | fetchRsp d => exact ⟨_, _, rfl, putSet_eq h, (reads_set h).map _⟩

end Body

theorem Message.decode_encode {m : Message} (h : m.body.Exact) :
    ∃ w, m.encode = .ok w ∧ Message.decode w = .ok m := by
  obtain ⟨r, p, hr, hp, hread⟩ := m.body.reads_body h
  obtain ⟨b₁, b₂, b₃, b₄, hw⟩ : ∃ b₁ b₂ b₃ b₄, Codec.u32 m.tx = [b₁, b₂, b₃, b₄] :=
    List.length_eq_four.1 (by simp [Codec.u32])
  have htx : UInt32.ofNat (Bytes.toNatBE [b₁, b₂, b₃, b₄]) = m.tx := by
    rw [← hw, Codec.u32, Bytes.toNatBE_ofNatBE, Nat.mod_eq_of_lt (by have := m.tx.toNat_lt; omega),
      UInt32.ofNat_toNat]
  refine ⟨m.body.kind.tag :: (Codec.u32 m.tx ++ p), by simp [Message.encode, hp], ?_⟩
  have hrun := hread []
  rw [List.append_nil] at hrun
  rw [hw]
  simp [Message.decode, Kind.ofTag?_tag, hr, hrun, htx]

/-- The bytes a message is written as; nothing when it cannot be written. -/
def Message.bytes (m : Message) : Bytes :=
  match m.encode with
  | .ok w => w
  | .error _ => []

theorem Message.encode_bytes {m : Message} (h : m.body.Exact) : m.encode = .ok m.bytes := by
  obtain ⟨w, hw, -⟩ := Message.decode_encode h
  simp [Message.bytes, hw]

theorem Message.decode_bytes {m : Message} (h : m.body.Exact) : Message.decode m.bytes = .ok m := by
  obtain ⟨w, hw, hd⟩ := Message.decode_encode h
  simpa [Message.bytes, hw] using hd

end ChordSearch
