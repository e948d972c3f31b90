import Mathlib
import ChordSearch.Proofs.Wire.Grammar
import ChordSearch.Proofs.Wire.RoundTrip

/-! # What writing and reading do to a message

A message's fields are written one after another (`Body.spell`): a string as its two length
bytes and its bytes, a set as its count and its strings in the order the set holds them, a
node reference as its eight bytes, a ring position as twenty bytes and a number as four.
Writing sorts every set first and reading keeps the order it finds, and the two meet in
these statements:

* writing succeeds exactly when every string, alone or in a set, fits in 65535 bytes and
  every node reference is unset or at an IPv4 address, and then gives the spelling of the
  message with its sets sorted (`Message.encode_eq_ok_iff`);
* reading succeeds exactly on the spellings of messages whose strings fit, whose sets hold
  fewer than `2 ^ 32` strings and whose references the wire carries unchanged, and gives
  that message (`Message.decode_eq_ok_iff`);
* so a message written and read back returns with its sets sorted and each reference as
  its eight bytes read (`NodeRef.received`): unset, whatever its number, when it has no
  address, and unset too for node `0` at `0.0.0.0`, whose bytes are the unset reference's
  (`Message.decode_encode_received`);
* and a message read and written again gives the bytes it was read from with every set
  sorted, so no other bytes read as it (`Message.encode_of_decode`).

Reading is described by `Codec.Consumes r R`: every run of `r` consumes a prefix of its
input, related by `R` to the value read. It is the converse of `Codec.Reads` and composes
along the readers the same way (`Consumes.bind`).
-/

namespace ChordSearch

namespace Bytes

theorem toNatBE_lt (b : Bytes) : toNatBE b < 256 ^ b.length := by
  induction b using List.reverseRecOn with
  | nil => simp [toNatBE]
  | append_singleton b x ih =>
    have hv : toNatBE (b ++ [x]) = toNatBE b * 256 + x.toNat := by simp [toNatBE]
    have hx : x.toNat < 256 := x.toNat_lt
    rw [hv, List.length_append, List.length_singleton, pow_succ]
    omega

theorem ofNatBE_toNatBE (b : Bytes) : ofNatBE b.length (toNatBE b) = b := by
  induction b using List.reverseRecOn with
  | nil => rfl
  | append_singleton b x ih =>
    have hv : toNatBE (b ++ [x]) = toNatBE b * 256 + x.toNat := by simp [toNatBE]
    have hx : x.toNat < 256 := x.toNat_lt
    have hdiv : (toNatBE b * 256 + x.toNat) / 256 = toNatBE b := by omega
    have hmod : (toNatBE b * 256 + x.toNat) % 256 = x.toNat := by omega
    rw [List.length_append, List.length_singleton, ofNatBE, hv, hdiv, hmod, ih, UInt8.ofNat_toNat]

@[simp] theorem length_sort (xs : List Bytes) : (sort xs).length = xs.length :=
  List.length_mergeSort _

@[simp] theorem mem_sort {s : Bytes} {xs : List Bytes} : s ∈ sort xs ↔ s ∈ xs :=
  List.mem_mergeSort

theorem not_lexLt_trans {a b c : Bytes} (hab : lexLt b a = false) (hbc : lexLt c b = false) :
    lexLt c a = false := by
  cases hca : lexLt c a
  · rfl
  · -- `c` before `a` puts `c` before `b` too, whichever of `a` and `b` comes first
    rcases lexLt_total a b with h | rfl | h
    · rw [lexLt_trans hca h] at hbc
      exact absurd hbc (by decide)
    · rw [hca] at hbc
      exact absurd hbc (by decide)
    · rw [h] at hab
      exact absurd hab (by decide)

theorem sort_eq_self_iff (xs : List Bytes) : sort xs = xs ↔ xs.Pairwise fun a c => !lexLt c a := by
  constructor
  · intro h
    rw [← h]
    refine List.pairwise_mergeSort (fun a b c hab hbc => ?_) (fun a b => ?_) xs
    · simp only [Bool.not_eq_true'] at hab hbc ⊢
      exact not_lexLt_trans hab hbc
    · cases h : lexLt b a
      · rfl
      · simp [lexLt_asymm h]
  · exact List.mergeSort_of_pairwise

end Bytes

namespace Codec

/-- A set as written: its count, then its strings in the order given. -/
def setBytes (xs : List Bytes) : Bytes := Bytes.ofNatBE 4 xs.length ++ strBytes xs

/-- A set the wire carries: fewer than `2 ^ 32` strings, each of which fits. -/
def FitsSet (xs : List Bytes) : Prop := xs.length < 2 ^ 32 ∧ ∀ s ∈ xs, Fits s

theorem length_u32 (x : UInt32) : (u32 x).length = 4 := Bytes.length_ofNatBE _ _

theorem ofNat_toNatBE_u32 (x : UInt32) : UInt32.ofNat (Bytes.toNatBE (u32 x)) = x := by
  rw [u32, Bytes.toNatBE_ofNatBE, Nat.mod_eq_of_lt (by have := x.toNat_lt; omega),
    UInt32.ofNat_toNat]

theorem u32_ofNat_toNatBE {b : Bytes} (h : b.length = 4) :
    u32 (UInt32.ofNat (Bytes.toNatBE b)) = b := by
  have hlt := Bytes.toNatBE_lt b
  have hb := Bytes.ofNatBE_toNatBE b
  rw [h] at hlt hb
  rw [u32, UInt32.toNat_ofNat_of_lt' (lt_of_lt_of_eq hlt (by decide)), hb]

end Codec

theorem RingId.toBytes_ofBytes {b : Bytes} (h : b.length = 20) : (ofBytes b).toBytes = b := by
  have hlt := Bytes.toNatBE_lt b
  have hb := Bytes.ofNatBE_toNatBE b
  rw [h] at hlt hb
  rw [toBytes, ofBytes, toNat_ofNat, Nat.mod_eq_of_lt (lt_of_lt_of_eq hlt (by decide)), hb]

namespace NodeRef

/-- A reference that can be written: unset, or at an IPv4 address. -/
def Writable (n : NodeRef) : Prop := n.isUnset = true ∨ n.addr.isV4 = true

/-- What reading a written reference gives back: the unset reference for one without an
address, whatever its number, and for node `0` at `0.0.0.0`, whose eight bytes are the
unset reference's; any other reference itself. -/
def received (n : NodeRef) : NodeRef :=
  if n.isUnset = true ∨ (n.num = 0 ∧ n.addr = .v4 [0, 0, 0, 0]) then unset else n

theorem Exact.writable {n : NodeRef} (h : n.Exact) : n.Writable := by
  rcases h with rfl | ⟨os, hos, -⟩
  · exact .inl rfl
  · exact .inr (by simp [hos, Address.isV4])

@[simp] theorem wireBytes_received (n : NodeRef) : n.received.wireBytes = n.wireBytes := by
  unfold received
  split
  · next h =>
    rw [show unset.wireBytes = List.replicate 8 0 from rfl]
    rcases h with h | ⟨h0, ha⟩
    · -- no address: both are the eight zero bytes
      have ha : n.addr = .unset := by
        cases hn : n.addr <;> simp_all [isUnset, Address.isSet]
      simp [wireBytes, ha]
    · simp [wireBytes, ha, h0]
      rfl
  · rfl

theorem exact_received {n : NodeRef} (hw : n.Writable)
    (h4 : ∀ os, n.addr = .v4 os → os.length = 4) : n.received.Exact := by
  unfold received
  split
  · exact .inl rfl
  · next h =>
    obtain ⟨os, hos⟩ : ∃ os, n.addr = .v4 os := by
      rcases hw with hu | hv
      · exact absurd (.inl hu) h
      · cases ha : n.addr <;> simp_all [Address.isV4]
    refine .inr ⟨os, hos, h4 os hos, ?_⟩
    rintro ⟨h0, rfl⟩
    exact h (.inr ⟨h0, hos⟩)

end NodeRef

namespace Body

open Codec

/-- The strings of a body outside its sets: a ping's text, a store's term, a fetch's key. -/
def texts : Body → List Bytes
  | .pingReq t | .pingRsp t | .storeReq t _ | .fetchReq _ t _ _ => [t]
  | .joinReq .. | .joinRsp .. | .departureReq .. | .stabilizeRsp _ | .stabilizeReq _
  | .ringStatePing _ | .findSuccessorReq .. | .findSuccessorRsp .. | .fetchRsp _ => []

/-- The sets of a body: a store's and a fetch reply's documents, and a fetch's remaining and
accumulated documents. -/
def sets : Body → List (List Bytes)
  | .storeReq _ d | .fetchRsp d => [d]
  | .fetchReq _ _ r a => [r, a]
  | .pingReq _ | .pingRsp _ | .joinReq .. | .joinRsp .. | .departureReq .. | .stabilizeRsp _
  | .stabilizeReq _ | .ringStatePing _ | .findSuccessorReq .. | .findSuccessorRsp .. => []

/-- The node references of a body, in the order they are written. -/
def refs : Body → List NodeRef
  | .joinReq a b | .departureReq a b => [a, b]
  | .joinRsp a b c => [a, b, c]
  | .stabilizeRsp n | .stabilizeReq n | .ringStatePing n | .findSuccessorReq n _ _
  | .findSuccessorRsp n _ _ => [n]
  | .pingReq _ | .pingRsp _ | .storeReq .. | .fetchReq .. | .fetchRsp _ => []

/-- The body with `f` applied to every set and `g` to every node reference. -/
def mapFields (f : List Bytes → List Bytes) (g : NodeRef → NodeRef) : Body → Body
  | .pingReq t => .pingReq t
  | .pingRsp t => .pingRsp t
  | .joinReq l r => .joinReq (g l) (g r)
  | .joinRsp r l s => .joinRsp (g r) (g l) (g s)
  | .departureReq s c => .departureReq (g s) (g c)
  | .stabilizeRsp p => .stabilizeRsp (g p)
  | .stabilizeReq s => .stabilizeReq (g s)
  | .ringStatePing o => .ringStatePing (g o)
  | .findSuccessorReq n s i => .findSuccessorReq (g n) s i
  | .findSuccessorRsp n s i => .findSuccessorRsp (g n) s i
  | .storeReq t d => .storeReq t (f d)
  | .fetchReq o k r a => .fetchReq o k (f r) (f a)
  | .fetchRsp d => .fetchRsp (f d)

/-- The bytes of a body's fields in order, every set written in the order it holds its
strings. -/
def spell : Body → Bytes
  | .pingReq t | .pingRsp t => u16 t.length ++ t
  | .joinReq l r => l.wireBytes ++ r.wireBytes
  | .joinRsp r l s => r.wireBytes ++ (l.wireBytes ++ s.wireBytes)
  | .departureReq s c => s.wireBytes ++ c.wireBytes
  | .stabilizeRsp n | .stabilizeReq n | .ringStatePing n => n.wireBytes
  | .findSuccessorReq n s i | .findSuccessorRsp n s i => n.wireBytes ++ (s.toBytes ++ u32 i)
  | .storeReq t d => (u16 t.length ++ t) ++ setBytes d
  | .fetchReq o k r a => u32 o ++ ((u16 k.length ++ k) ++ (setBytes r ++ setBytes a))
  | .fetchRsp d => setBytes d

/-- A body that can be written: every string, alone or in a set, fits, and every reference
is unset or at an IPv4 address. -/
def Writable (b : Body) : Prop :=
  (∀ s ∈ b.texts, Fits s) ∧ (∀ xs ∈ b.sets, ∀ s ∈ xs, Fits s) ∧ ∀ n ∈ b.refs, n.Writable

/-- The bounds of the types a message is made of: a set holds fewer than `2 ^ 32` strings,
and an IPv4 address has four octets. -/
def Sized (b : Body) : Prop :=
  (∀ xs ∈ b.sets, xs.length < 2 ^ 32) ∧ ∀ n ∈ b.refs, ∀ os, n.addr = .v4 os → os.length = 4

/-- A body that reading can give: strings and sets that fit, and references the wire
carries unchanged. -/
def Readable (b : Body) : Prop :=
  (∀ s ∈ b.texts, Fits s) ∧ (∀ xs ∈ b.sets, FitsSet xs) ∧ ∀ n ∈ b.refs, n.Exact

/-- Every set of the body is in ascending byte order. -/
def SetsSorted (b : Body) : Prop := ∀ xs ∈ b.sets, xs.Pairwise fun a c => !Bytes.lexLt c a

/-- The body as writing puts it: every set sorted. -/
def sortSets (b : Body) : Body := b.mapFields Bytes.sort id

/-- The body as writing and reading back give it: every set sorted, and every reference as
its eight bytes read. -/
def received (b : Body) : Body := b.mapFields Bytes.sort NodeRef.received

section MapFields

variable (f : List Bytes → List Bytes) (g : NodeRef → NodeRef) (b : Body)

@[simp] theorem kind_mapFields : (b.mapFields f g).kind = b.kind := by cases b <;> rfl

@[simp] theorem texts_mapFields : (b.mapFields f g).texts = b.texts := by cases b <;> rfl

@[simp] theorem sets_mapFields : (b.mapFields f g).sets = b.sets.map f := by cases b <;> rfl

@[simp] theorem refs_mapFields : (b.mapFields f g).refs = b.refs.map g := by cases b <;> rfl

theorem spell_mapFields {g' : NodeRef → NodeRef} (h : ∀ n, (g n).wireBytes = (g' n).wireBytes) :
    (b.mapFields f g).spell = (b.mapFields f g').spell := by
  cases b <;> simp [mapFields, spell, h]

theorem mapFields_id_eq_self_iff : b.mapFields f id = b ↔ ∀ xs ∈ b.sets, f xs = xs := by
  cases b <;> simp [mapFields, sets]

end MapFields

theorem Readable.writable {b : Body} (h : b.Readable) : b.Writable :=
  ⟨h.1, fun xs hxs => (h.2.1 xs hxs).2, fun n hn => (h.2.2 n hn).writable⟩

theorem Readable.sortSets {b : Body} (h : b.Readable) : b.sortSets.Readable := by
  obtain ⟨ht, hs, hn⟩ := h
  refine ⟨by simpa [Body.sortSets] using ht, ?_, by simpa [Body.sortSets] using hn⟩
  simp only [Body.sortSets, sets_mapFields, List.mem_map]
  rintro _ ⟨xs, hxs, rfl⟩
  exact ⟨by simpa using (hs xs hxs).1, by simpa using (hs xs hxs).2⟩

theorem Writable.readable_received {b : Body} (hw : b.Writable) (hs : b.Sized) :
    b.received.Readable := by
  obtain ⟨ht, hset, hn⟩ := hw
  obtain ⟨hcount, h4⟩ := hs
  refine ⟨by simpa [Body.received] using ht, ?_, ?_⟩
  · simp only [Body.received, sets_mapFields, List.mem_map]
    rintro _ ⟨xs, hxs, rfl⟩
    exact ⟨by simpa using hcount xs hxs, by simpa using hset xs hxs⟩
  · simp only [Body.received, refs_mapFields, List.mem_map]
    rintro _ ⟨n, hn', rfl⟩
    exact NodeRef.exact_received (hn n hn') (h4 n hn')

theorem spell_received (b : Body) : b.received.spell = b.sortSets.spell :=
  spell_mapFields _ _ b fun n => NodeRef.wireBytes_received n

theorem sortSets_eq_self_iff (b : Body) : b.sortSets = b ↔ b.SetsSorted := by
  rw [sortSets, mapFields_id_eq_self_iff]
  exact forall₂_congr fun xs _ => Bytes.sort_eq_self_iff xs

end Body

/-! ### Writing -/

namespace Codec

theorem bind_eq_ok_iff {ε α β : Type} {x : Except ε α} {f : α → Except ε β} {b : β} :
    x >>= f = .ok b ↔ ∃ a, x = .ok a ∧ f a = .ok b := by
  cases x <;> simp [bind, Except.bind]

theorem putStr_ok_iff {s w : Bytes} : putStr s = .ok w ↔ Fits s ∧ w = u16 s.length ++ s := by
  by_cases h : s.length > 65535
  · simp [putStr, Fits, h]
  · simp [putStr, Fits, h, eq_comm]
    omega

theorem mapM_putStr_ok_iff {xs ws : List Bytes} :
    xs.mapM putStr = .ok ws ↔ (∀ s ∈ xs, Fits s) ∧ ws = xs.map fun s => u16 s.length ++ s := by
  induction xs generalizing ws with
  | nil => simp [pure, Except.pure, eq_comm]
  | cons s xs ih =>
    simp [List.mapM_cons, bind_eq_ok_iff, putStr_ok_iff, ih, pure, Except.pure, @eq_comm _ ws,
      and_assoc]

theorem putSet_ok_iff {xs : List Bytes} {w : Bytes} :
    putSet xs = .ok w ↔ (∀ s ∈ xs, Fits s) ∧ w = setBytes (Bytes.sort xs) := by
  simp [putSet, bind_eq_ok_iff, mapM_putStr_ok_iff, setBytes, strBytes, pure, Except.pure,
    @eq_comm _ w]

theorem putNode_ok_iff {n : NodeRef} {w : Bytes} :
    putNode n = .ok w ↔ n.Writable ∧ w = n.wireBytes := by
  obtain ⟨num, addr, id, hid⟩ := n
  cases addr <;> simp [putNode, NodeRef.Writable, NodeRef.wireBytes, NodeRef.isUnset,
    Address.isSet, Address.isV4, eq_comm]

theorem putPayload_ok_iff {b : Body} {w : Bytes} :
    putPayload b.payload = .ok w ↔ b.Writable ∧ w = b.sortSets.spell := by
  cases b <;> simp [Body.payload, putPayload, Body.Writable, Body.texts, Body.sets, Body.refs,
    Body.sortSets, Body.mapFields, Body.spell, bind_eq_ok_iff, putStr_ok_iff, putNode_ok_iff,
    putSet_ok_iff, pure, Except.pure, @eq_comm _ w, and_assoc]

end Codec

theorem Message.encode_eq_ok_iff {m : Message} {w : Bytes} :
    m.encode = .ok w ↔
      m.body.Writable ∧ w = m.body.kind.tag :: (Codec.u32 m.tx ++ m.body.sortSets.spell) := by
  unfold Message.encode
  split
  · next p hp =>
    obtain ⟨hw, rfl⟩ := Codec.putPayload_ok_iff.1 hp
    simp [hw, @eq_comm _ w]
  all_goals
    next hp =>
    simp only [reduceCtorEq, false_iff, not_and]
    intro hw hwb
    rw [Codec.putPayload_ok_iff.2 ⟨hw, rfl⟩] at hp
    cases hp

/-! ### Reading -/

namespace Codec

/-- Every run of `r` consumes a prefix of its input, related by `R` to the value read. -/
def Consumes {α : Type} (r : Reader α) (R : α → Bytes → Prop) : Prop :=
  ∀ w v rest, r.run w = some (v, rest) → ∃ p, w = p ++ rest ∧ R v p

section Consumes

variable {α β : Type} {r : Reader α} {R : α → Bytes → Prop} {S : β → Bytes → Prop}

theorem Consumes.imp {T : α → Bytes → Prop} (h : Consumes r R) (hRT : ∀ a p, R a p → T a p) :
    Consumes r T := by
  intro w v rest hrun
  obtain ⟨p, hw, hp⟩ := h w v rest hrun
  exact ⟨p, hw, hRT v p hp⟩

theorem Consumes.bind {f : α → Reader β} (h : Consumes r R)
    (hf : ∀ a p, R a p → Consumes (f a) fun b q => S b (p ++ q)) : Consumes (r >>= f) S := by
  intro w v rest hrun
  rw [StateT.run_bind] at hrun
  obtain ⟨⟨a, mid⟩, ha, hb⟩ := Option.bind_eq_some_iff.1 hrun
  obtain ⟨p, rfl, hp⟩ := h w a mid ha
  obtain ⟨q, rfl, hq⟩ := hf a p hp mid v rest hb
  exact ⟨p ++ q, (List.append_assoc ..).symm, hq⟩

theorem Consumes.pure {b : β} (h : S b []) : Consumes (Pure.pure b : Reader β) S := by
  intro w v rest hrun
  cases hrun
  exact ⟨[], rfl, h⟩

theorem Consumes.map {f : α → β} (h : Consumes r R) (hf : ∀ a p, R a p → S (f a) p) :
    Consumes (f <$> r) S := by
  rw [map_eq_pure_bind]
  exact h.bind fun a p hp => Consumes.pure (by simpa using hf a p hp)

theorem Consumes.bind_pure {f : α → β} (h : Consumes r R) (hf : ∀ a p, R a p → S (f a) p) :
    Consumes (r >>= fun a => Pure.pure (f a)) S := by
  rw [bind_pure_comp]
  exact h.map hf

end Consumes

theorem consumes_take (n : Nat) : Consumes (take n) fun v p => p = v ∧ v.length = n := by
  intro w v rest hrun
  rw [take_run] at hrun
  split at hrun
  · next hn =>
    simp only [Option.some.injEq, Prod.mk.injEq] at hrun
    obtain ⟨rfl, rfl⟩ := hrun
    exact ⟨w.take n, (List.take_append_drop n w).symm, rfl, List.length_take_of_le hn⟩
  · cases hrun

theorem consumes_number (n : Nat) :
    Consumes (number n) fun v p => p = Bytes.ofNatBE n v ∧ v < 256 ^ n :=
  (consumes_take n).bind_pure fun b p ⟨hp, hlen⟩ => by
    subst hp hlen
    exact ⟨(Bytes.ofNatBE_toNatBE p).symm, Bytes.toNatBE_lt p⟩

theorem consumes_word : Consumes word fun v p => p = u32 v :=
  (consumes_number 4).bind_pure fun x p ⟨hp, hx⟩ => by
    have hlen : p.length = 4 := by rw [hp, Bytes.length_ofNatBE]
    have hv : Bytes.toNatBE p = x := by
      rw [hp, Bytes.toNatBE_ofNatBE, Nat.pow_eq, Nat.mod_eq_of_lt hx]
    rw [← hv, u32_ofNat_toNatBE hlen]

theorem consumes_ringId : Consumes ringId fun v p => p = v.toBytes :=
  (consumes_take 20).bind_pure fun b p ⟨hp, hlen⟩ => by
    rw [RingId.toBytes_ofBytes hlen, hp]

theorem consumes_str : Consumes str fun v p => p = u16 v.length ++ v ∧ Fits v :=
  (consumes_number 2).bind fun n p ⟨hp, hn⟩ =>
    (consumes_take n).imp fun s q ⟨hq, hlen⟩ => by
      subst hp hq hlen
      exact ⟨rfl, by unfold Fits; omega⟩

theorem consumes_strs :
    ∀ n, Consumes (strs n) fun v p => p = strBytes v ∧ v.length = n ∧ ∀ s ∈ v, Fits s
  | 0 => Consumes.pure ⟨rfl, rfl, by simp⟩
  | n + 1 =>
    consumes_str.bind fun s p ⟨hp, hs⟩ =>
      (consumes_strs n).bind fun v q ⟨hq, hlen, hv⟩ => Consumes.pure (by
        subst hp hq
        exact ⟨by simp [strBytes], by simp [hlen], List.forall_mem_cons.2 ⟨hs, hv⟩⟩)

theorem consumes_set : Consumes set fun v p => p = setBytes v ∧ FitsSet v := by
  intro w v rest hrun
  rw [set_run] at hrun
  split at hrun
  · next h4 =>
    split at hrun
    · cases hrun
    · obtain ⟨q, hq, hqv, hlen, hfit⟩ := consumes_strs _ (w.drop 4) v rest hrun
      have hcount := Bytes.ofNatBE_toNatBE (w.take 4)
      have hlt := Bytes.toNatBE_lt (w.take 4)
      rw [List.length_take_of_le h4] at hcount hlt
      refine ⟨w.take 4 ++ q, ?_, ?_, by omega, hfit⟩
      · rw [List.append_assoc, ← hq, List.take_append_drop]
      · rw [setBytes, hqv, hlen, hcount]
  · cases hrun

theorem consumes_node : Consumes node fun v p => p = v.wireBytes ∧ v.Exact :=
  consumes_word.bind fun num p hp => (consumes_take 4).bind fun ip q ⟨hq, hip⟩ => by
    subst p q
    split
    · next hz =>
      obtain ⟨rfl, rfl⟩ := hz
      exact Consumes.pure ⟨rfl, .inl rfl⟩
    · next hz =>
      exact Consumes.pure ⟨by simp [NodeRef.wireBytes, NodeRef.make], .inr ⟨ip, rfl, hip, hz⟩⟩

theorem consumes_body {k : Kind} {r : Reader Body} (h : Codec.body k = some r) :
    Consumes r fun v p => v.kind = k ∧ v.Readable ∧ p = v.spell := by
  cases k <;> simp only [Codec.body, Option.some.injEq, reduceCtorEq] at h <;> subst h
  case' pingReq | pingRsp => refine consumes_str.map fun _ _ h₁ => ?_
  case' joinReq | departureReq =>
    refine consumes_node.bind fun _ _ h₁ => consumes_node.bind fun _ _ h₂ => .pure ?_
  case' joinRsp =>
    refine consumes_node.bind fun _ _ h₁ => consumes_node.bind fun _ _ h₂ =>
      consumes_node.bind fun _ _ h₃ => .pure ?_
  case' stabilizeRsp | stabilizeReq | ringStatePing => refine consumes_node.map fun _ _ h₁ => ?_
  case' findSuccessorReq | findSuccessorRsp =>
    refine consumes_node.bind fun _ _ h₁ => consumes_ringId.bind fun _ _ h₂ =>
      consumes_word.bind fun _ _ h₃ => .pure ?_
  case' storeReq =>
    refine consumes_str.bind fun _ _ h₁ => consumes_set.bind fun _ _ h₂ => .pure ?_
  case' fetchReq =>
    refine consumes_word.bind fun _ _ h₁ => consumes_str.bind fun _ _ h₂ =>
      consumes_set.bind fun _ _ h₃ => consumes_set.bind fun _ _ h₄ => .pure ?_
  case' fetchRsp => refine consumes_set.map fun _ _ h₁ => ?_
  all_goals simp_all [Body.Readable, Body.texts, Body.sets, Body.refs, Body.spell, Body.kind]

theorem reads_spell {b : Body} (h : b.Readable) :
    ∃ r, Codec.body b.kind = some r ∧ Reads r b.spell b := by
  obtain ⟨ht, hs, hn⟩ := h
  cases b <;> simp only [Body.texts, Body.sets, Body.refs, List.forall_mem_cons,
    List.not_mem_nil, IsEmpty.forall_iff, implies_true, and_true] at ht hs hn
  case pingReq | pingRsp => exact ⟨_, rfl, (reads_str ht).map _⟩
  case joinReq | departureReq =>
    exact ⟨_, rfl, (NodeRef.reads_node hn.1).bind ((NodeRef.reads_node hn.2).bind_pure _)⟩
  case joinRsp =>
    exact ⟨_, rfl, (NodeRef.reads_node hn.1).bind ((NodeRef.reads_node hn.2.1).bind
      ((NodeRef.reads_node hn.2.2).bind_pure _))⟩
  case stabilizeRsp | stabilizeReq | ringStatePing => exact ⟨_, rfl, (NodeRef.reads_node hn).map _⟩
  case findSuccessorReq n s i | findSuccessorRsp n s i =>
    exact ⟨_, rfl, (NodeRef.reads_node hn).bind ((reads_ringId s).bind ((reads_word i).bind_pure _))⟩
  case storeReq =>
    exact ⟨_, rfl, (reads_str ht).bind ((reads_set_of_fits hs.1 hs.2).bind_pure _)⟩
  case fetchReq o _ _ _ =>
    exact ⟨_, rfl, (reads_word o).bind ((reads_str ht).bind ((reads_set_of_fits hs.1.1 hs.1.2).bind
      ((reads_set_of_fits hs.2.1 hs.2.2).bind_pure _)))⟩
  case fetchRsp => exact ⟨_, rfl, (reads_set_of_fits hs.1 hs.2).map _⟩

end Codec

namespace Message

open Codec

theorem decode_eq_ok_iff {w : Bytes} {m : Message} :
    decode w = .ok m ↔ m.body.Readable ∧ w = m.body.kind.tag :: (u32 m.tx ++ m.body.spell) := by
  constructor
  · intro h
    obtain ⟨t, tx, rest, k, r, rfl, htx, hk, hr, hrun⟩ := eq_of_decode_ok h
    obtain ⟨p, hp, hkind, hread, rfl⟩ := consumes_body hr rest m.body [] hrun
    rw [List.append_nil] at hp
    subst hp
    have hm : (⟨UInt32.ofNat (Bytes.toNatBE tx), m.body⟩ : Message) = m :=
      Except.ok.inj ((decode_whole htx hk hr hrun).symm.trans h)
    refine ⟨hread, ?_⟩
    rw [hkind, Kind.tag_of_ofTag? hk, ← hm, u32_ofNat_toNatBE htx]
  · rintro ⟨hread, rfl⟩
    obtain ⟨r, hr, hreads⟩ := reads_spell hread
    have hrun := hreads []
    rw [List.append_nil] at hrun
    rw [decode_whole (length_u32 _) (Kind.ofTag?_tag _) hr hrun, ofNat_toNatBE_u32]

end Message

theorem Body.eq_of_spell_eq {a b : Body} (ha : a.Readable) (hb : b.Readable)
    (hk : a.kind = b.kind) (h : a.spell = b.spell) : a = b := by
  have h₁ : Message.decode (a.kind.tag :: (Codec.u32 0 ++ a.spell)) = .ok ⟨0, a⟩ :=
    Message.decode_eq_ok_iff.2 ⟨ha, rfl⟩
  have h₂ : Message.decode (b.kind.tag :: (Codec.u32 0 ++ b.spell)) = .ok ⟨0, b⟩ :=
    Message.decode_eq_ok_iff.2 ⟨hb, rfl⟩
  rw [hk, h, h₂] at h₁
  simpa using h₁.symm

namespace Message

open Codec

/-- Writing a message succeeds exactly when every string, alone or in a set, fits and every
reference is unset or at an IPv4 address. Within the bounds of its types, the message then
reads back with its sets sorted and each reference as its eight bytes read. -/
theorem decode_encode_received (m : Message) (hs : m.body.Sized) :
    ((∃ w, m.encode = .ok w) ↔ m.body.Writable) ∧
      ∀ w, m.encode = .ok w → decode w = .ok ⟨m.tx, m.body.received⟩ := by
  refine ⟨⟨fun ⟨w, hw⟩ => (encode_eq_ok_iff.1 hw).1,
    fun hw => ⟨_, encode_eq_ok_iff.2 ⟨hw, rfl⟩⟩⟩, ?_⟩
  intro w hw
  obtain ⟨hwr, rfl⟩ := encode_eq_ok_iff.1 hw
  refine decode_eq_ok_iff.2 ⟨hwr.readable_received hs, ?_⟩
  -- the body read has the message's type, and is spelled as the body with sorted sets
  simp only [Body.spell_received]
  simp [Body.received]

/-- A set written out of order reads back sorted. -/
theorem store_reads_sorted :
    (Body.storeReq [116] [[98], [97]]).Sized ∧
      decode [20, 0, 0, 0, 1, 0, 1, 116, 0, 0, 0, 2, 0, 1, 97, 0, 1, 98] =
        .ok ⟨1, .storeReq [116] [[97], [98]]⟩ := by
  have hs : (Body.storeReq [116] [[98], [97]]).Sized := by simp [Body.Sized, Body.sets, Body.refs]
  have henc : encode ⟨1, .storeReq [116] [[98], [97]]⟩ =
      .ok [20, 0, 0, 0, 1, 0, 1, 116, 0, 0, 0, 2, 0, 1, 97, 0, 1, 98] := by cbv
  refine ⟨hs, ?_⟩
  rw [(decode_encode_received ⟨1, .storeReq [116] [[98], [97]]⟩ hs).2 _ henc]
  cbv

/-- Node `0` at `0.0.0.0` is written as the eight zero bytes of the unset reference, and so
reads back as the unset reference, which is another reference. -/
theorem zeroNode_reads_unset :
    encode ⟨1, .stabilizeReq (NodeRef.make 0 (.v4 [0, 0, 0, 0]))⟩ =
        .ok [7, 0, 0, 0, 1, 0, 0, 0, 0, 0, 0, 0, 0] ∧
      decode [7, 0, 0, 0, 1, 0, 0, 0, 0, 0, 0, 0, 0] = .ok ⟨1, .stabilizeReq NodeRef.unset⟩ ∧
      NodeRef.make 0 (.v4 [0, 0, 0, 0]) ≠ NodeRef.unset := by
  refine ⟨rfl, rfl, fun h => ?_⟩
  have := congrArg NodeRef.addr h
  simp [NodeRef.make, NodeRef.unset, NodeRef.unsetWith] at this

/-- A message read from a datagram is written again as that datagram with every set sorted:
the datagram is the message's spelling, writing gives the spelling with sorted sets, it
gives the datagram back exactly when the sets were sorted, and no other datagram reads as
the same message. -/
theorem encode_of_decode {b : Bytes} {m : Message} (h : decode b = .ok m) :
    b = m.body.kind.tag :: (u32 m.tx ++ m.body.spell) ∧
      m.encode = .ok (m.body.kind.tag :: (u32 m.tx ++ m.body.sortSets.spell)) ∧
      (m.encode = .ok b ↔ m.body.SetsSorted) ∧
      ∀ b', decode b' = .ok m → b' = b := by
  obtain ⟨hread, hb⟩ := decode_eq_ok_iff.1 h
  have henc : m.encode = .ok (m.body.kind.tag :: (u32 m.tx ++ m.body.sortSets.spell)) :=
    encode_eq_ok_iff.2 ⟨hread.writable, rfl⟩
  refine ⟨hb, henc, ?_, fun b' h' => (decode_eq_ok_iff.1 h').2.trans hb.symm⟩
  rw [henc, hb, Except.ok.injEq, List.cons.injEq, List.append_cancel_left_eq, ← Body.sortSets_eq_self_iff]
  -- sorting changes the spelling exactly when it changes the body
  constructor
  · rintro ⟨-, hspell⟩
    exact Body.eq_of_spell_eq hread.sortSets hread (by simp [Body.sortSets]) hspell
  · intro hsorted
    rw [hsorted]
    exact ⟨rfl, rfl⟩

/-- A store request whose documents arrive out of order is written again with them sorted. -/
theorem store_reencodes_sorted :
    decode [20, 0, 0, 0, 1, 0, 1, 116, 0, 0, 0, 2, 0, 1, 98, 0, 1, 97] =
        .ok ⟨1, .storeReq [116] [[98], [97]]⟩ ∧
      encode ⟨1, .storeReq [116] [[98], [97]]⟩ =
        .ok [20, 0, 0, 0, 1, 0, 1, 116, 0, 0, 0, 2, 0, 1, 97, 0, 1, 98] := by
  have h : decode [20, 0, 0, 0, 1, 0, 1, 116, 0, 0, 0, 2, 0, 1, 98, 0, 1, 97] =
      .ok ⟨1, .storeReq [116] [[98], [97]]⟩ := rfl
  refine ⟨h, ?_⟩
  rw [(encode_of_decode h).2.1]
  cbv

end Message

end ChordSearch
