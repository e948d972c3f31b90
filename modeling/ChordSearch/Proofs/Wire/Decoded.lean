import ChordSearch.Proofs.Wire.RoundTrip

/-! # What a datagram reads as

Whatever bytes arrive, a message read from them has the type its tag byte names, and every
node reference in it is one the wire carries unchanged: eight bytes read either as the unset
reference or as a node at a four-octet address other than node `0` at `0.0.0.0`
(`Message.decode_refsExact`). A message written and read back keeps its type
(`Message.kind_of_encode_decode`), whatever its fields, even ones the wire does not carry
unchanged.

The readers are described by `Codec.Yields r P`: every value `r` reads, from any bytes,
satisfies `P`. Such facts compose along the readers (`Yields.bind`), dual to `Codec.Reads`.
-/

namespace ChordSearch

namespace Codec

/-- Every value `r` reads, from any bytes, satisfies `P`. -/
def Yields {α : Type} (r : Reader α) (P : α → Prop) : Prop :=
  ∀ w v rest, r.run w = some (v, rest) → P v

section Yields

variable {α β : Type} {r : Reader α} {P : α → Prop} {Q : β → Prop}

theorem Yields.bind {f : α → Reader β} (h : Yields r P) (hf : ∀ a, P a → Yields (f a) Q) :
    Yields (r >>= f) Q := by
  intro w v rest hrun
  rw [StateT.run_bind] at hrun
  obtain ⟨⟨a, s⟩, ha, hf'⟩ := Option.bind_eq_some_iff.1 hrun
  exact hf a (h w a s ha) s v rest hf'

theorem Yields.pure {a : α} (h : P a) : Yields (Pure.pure a : Reader α) P := by
  intro w v rest hrun
  cases hrun
  exact h

theorem Yields.map {f : α → β} (h : Yields r P) (hf : ∀ a, P a → Q (f a)) :
    Yields (f <$> r) Q := by
  rw [map_eq_pure_bind]
  exact h.bind fun a ha => Yields.pure (hf a ha)

theorem Yields.true (r : Reader α) : Yields r fun _ => True := fun _ _ _ _ => trivial

end Yields

theorem yields_take (n : Nat) : Yields (take n) fun b => b.length = n := by
  intro w v rest hrun
  simp only [take, StateT.run_bind, StateT.run_get, pure_bind] at hrun
  split at hrun
  · next hn =>
    simp only [StateT.run_bind, StateT.run_set, pure_bind, StateT.run_pure] at hrun
    cases hrun
    simpa using hn
  · cases hrun

theorem yields_node : Yields node NodeRef.Exact := by
  refine (Yields.true word).bind fun num _ => (yields_take 4).bind fun ip hip => ?_
  split
  · exact Yields.pure (.inl rfl)
  · next hzero => exact Yields.pure (.inr ⟨ip, rfl, hip, hzero⟩)

end Codec

namespace Body

/-- Every node reference in the body is one the wire carries unchanged. -/
def RefsExact : Body → Prop
  | .joinReq l r => l.Exact ∧ r.Exact
  | .joinRsp r l s => r.Exact ∧ l.Exact ∧ s.Exact
  | .departureReq s c => s.Exact ∧ c.Exact
  | .stabilizeRsp p | .stabilizeReq p | .ringStatePing p => p.Exact
  | .findSuccessorReq n _ _ | .findSuccessorRsp n _ _ => n.Exact
  | .pingReq _ | .pingRsp _ | .storeReq .. | .fetchReq .. | .fetchRsp _ => True

end Body

open Codec in
theorem Codec.yields_body {k : Kind} {r : Reader Body} (h : Codec.body k = some r) :
    Yields r fun b => b.kind = k ∧ b.RefsExact := by
  have hn := yields_node
  have ht : ∀ {γ : Type} (x : Reader γ), Yields x fun _ => True := Yields.true
  cases k <;> simp only [Codec.body, Option.some.injEq, reduceCtorEq] at h <;> subst h
  · exact (ht str).map fun _ _ => ⟨rfl, trivial⟩
  · exact (ht str).map fun _ _ => ⟨rfl, trivial⟩
  · exact hn.bind fun _ h₁ => hn.bind fun _ h₂ => Yields.pure ⟨rfl, h₁, h₂⟩
  · exact hn.bind fun _ h₁ => hn.bind fun _ h₂ => hn.bind fun _ h₃ => Yields.pure ⟨rfl, h₁, h₂, h₃⟩
  · exact hn.bind fun _ h₁ => hn.bind fun _ h₂ => Yields.pure ⟨rfl, h₁, h₂⟩
  · exact hn.map fun _ h₁ => ⟨rfl, h₁⟩
  · exact hn.map fun _ h₁ => ⟨rfl, h₁⟩
  · exact hn.map fun _ h₁ => ⟨rfl, h₁⟩
  · exact hn.bind fun _ h₁ => (ht ringId).bind fun _ _ => (ht word).bind fun _ _ =>
      Yields.pure ⟨rfl, h₁⟩
  · exact hn.bind fun _ h₁ => (ht ringId).bind fun _ _ => (ht word).bind fun _ _ =>
      Yields.pure ⟨rfl, h₁⟩
  · exact (ht str).bind fun _ _ => (ht set).bind fun _ _ => Yields.pure ⟨rfl, trivial⟩
  · exact (ht word).bind fun _ _ => (ht str).bind fun _ _ => (ht set).bind fun _ _ =>
      (ht set).bind fun _ _ => Yields.pure ⟨rfl, trivial⟩
  · exact (ht set).map fun _ _ => ⟨rfl, trivial⟩

theorem Message.decode_kind_refsExact {w : Bytes} {m : Message} (h : Message.decode w = .ok m) :
    (∃ t rest, w = t :: rest ∧ Kind.ofTag? t = some m.body.kind) ∧ m.body.RefsExact := by
  unfold Message.decode at h
  split at h
  · next t b1 b2 b3 b4 rest =>
    split at h
    · cases h
    · next k hk =>
      split at h
      · cases h
      · next r hr =>
        split at h
        · cases h
        · next body hrun =>
          simp only [Except.ok.injEq] at h
          subst h
          obtain ⟨hkind, hexact⟩ := Codec.yields_body hr rest body [] hrun
          exact ⟨⟨t, _, rfl, hkind ▸ hk⟩, hexact⟩
        · cases h
  · cases h

theorem Message.decode_refsExact {w : Bytes} {m : Message} (h : Message.decode w = .ok m) :
    m.body.RefsExact :=
  (Message.decode_kind_refsExact h).2

theorem Message.kind_of_encode_decode {m m' : Message} {w : Bytes} (he : m.encode = .ok w)
    (hd : Message.decode w = .ok m') : m'.body.kind = m.body.kind := by
  obtain ⟨⟨t, rest, hw, ht⟩, -⟩ := Message.decode_kind_refsExact hd
  unfold Message.encode at he
  split at he
  · simp only [Except.ok.injEq] at he
    subst he
    simp only [List.cons_append, List.cons.injEq] at hw
    rw [← hw.1, Kind.ofTag?_tag, Option.some.injEq] at ht
    exact ht.symm
  · cases he
  · cases he

/-- Every message read back from the bytes `m` is written as has a body satisfying `P`. -/
def Message.Carries (P : Body → Prop) (m : Message) : Prop :=
  ∀ w m', m.encode = .ok w → Message.decode w = .ok m' → P m'.body

namespace Message.Carries

variable {P : Body → Prop} {m : Message}

theorem of_exact (h : m.body.Exact) (hp : P m.body) : m.Carries P := by
  intro w m' he hd
  obtain ⟨w', he', hd'⟩ := Message.decode_encode h
  rw [he, Except.ok.injEq] at he'
  subst he'
  rw [hd, Except.ok.injEq] at hd'
  rw [hd']
  exact hp

theorem of_kind (h : ∀ b : Body, b.kind = m.body.kind → P b) : m.Carries P :=
  fun _ _ he hd => h _ (Message.kind_of_encode_decode he hd)

end Message.Carries

end ChordSearch
