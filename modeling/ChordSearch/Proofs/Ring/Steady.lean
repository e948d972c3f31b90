import ChordSearch.Proofs.Ring.Frame
import ChordSearch.Proofs.Index.TermMap

/-! # A ring that holds still, through one turn

On a ring whose members are linked, stabilization finds nothing to change: a stabilize
request reaches a member from its own predecessor, so it is not adopted, and the answer
names the asker itself, so the asker keeps its successor. Lookups end at the owner of their
key, and a term's postings go to its owner, as long as each answer is matched with a lookup
of its key.

`Turn.Steady` is what a turn keeps: the node's place in the ring, its stored postings, all
of them at their owners, the numbering of its fingers, the coherence of every id it had
drawn, room on its counter, and every message it sent sound. Every handler keeps it for a
message the ring allows at the node (`receive_steady`), drawing at most one id, and so does
every operator request but a join or a leave (`act_steady`), a resolve only under a
coherent id, drawing at most the ids `Op.draws` counts.
-/

namespace ChordSearch

open NodeM Std.Do

set_option mvcgen.warning false

/-! ### What a turn keeps -/

/-- What a turn of node `n₀` keeps on a ring that holds still, with room for `R` more
transaction ids: the node's place in the ring, its stored postings, all of them at their
owners, the numbering of its fingers, the coherence of the ids it had drawn, and what it
sent. -/
structure Turn.Steady (F : Frame) (E : Address → UInt32 → RingId → Prop) (n₀ : Node) (R : Nat)
    (t : Turn) : Prop where
  links : t.node.links = n₀.links
  linked : F.Linked t.node
  grows : ∀ term doc, n₀.search.store.map.Holds term doc → t.node.search.store.map.Holds term doc
  placed : F.Placed t.node
  fingers : t.node.FingersIndexed
  precedes : n₀.Precedes t.node
  room : t.node.lastTx.toNat + R < 2 ^ 32
  sent : ∀ x ∈ t.outgoing, ∀ m, Message.decode x.2 = .ok m → F.Sound E t.node x.1 m

namespace Turn.Steady

variable {F : Frame} {E : Address → UInt32 → RingId → Prop} {n₀ : Node} {R : Nat} {t : Turn}

theorem self_eq (h : t.Steady F E n₀ R) : t.node.self = n₀.self := (Node.links_eq.1 h.links).1

theorem inRing_eq (h : t.Steady F E n₀ R) : t.node.ring.inRing = n₀.ring.inRing :=
  (Node.links_eq.1 h.links).2.1

theorem next (h : t.Steady F E n₀ R) (t' : Turn) (hl : t'.node.links = t.node.links)
    (hs : t'.node.search.store = t.node.search.store) (hf : t'.node.FingersIndexed)
    (hp : t.node.Precedes t'.node) {R' : Nat} (hr : t'.node.lastTx.toNat + R' < 2 ^ 32)
    (ho : t'.outgoing = t.outgoing) : t'.Steady F E n₀ R' where
  links := hl.trans h.links
  linked := h.linked.of_links hl
  grows term doc hx := hs ▸ h.grows term doc hx
  placed := h.placed.of_links hl hs
  fingers := hf
  precedes := h.precedes.trans hp
  room := hr
  sent x hx m hd := (h.sent x (ho ▸ hx) m hd).of_precedes hl hp

theorem mono (h : t.Steady F E n₀ R) {R' : Nat} (hle : R' ≤ R) : t.Steady F E n₀ R' :=
  h.next t rfl rfl h.fingers (.refl _) (by have := h.room; omega) rfl

theorem noted (h : t.Steady F E n₀ R) (k : EventKind) (p : String) (b : Bytes) :
    (t.noted k p b).Steady F E n₀ R :=
  h.next _ (by simp) (by simp) (by simpa using h.fingers) (.of_eq (by simp) (by simp))
    (by simpa using h.room) (by simp)

theorem mapMetrics (h : t.Steady F E n₀ R) (f : Metrics → Metrics) :
    (t.mapMetrics f).Steady F E n₀ R :=
  h.next (t.mapMetrics f) rfl rfl h.fingers (.refl _) h.room rfl

theorem mapRing (h : t.Steady F E n₀ R) {f : Membership → Membership}
    (hl : (f t.node.ring).inRing = t.node.ring.inRing ∧
      (f t.node.ring).successor = t.node.ring.successor ∧
      (f t.node.ring).predecessor = t.node.ring.predecessor)
    (hf : ∀ x ∈ (f t.node.ring).fingers, x.index < idBits) : (t.mapRing f).Steady F E n₀ R :=
  h.next (t.mapRing f) (Node.links_eq.2 ⟨rfl, hl⟩) rfl hf (.refl _) h.room rfl

theorem mapSearch (h : t.Steady F E n₀ R) {f : SearchState → SearchState}
    (hs : (f t.node.search).store = t.node.search.store)
    (hl : ∀ e ∈ (f t.node.search).lookups.entries, e ∈ t.node.search.lookups.entries) :
    (t.mapSearch f).Steady F E n₀ R :=
  h.next (t.mapSearch f) rfl hs h.fingers ⟨le_rfl, fun e he _ => hl e he⟩ h.room rfl

theorem drawTx (h : t.Steady F E n₀ (R + 1)) : t.drawTx.Steady F E n₀ R := by
  have hr := h.room
  have hx : (t.node.lastTx + 1).toNat = t.node.lastTx.toNat + 1 := by
    rw [UInt32.toNat_add, UInt32.toNat_one, Nat.mod_eq_of_lt (by omega)]
  exact h.next t.drawTx rfl rfl h.fingers ⟨by simp [hx], fun e he _ => he⟩ (by simp [hx]; omega) rfl


theorem started (h : t.Steady F E n₀ (R + 1)) (now : Int) (l : PendingLookup) :
    (t.drawTx.mapSearch fun s => { s with lookups := s.lookups.add now (t.node.lastTx + 1) l }).Steady
      F E n₀ R := by
  have hd := h.drawTx
  have hx : (t.node.lastTx + 1).toNat = t.node.lastTx.toNat + 1 := by
    have := h.room
    rw [UInt32.toNat_add, UInt32.toNat_one, Nat.mod_eq_of_lt (by omega)]
  refine h.next (t.drawTx.mapSearch fun s =>
      { s with lookups := s.lookups.add now (t.node.lastTx + 1) l }) rfl rfl h.fingers
    ⟨by simp [hx], fun e he hle => ?_⟩ hd.room rfl
  simp only [mapSearch_node, Tracker.add, List.mem_append, List.mem_filter, List.mem_singleton] at he
  rcases he with ⟨he, -⟩ | rfl
  · exact he
  · simp [hx] at hle

theorem transmitted (h : t.Steady F E n₀ R) {dst : Address} {m : Message}
    (hm : m.Carries fun b => F.Sound E t.node dst ⟨m.tx, b⟩) : (t.transmitted dst m).Steady F E n₀ R := by
  obtain ⟨ms, hn⟩ := transmitted_node t dst m
  have hl : (t.transmitted dst m).node.links = t.node.links := by rw [hn]; rfl
  have hp : t.node.Precedes (t.transmitted dst m).node := .of_eq (by simp) (by simp)
  refine ⟨hl.trans h.links, h.linked.of_links hl, fun term doc hx => by simpa using h.grows term doc hx,
    h.placed.of_links hl (by simp), by rw [hn]; exact h.fingers, h.precedes.trans hp,
    by simpa using h.room, fun x hx m' hd => ?_⟩
  rw [transmitted_outgoing] at hx
  cases he : m.encode with
  | error _ =>
    rw [he] at hx
    exact (h.sent x hx m' hd).of_precedes hl hp
  | ok data =>
    rw [he] at hx
    dsimp only at hx
    split at hx
    · rcases Array.mem_push.1 hx with hx | rfl
      · exact (h.sent x hx m' hd).of_precedes hl hp
      · -- the new datagram reads back with the message's id
        have hs := hm data m' he hd
        rw [← Message.tx_of_encode_decode he hd] at hs
        exact hs.of_precedes hl hp
    · exact (h.sent x hx m' hd).of_precedes hl hp

theorem sends (h : t.Steady F E n₀ R) {dst : Address} {tx : UInt32} {b : Body}
    (hm : dst.isSet = true → (⟨tx, b⟩ : Message).Carries fun b' => F.Sound E t.node dst ⟨tx, b'⟩) :
    (t.sent dst tx b).Steady F E n₀ R := by
  unfold Turn.sent
  split
  · next hset => exact h.transmitted (hm hset)
  · exact h

theorem storeSent (h : t.Steady F E n₀ (R + 1)) {dst : Address} {p : Bytes × DocSet}
    (hd : dst = .unset ∨ ∃ r, F.In r ∧ r.addr = dst ∧ Ring.FirstFrom F.ids (RingId.hash p.1) r.id) :
    (t.storeSent dst p).Steady F E n₀ R :=
  h.drawTx.transmitted (Message.carries_storeTerm.mono fun b ⟨d, hb⟩ => by
    subst hb
    exact ⟨hd, fun _ _ hk => False.elim hk⟩)

theorem stored (h : t.Steady F E n₀ R) {term : Bytes} {docs : List Bytes}
    (hown : t.node.ring.inRing = true ∧ Ring.FirstFrom F.ids (RingId.hash term) t.node.self.id) :
    (t.mapSearch fun s => { s with store := s.store.add term docs }).Steady F E n₀ R where
  links := h.links
  linked := h.linked
  grows t' d hx := (TermMap.holds_add _).2 (.inl (h.grows t' d hx))
  placed e he := by
    rcases TermMap.mem_addTo he with he | rfl | ⟨d, -, rfl⟩
    · exact h.placed e he
    · exact hown
    · exact hown
  fingers := h.fingers
  precedes := h.precedes
  room := h.room
  sent x hx m hd := (h.sent x hx m hd).of_precedes rfl (.refl _)

theorem pingFailed (h : t.Steady F E n₀ R) (p : PingRequest) : (t.pingFailed p).Steady F E n₀ R :=
  (h.mapMetrics _).noted _ _ _

theorem pingsFailed (h : t.Steady F E n₀ R) (ps : List (Pending PingRequest)) :
    (t.pingsFailed ps).Steady F E n₀ R := by
  induction ps generalizing t with
  | nil => exact h
  | cons q ps ih => exact ih (h.pingFailed q.value)

end Turn.Steady

/-! ### Finger numbers -/

theorem Array.mem_of_mem_modify {α : Type} {a : Array α} {i : Nat} {g : α → α} {x : α}
    (h : x ∈ a.modify i g) : x ∈ a ∨ ∃ y ∈ a, x = g y := by
  obtain ⟨j, hj⟩ := Array.mem_iff_getElem?.1 h
  rw [Array.getElem?_modify] at hj
  split at hj
  · obtain ⟨y, hy, rfl⟩ := Option.map_eq_some_iff.1 hj
    exact .inr ⟨y, Array.mem_iff_getElem?.2 ⟨j, hy⟩, rfl⟩
  · exact .inl (Array.mem_iff_getElem?.2 ⟨j, hj⟩)

theorem indexed_modify {fs : Array Finger} (h : ∀ f ∈ fs, f.index < idBits) (i : Nat)
    (o : NodeRef) : ∀ f ∈ fs.modify i (fun c => { c with owner := o }), f.index < idBits := by
  intro f hf
  rcases Array.mem_of_mem_modify hf with hf | ⟨g, hg, rfl⟩
  · exact h f hf
  · exact h g hg

theorem carryOwners_indexed {fs : Array Finger} (h : ∀ f ∈ fs, f.index < idBits) (js : List Nat) :
    (∀ f ∈ (Ring.carryOwners fs js).1, f.index < idBits) ∧
      ∀ f, (Ring.carryOwners fs js).2 = some f → f.index < idBits := by
  induction js generalizing fs with
  | nil => exact ⟨h, fun f hf => by cases hf⟩
  | cons j js ih =>
    unfold Ring.carryOwners
    split
    · next prev curr hp hc =>
      split
      · exact ⟨h, fun f hf => by cases hf; exact h _ (Array.mem_of_getElem? hc)⟩
      · exact ih (indexed_modify h j prev.owner)
    · exact ⟨h, fun f hf => by cases hf⟩

/-! ### The handlers -/

section Handlers

variable {F : Frame} {E : Address → UInt32 → RingId → Prop} {n₀ : Node} {R : Nat}

theorem requestFinger_steady {f : Finger} :
    ⦃fun t => ⌜t.Steady F E n₀ (R + 1) ∧ t.node.ring.inRing = true ∧ f.index < idBits⌝⦄
    Ring.requestFinger f ⦃⇓ _ t => ⌜t.Steady F E n₀ R⌝⦄ := by
  intro t ⟨h, hin, hf⟩
  mvcgen [Ring.requestFinger]
  have hw : t.node.self.Wired := F.wired _ (h.linked hin).1
  exact h.drawTx.sends fun _ => Message.Carries.of_wire hw.exact_wire
    ⟨trivial, fun _ _ hk => absurd hk.1 (ofNat_ne_lookupIndex hf)⟩

theorem initFinger_steady {i : Nat} :
    ⦃fun t => ⌜t.Steady F E n₀ (R + 1) ∧ t.node.ring.inRing = true⌝⦄ Ring.initFinger i
    ⦃⇓ _ t => ⌜t.Steady F E n₀ R⌝⦄ := by
  intro t ⟨h, hin⟩
  mvcgen [Ring.initFinger, requestFinger_steady]
  · exact h.mono (by omega)
  · next hc _ =>
    have hi : 1 ≤ i ∧ i ≤ idBits := by simp at hc; omega
    refine ⟨h.mapRing ⟨rfl, rfl, rfl⟩ fun x hx => ?_, hin, show i - 1 < idBits by omega⟩
    rcases Array.mem_push.1 hx with hx | rfl
    · exact h.fingers x hx
    · show i - 1 < idBits
      omega

theorem fixFinger_steady {i : Nat} :
    ⦃fun t => ⌜t.Steady F E n₀ (R + 1) ∧ t.node.ring.inRing = true⌝⦄ Ring.fixFinger i
    ⦃⇓ _ t => ⌜t.Steady F E n₀ R⌝⦄ := by
  intro t ⟨h, hin⟩
  have hc := carryOwners_indexed h.fingers
  mvcgen [Ring.fixFinger, requestFinger_steady]
  · exact h.mono (by omega)
  · next hask =>
    exact ⟨h.mapRing ⟨rfl, rfl, rfl⟩ (hc _).1, hin, (hc _).2 _ hask⟩
  · exact (h.mapRing ⟨rfl, rfl, rfl⟩ (hc _).1).mono (by omega)

theorem stabilize_steady :
    ⦃fun t => ⌜t.Steady F E n₀ (R + 2)⌝⦄ Ring.stabilize ⦃⇓ _ t => ⌜t.Steady F E n₀ R⌝⦄ := by
  intro t h
  mvcgen [Ring.stabilize, fixFinger_steady]
  · exact h.mono (by omega)
  · next hin =>
    have hin : t.node.ring.inRing = true := by simpa using hin
    obtain ⟨hself, hsucc, -, hfol, -⟩ := h.linked hin
    have hsent : (t.drawTx.sent t.node.ring.successor.addr (t.node.lastTx + 1)
        (.stabilizeReq t.drawTx.node.self)).Steady F E n₀ (R + 1) :=
      h.drawTx.sends fun _ => Message.Carries.of_wire (F.wired _ hself).exact_wire
        ⟨F.sendable_stabilizeReq hself hsucc hfol, fun _ _ hk => False.elim hk⟩
    exact ⟨hsent.mapRing ⟨rfl, rfl, rfl⟩ (indexed_modify hsent.fingers 0 _), by simpa using hin⟩

theorem findSuccessor_steady {tx : UInt32} {r : NodeRef} {key : RingId} {idx : UInt32} :
    ⦃fun t => ⌜t.Steady F E n₀ R ∧ r.wire.Exact ∧ (idx = lookupIndex → r.addr.isSet = true →
      (r.addr = t.node.self.addr → t.node.Coherent tx key) ∧
        (r.addr ≠ t.node.self.addr → E r.addr tx key))⌝⦄
    Ring.findSuccessor tx r key idx ⦃⇓ _ t => ⌜t.Steady F E n₀ R⌝⦄ := by
  intro t ⟨h, hr, hc⟩
  mvcgen [Ring.findSuccessor]
  · next hin ho =>
    obtain ⟨hself, hsucc, -, hfol, -⟩ := h.linked hin
    have hown := (Ring.owns_iff_firstFrom (F.mem_ids _ hself) hfol).1 ho
    refine h.sends fun hset => Message.Carries.of_wire (F.wired _ hsucc).exact_wire
      ⟨F.sendable_answer hsucc hown, fun a k hk => ?_⟩
    obtain ⟨hi, rfl, rfl⟩ := Body.lookupOf_answer hk
    obtain ⟨h₁, h₂⟩ := hc hi hset
    exact ⟨fun ha => ⟨hin, h₁ ha⟩, h₂⟩
  · next hin _ =>
    refine h.sends fun _ => Message.Carries.of_wire hr ⟨trivial, fun a k hk => ?_⟩
    obtain ⟨hi, rfl, rfl, hset⟩ := Body.lookupOf_request hk
    obtain ⟨h₁, h₂⟩ := hc hi hset
    exact ⟨fun ha => ⟨hin, h₁ ha⟩, h₂⟩

theorem resolve_steady {key : RingId} {tx : UInt32} :
    ⦃fun t => ⌜t.Steady F E n₀ R ∧ (t.node.ring.inRing = true → t.node.Coherent tx key)⌝⦄
    Ring.resolve key tx ⦃⇓ _ t => ⌜t.Steady F E n₀ R⌝⦄ := by
  intro t ⟨h, hc⟩
  mvcgen [Ring.resolve, findSuccessor_steady]
  next hin =>
    have hin : t.node.ring.inRing = true := by simpa using hin
    exact ⟨h, (F.wired _ (h.linked hin).1).exact_wire, fun _ => ⟨hc hin, fun hne => absurd rfl hne⟩⟩

theorem lookupFor_steady {errand : Errand} {term : Bytes} :
    ⦃fun t => ⌜t.Steady F E n₀ (R + 1)⌝⦄ Search.lookupFor errand term
    ⦃⇓ _ t => ⌜t.Steady F E n₀ R⌝⦄ := by
  intro t h
  mvcgen [Search.lookupFor, resolve_steady]
  · exact h.mono (by omega)
  · -- the lookup is recorded under a fresh id, coherent for the term's key
    exact ⟨h.started _ _, fun _ => Turn.coherent_started t _ _⟩
  · next h' =>
    exact h'.mapSearch rfl fun _ he => Tracker.mem_take he

theorem lookupResolved_steady {owner : NodeRef} {key : RingId} {tx : UInt32} :
    ⦃fun t => ⌜t.Steady F E n₀ (R + 1) ∧ t.node.Coherent tx key ∧
      RefIn (fun o => F.In o ∧ Ring.FirstFrom F.ids key o.id) owner⌝⦄
    Search.lookupResolved owner key tx ⦃⇓ _ t => ⌜t.Steady F E n₀ R⌝⦄ := by
  intro t ⟨h, hc, ho⟩
  have ht : (t.mapSearch fun s => { s with lookups := (t.node.search.lookups.take tx).2 }).Steady
      F E n₀ (R + 1) := h.mapSearch rfl fun _ he => Tracker.mem_take he
  mvcgen [Search.lookupResolved]
  · exact h.mono (by omega)
  · exact ht.mono (by omega)
  · next e hfound _ _ _ _ =>
    obtain ⟨he, htx⟩ := Tracker.take_found hfound
    have hkey := hc.2 e he htx
    refine (ht.mapSearch rfl fun _ he => he).storeSent ?_
    rcases ho with rfl | ⟨hin, hf⟩
    · exact .inl rfl
    · exact .inr ⟨owner, hin, rfl, by rw [hkey]; exact hf⟩
  · exact (ht.transmitted (F.carries_plain E (by simp [Kind.Plain, Body.kind]))).mono (by omega)
  · exact (ht.noted _ _ _).mono (by omega)

theorem foundSuccessor_steady {tx : UInt32} {owner : NodeRef} {start : RingId} {index : UInt32} :
    ⦃fun t => ⌜t.Steady F E n₀ (R + 1) ∧ (index = lookupIndex → t.node.Coherent tx start) ∧
      RefIn (fun o => F.In o ∧ Ring.FirstFrom F.ids start o.id) owner⌝⦄
    Ring.foundSuccessor tx owner start index ⦃⇓ _ t => ⌜t.Steady F E n₀ R⌝⦄ := by
  intro t ⟨h, hc, ho⟩
  have hfill : ∀ i, t.node.ring.inRing = true →
      (t.mapRing fun r => { r with fingers := r.fingers.modify i fun c => { c with owner := owner } }
        ).Steady F E n₀ (R + 1) ∧ t.node.ring.inRing = true :=
    fun i hin => ⟨h.mapRing ⟨rfl, rfl, rfl⟩ (indexed_modify h.fingers i owner), hin⟩
  mvcgen [Ring.foundSuccessor, lookupResolved_steady, initFinger_steady, fixFinger_steady]
  · next hi => exact ⟨h, hc (by simpa using hi), ho⟩
  · exact h.mono (by omega)
  · exact h.mono (by omega)
  · exact h.mono (by omega)
  · exact hfill _ (by simpa using ‹¬(!t.node.ring.inRing) = true›)
  · exact hfill _ (by simpa using ‹¬(!t.node.ring.inRing) = true›)

theorem adopts_eq_false {me pred sender : NodeRef} (h : sender = NodeRef.unset ∨ sender = pred) :
    Ring.adopts me pred sender = false := by
  rcases h with rfl | rfl
  · simp [Ring.adopts, NodeRef.isUnset, NodeRef.unset, NodeRef.unsetWith, NodeRef.make,
      Address.isSet]
  · -- the sender is the predecessor: it is not strictly after itself
    have hin : Arc.inside sender.id sender.id me.id = false := by
      rw [← Bool.not_eq_true, Arc.inside_iff]
      simp
    unfold Ring.adopts
    split_ifs <;> simp_all

theorem stabilizeRequest_steady {tx : UInt32} {sender : NodeRef} :
    ⦃fun t => ⌜t.Steady F E n₀ R ∧ (t.node.ring.inRing = true →
      sender = NodeRef.unset ∨ sender = t.node.ring.predecessor)⌝⦄
    Ring.stabilizeRequest tx sender ⦃⇓ _ t => ⌜t.Steady F E n₀ R⌝⦄ := by
  intro t ⟨h, hs⟩
  mvcgen [Ring.stabilizeRequest]
  · next hin _ hadopt =>
    rw [adopts_eq_false (hs (by simpa using hin))] at hadopt
    cases hadopt
  · next hin _ _ =>
    rcases hs (by simpa using hin) with rfl | rfl
    · -- an answer to the unset reference goes nowhere
      exact h.sends fun hset => by simp [NodeRef.unset, NodeRef.unsetWith, NodeRef.make,
        Address.isSet] at hset
    · have hpred := (h.linked (by simpa using hin)).2.2.1
      exact h.sends fun _ => Message.Carries.of_wire (F.wired _ hpred).exact_wire
        ⟨F.sendable_stabilizeRsp hpred, fun _ _ hk => False.elim hk⟩

theorem stabilizeReply_steady {p : NodeRef} :
    ⦃fun t => ⌜t.Steady F E n₀ R ∧ (t.node.ring.inRing = true →
      p = NodeRef.unset ∨ p = t.node.self)⌝⦄
    Ring.stabilizeReply p ⦃⇓ _ t => ⌜t.Steady F E n₀ R⌝⦄ := by
  intro t ⟨h, hp⟩
  mvcgen [Ring.stabilizeReply]
  next hin hne _ =>
  rcases hp (by simpa using hin) with rfl | rfl
  · simp [NodeRef.isUnset, NodeRef.unset, NodeRef.unsetWith, NodeRef.make, Address.isSet] at hne
  · simp at hne

theorem pingRequest_steady {from_ : Address} {tx : UInt32} {message : Bytes} :
    ⦃fun t => ⌜t.Steady F E n₀ R⌝⦄ Ring.pingRequest from_ tx message
    ⦃⇓ _ t => ⌜t.Steady F E n₀ R⌝⦄ := by
  intro t h
  mvcgen [Ring.pingRequest]
  exact (h.noted _ _ _).sends fun _ => F.carries_plain E (by simp [Kind.Plain, Body.kind])

theorem pingAnswer_steady {tx : UInt32} :
    ⦃fun t => ⌜t.Steady F E n₀ R⌝⦄ Ring.pingAnswer tx ⦃⇓ _ t => ⌜t.Steady F E n₀ R⌝⦄ := by
  intro t h
  mvcgen [Ring.pingAnswer, Ring.pingSucceeded]
  refine ((h.mapRing ⟨rfl, rfl, rfl⟩ ?_).mapMetrics _).noted _ _ _
  exact h.fingers

theorem ringStatePing_steady {tx : UInt32} {originator : NodeRef} :
    ⦃fun t => ⌜t.Steady F E n₀ R⌝⦄ Ring.ringStatePing tx originator
    ⦃⇓ _ t => ⌜t.Steady F E n₀ R⌝⦄ := by
  intro t h
  mvcgen [Ring.ringStatePing]
  exact h.sends fun _ => F.carries_plain E (by simp [Kind.Plain, Body.kind])

theorem keep_steady {term : Bytes} {docs : List Bytes} :
    ⦃fun t => ⌜t.Steady F E n₀ R ∧ t.node.ring.inRing = true ∧
      Ring.FirstFrom F.ids (RingId.hash term) t.node.self.id⌝⦄
    Search.keep term docs ⦃⇓ _ t => ⌜t.Steady F E n₀ R⌝⦄ := by
  intro t ⟨h, hown⟩
  mvcgen [Search.keep]
  exact h.stored hown

theorem fetch_steady {tx originator : UInt32} {key : Bytes} {remaining accumulated : List Bytes} :
    ⦃fun t => ⌜t.Steady F E n₀ (R + 1)⌝⦄ Search.fetch tx originator key remaining accumulated
    ⦃⇓ _ t => ⌜t.Steady F E n₀ R⌝⦄ := by
  intro t h
  have hreply : ∀ a docs, (t.transmitted a ⟨tx, .fetchRsp docs⟩).Steady F E n₀ R := fun _ _ =>
    (h.transmitted (F.carries_plain E (by simp [Kind.Plain, Body.kind]))).mono (by omega)
  mvcgen [Search.fetch, Search.reply, Search.forward, lookupFor_steady]
  · exact h.mono (by omega)
  · exact hreply _ _
  · exact h.mono (by omega)
  · exact hreply _ _

theorem fetchReply_steady {tx : UInt32} {docs : List Bytes} :
    ⦃fun t => ⌜t.Steady F E n₀ R⌝⦄ Search.fetchReply tx docs ⦃⇓ _ t => ⌜t.Steady F E n₀ R⌝⦄ := by
  intro t h
  mvcgen [Search.fetchReply]
  exact ((h.mapSearch rfl fun _ he => he).mapMetrics _).noted _ _ _

theorem Turn.Steady.predecessor_eq {F : Frame} {E : Address → UInt32 → RingId → Prop} {n₀ : Node}
    {R : Nat} {t : Turn} (h : t.Steady F E n₀ R) :
    t.node.ring.predecessor = n₀.ring.predecessor :=
  (Node.links_eq.1 h.links).2.2.2

theorem handle_steady {from_ : Address} {m : Message} (hm : F.Receives E n₀ m) :
    ⦃fun t => ⌜t.Steady F E n₀ (R + 1)⌝⦄ Node.handle from_ m ⦃⇓ _ t => ⌜t.Steady F E n₀ R⌝⦄ := by
  obtain ⟨hr, hx, hl⟩ := hm
  intro t h
  have hself := h.self_eq
  have hin := h.inRing_eq
  have hpred := h.predecessor_eq
  have hR : t.Steady F E n₀ R := h.mono (by omega)
  rcases m with ⟨tx, b⟩
  cases b with
  | pingReq _ => exact pingRequest_steady t hR
  | pingRsp _ => exact pingAnswer_steady t hR
  | joinReq _ _ => exact hr.elim
  | joinRsp _ _ _ => exact hr.elim
  | departureReq _ _ => exact hr.elim
  | stabilizeRsp p => exact stabilizeReply_steady t ⟨hR, by rw [hin, hself]; exact hr⟩
  | stabilizeReq s => exact stabilizeRequest_steady t ⟨hR, by rw [hin, hpred]; exact hr⟩
  | ringStatePing _ => exact ringStatePing_steady t hR
  | findSuccessorReq r key idx =>
    refine findSuccessor_steady t ⟨hR, (NodeRef.Exact.wire_eq hx).symm ▸ hx, fun hi hset => ?_⟩
    obtain ⟨h₁, h₂⟩ := hl r.addr key ⟨hi, rfl, rfl, hset⟩
    rw [hself]
    exact ⟨fun ha => (h₁ ha).precedes h.precedes, h₂⟩
  | findSuccessorRsp o key idx =>
    exact foundSuccessor_steady t
      ⟨h, fun hi => ((hl n₀.self.addr key ⟨hi, rfl, rfl⟩).1 rfl).precedes h.precedes, hr⟩
  | storeReq _ _ => exact keep_steady t ⟨hR, by rw [hin, hself]; exact hr⟩
  | fetchReq _ _ _ _ => exact fetch_steady t h
  | fetchRsp _ => exact fetchReply_steady t hR

theorem receive_steady {from_ : Address} {data : Bytes}
    (hd : ∀ m, Message.decode data = .ok m → F.Receives E n₀ m) :
    ⦃fun t => ⌜t.Steady F E n₀ (R + 1)⌝⦄ Node.receive from_ data ⦃⇓ _ t => ⌜t.Steady F E n₀ R⌝⦄ := by
  intro t h
  unfold Node.receive
  split
  · mvcgen
    exact (h.mapMetrics _).mono (by omega)
  · next m hdec =>
    have hh := @handle_steady F E n₀ R from_ m (hd m hdec)
    mvcgen [hh]
    exact h.mapMetrics _

/-! ### Operator requests -/

theorem tick_steady :
    ⦃fun t => ⌜t.Steady F E n₀ (R + 2)⌝⦄ Node.tick ⦃⇓ _ t => ⌜t.Steady F E n₀ R⌝⦄ := by
  intro t h
  mvcgen [Node.tick, stabilize_steady]
  next _ s hs => exact hs.mapMetrics _

theorem sendPing_steady {dest : NodeRef} {message : Bytes} :
    ⦃fun t => ⌜t.Steady F E n₀ (R + 1)⌝⦄ Ring.sendPing dest message
    ⦃⇓ _ t => ⌜t.Steady F E n₀ R⌝⦄ := by
  intro t h
  mvcgen [Ring.sendPing]
  · exact h.drawTx.pingFailed _
  · refine (h.drawTx.mapRing ⟨rfl, rfl, rfl⟩ ?_).sends fun _ =>
      F.carries_plain E (by simp [Kind.Plain, Body.kind])
    exact h.fingers

theorem auditPings_steady :
    ⦃fun t => ⌜t.Steady F E n₀ R⌝⦄ Ring.auditPings ⦃⇓ _ t => ⌜t.Steady F E n₀ R⌝⦄ := by
  intro t h
  mvcgen [Ring.auditPings]
  refine (h.mapRing ⟨rfl, rfl, rfl⟩ ?_).pingsFailed _
  exact h.fingers

theorem ringState_steady :
    ⦃fun t => ⌜t.Steady F E n₀ (R + 1)⌝⦄ Ring.ringState ⦃⇓ _ t => ⌜t.Steady F E n₀ R⌝⦄ := by
  intro t h
  mvcgen [Ring.ringState]
  · exact h.mono (by omega)
  · exact h.mono (by omega)
  · exact h.drawTx.sends fun _ => F.carries_plain E (by simp [Kind.Plain, Body.kind])

theorem lookup_steady {term : Bytes} :
    ⦃fun t => ⌜t.Steady F E n₀ (R + 1)⌝⦄ Search.lookup term ⦃⇓ _ t => ⌜t.Steady F E n₀ R⌝⦄ := by
  intro t h
  mvcgen [Search.lookup, resolve_steady]
  · exact h.mono (by omega)
  · exact h.mono (by omega)
  · -- the lookup is recorded under a fresh id, coherent for the term's key
    exact ⟨h.started _ _, fun _ => Turn.coherent_started t _ _⟩

theorem query_steady {via : NodeRef} {terms : List Bytes} :
    ⦃fun t => ⌜t.Steady F E n₀ (R + 1)⌝⦄ Search.query via terms ⦃⇓ _ t => ⌜t.Steady F E n₀ R⌝⦄ := by
  intro t h
  mvcgen [Search.query]
  · exact h.mono (by omega)
  · exact (h.drawTx.mapSearch rfl fun _ he => he).transmitted
      (F.carries_plain E (by simp [Kind.Plain, Body.kind]))

theorem publish_steady {ix : Index} :
    ⦃fun t => ⌜t.Steady F E n₀ (R + (t.node.search.index.merge ix).terms.length)⌝⦄
    Search.publish ix ⦃⇓ _ t => ⌜t.Steady F E n₀ R⌝⦄ := by
  intro t h
  mvcgen [Search.publish] invariants
  · ⇓ p t => ⌜t.Steady F E n₀ (R + p.1.suffix.length)⌝
  case vc1.isTrue => exact (h.mapSearch rfl fun _ he => he).mono (by omega)
  case vc2.step =>
    next _ _ cur suff _ _ _ s hs =>
    have hl := @lookupFor_steady F E n₀ (R + suff.length) .store cur
    mvcgen [hl]
    next _ _ _ hr => exact hr.mono (by simp)
  case vc3.isFalse.pre => exact h.mapSearch rfl fun _ he => he

end Handlers

/-- How many transaction ids a request may draw at node `n`: one for each term a publish
hands out, two for a stabilize tick, none for an audit or a resolve, which runs under the
id it is given, and at most one for any other request. -/
def Op.draws (n : Node) : Op → Nat
  | .publish ix => (n.search.index.merge ix).terms.length
  | .stabilize => 2
  | .auditPings | .resolve _ _ => 0
  | _ => 1

/-- The requests that leave a ring as it is: none joins or leaves, and a resolve at a member
runs under an id coherent for its key there. -/
def Op.Still (n : Node) : Op → Prop
  | .join _ | .leave => False
  | .resolve key tx => n.ring.inRing = true → n.Coherent tx key
  | _ => True

section Requests

variable {F : Frame} {E : Address → UInt32 → RingId → Prop} {n₀ : Node} {R : Nat}

theorem act_steady {op : Op} :
    ⦃fun t => ⌜t.Steady F E n₀ (R + op.draws t.node) ∧ op.Still t.node⌝⦄ op.act
    ⦃⇓ _ t => ⌜t.Steady F E n₀ R⌝⦄ := by
  intro t ⟨h, hop⟩
  cases op with
  | join _ => exact hop.elim
  | leave => exact hop.elim
  | stabilize => mvcgen [Op.act, tick_steady]
  | ping _ _ => mvcgen [Op.act, sendPing_steady]
  | auditPings => mvcgen [Op.act, auditPings_steady]
  | ringState => mvcgen [Op.act, ringState_steady]
  | resolve _ _ => mvcgen [Op.act, resolve_steady]
  | lookup _ => mvcgen [Op.act, lookup_steady]
  | publish _ => mvcgen [Op.act, publish_steady]
  | search _ _ => mvcgen [Op.act, query_steady]

end Requests

end ChordSearch
