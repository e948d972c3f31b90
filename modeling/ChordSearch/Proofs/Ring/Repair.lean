import ChordSearch.Proofs.Ring.Homing
import ChordSearch.Proofs.Ring.Table
import ChordSearch.Proofs.Ring.Frame

/-! # A stabilize tick repairs the whole finger table

A member with a complete table repairs it on each stabilize tick (`Ring.stabilize`): entry 0
takes the successor as owner, then `Ring.fixFinger` walks the table forward. An entry takes
the previous entry's owner unless that owner sits at the previous start or lies in the
previous start's arc up to the entry's start (`Arc.covers`, which leaves the end out when the
arc wraps); the first entry where it might is asked for, and the answer resumes the walk
from the next entry (`Ring.foundSuccessor`).

The owner carried forward is right whenever the test lets it through: the first member at or
after the previous start that is not in `(prev, curr]` is also the first member at or after
`curr` (`Ring.FirstFrom.carry`), the wrapped arc's missing end included. So one tick, with
every lookup it causes answered, leaves every entry naming the first member at or after its
start, whatever the owners were before.

* `Finger.Exact`, `carryOwners_exact`: the walk over the table keeps exact the prefix it
  extends, and stops at an entry to ask for or at the end.
* `Turn.repaired`, `fixFinger_run`, `stabilize_run`, `foundSuccessor_run`: what the tick and
  an answer do to the member's turn.

The whole tick on a correct ring, with every datagram it causes delivered, follows from these
(`Cluster.stabilize_repairs_table`).
-/

namespace ChordSearch

open NodeM

/-! ### Carrying an owner forward -/

namespace Arc

theorem covers_eq_false {s k t : RingId} (h : covers s k t = false) (hk : k ≠ s) :
    k = t ∨ RingId.dist s t < RingId.dist s k := by
  have hs := s.isLt
  have hk' := k.isLt
  have ht := t.isLt
  have hk₀ : k.toNat ≠ s.toNat := fun he => hk (RingId.ext he)
  rw [RingId.eq_iff_toNat_eq]
  simp only [covers, RingId.dist_eq] at h ⊢
  split_ifs at h ⊢ <;> simp at h <;> omega

end Arc

namespace Ring

theorem FirstFrom.carry {ids : List RingId} {s t o : RingId} (h : FirstFrom ids s o)
    (hne : o ≠ s) (hc : Arc.covers s o t = false) : FirstFrom ids t o := by
  rw [firstFrom_iff_dist] at h ⊢
  refine ⟨h.1, fun m hm => ?_⟩
  rcases Arc.covers_eq_false hc hne with rfl | hlt
  · simp
  · have hmo := h.2 m hm
    have ho := RingId.dist_add_of_le hlt.le
    have hm' := RingId.dist_add_of_le (hlt.le.trans hmo)
    omega

end Ring

theorem RingId.dist_addPow2_zero (x : RingId) : RingId.dist x (x.addPow2 0) = 1 := by
  have hx := x.isLt
  have hR : (x.addPow2 0).toNat = (x.toNat + 1) % ringSize := by
    simp [RingId.addPow2, RingId.ofNat]
  rw [RingId.dist_eq, hR]
  rcases Nat.lt_or_ge (x.toNat + 1) ringSize with h | h
  · rw [Nat.mod_eq_of_lt h]
    simp
  · have he : x.toNat + 1 = ringSize := by omega
    rw [he, Nat.mod_self]
    have hpos : 0 < x.toNat := by
      have : 1 < ringSize := Nat.one_lt_two_pow (by decide)
      omega
    rw [if_neg (by omega)]
    omega

theorem Ring.Follows.firstFrom_next {ids : List RingId} {x y : RingId} (h : Ring.Follows ids x y) :
    Ring.FirstFrom ids (x.addPow2 0) y := by
  rw [Ring.firstFrom_iff_dist]
  refine ⟨h.1, fun m hm => ?_⟩
  have h1 := RingId.dist_addPow2_zero x
  by_cases hmx : m = x
  · -- `x` itself is the furthest position from one past it
    subst hmx
    have hne : m ≠ m.addPow2 0 := fun he => by
      rw [← he, RingId.dist_self] at h1
      cases h1
    have hround := RingId.dist_add_dist_comm hne
    have hlt := RingId.dist_lt (m.addPow2 0) y
    omega
  · obtain ⟨hxy, hle⟩ := h.ne_of_mem hm hmx
    have hy := RingId.dist_add_of_le (a := x) (b := x.addPow2 0) (c := y)
      (by have := RingId.dist_pos.2 hxy; omega)
    have hm' := RingId.dist_add_of_le (a := x) (b := x.addPow2 0) (c := m)
      (by have := RingId.dist_pos.2 (Ne.symm hmx); omega)
    omega

/-! ### Exact entries -/

/-- A finger names the first member at or after its start, among the ring members `rm`. -/
def Finger.Exact (rm : List NodeRef) (f : Finger) : Prop :=
  f.owner ∈ rm ∧ Ring.FirstFrom (rm.map (·.id)) f.start f.owner.id

theorem Finger.Exact.carry {rm : List NodeRef} {prev curr : Finger} (h : prev.Exact rm)
    (hc : ¬(decide (prev.owner.id = prev.start) || Arc.covers prev.start prev.owner.id curr.start)
      = true) :
    ({ curr with owner := prev.owner } : Finger).Exact rm := by
  simp only [Bool.or_eq_true, decide_eq_true_eq, not_or, Bool.not_eq_true] at hc
  exact ⟨h.1, h.2.carry hc.1 hc.2⟩

/-- Walking the table forward from entry `j`, with every entry before `j` exact: the walk
ends with the whole table exact, or asks for an entry `k ≥ j` with every entry before `k`
exact. The induction is on the number of entries left to walk. -/
theorem carryOwners_exact {rm : List NodeRef} (len : Nat) :
    ∀ (fs : Array Finger) (j : Nat), 1 ≤ j → j + len = fs.size →
      (∀ (k : Nat) (f : Finger), k < j → fs[k]? = some f → f.Exact rm) →
      ∀ (fs' : Array Finger) (ask : Option Finger),
        Ring.carryOwners fs (List.range' j len) = (fs', ask) →
        (ask = none ∧ ∀ (k : Nat) (f : Finger), fs'[k]? = some f → f.Exact rm) ∨
        ∃ k f, j ≤ k ∧ ask = some f ∧ fs'[k]? = some f ∧
          ∀ (k' : Nat) (g : Finger), k' < k → fs'[k']? = some g → g.Exact rm := by
  induction len with
  | zero =>
    intro fs j _ hlen hex fs' ask hc
    simp only [List.range'_zero, Ring.carryOwners, Prod.mk.injEq] at hc
    obtain ⟨rfl, rfl⟩ := hc
    refine .inl ⟨rfl, fun k f hk => hex k f ?_ hk⟩
    have := (Array.getElem?_eq_some_iff.1 hk).1
    omega
  | succ len ih =>
    intro fs j hj hlen hex fs' ask hc
    obtain ⟨prev, hp⟩ : ∃ prev, fs[j - 1]? = some prev :=
      ⟨_, Array.getElem?_eq_getElem (by omega)⟩
    obtain ⟨curr, hcu⟩ : ∃ curr, fs[j]? = some curr := ⟨_, Array.getElem?_eq_getElem (by omega)⟩
    rw [List.range'_succ, Ring.carryOwners, hp, hcu] at hc
    dsimp only at hc
    split at hc
    · -- the previous owner may not reach this entry: it is asked for
      simp only [Prod.mk.injEq] at hc
      obtain ⟨rfl, rfl⟩ := hc
      exact .inr ⟨j, curr, le_refl _, rfl, hcu, hex⟩
    · -- the previous owner is carried into this entry
      next hno =>
      have hnew := (hex (j - 1) prev (by omega) hp).carry hno
      have hex' : ∀ (k : Nat) (f : Finger), k < j + 1 →
          (fs.modify j fun c => { c with owner := prev.owner })[k]? = some f → f.Exact rm := by
        intro k f hk hf
        rw [Array.getElem?_modify] at hf
        split at hf
        · next hjk =>
          subst hjk
          rw [hcu, Option.map_some, Option.some.injEq] at hf
          rw [← hf]
          exact hnew
        · exact hex k f (by omega) hf
      rcases ih _ (j + 1) (by omega) (by simp; omega) hex' fs' ask hc with
        ⟨hnone, hall⟩ | ⟨k, f, hk, hask, hf, hbelow⟩
      · exact .inl ⟨hnone, hall⟩
      · exact .inr ⟨k, f, by omega, hask, hf, hbelow⟩

theorem carryOwners_asks (len : Nat) :
    ∀ (fs : Array Finger) (j : Nat) (fs' : Array Finger) (f : Finger),
      Ring.carryOwners fs (List.range' j len) = (fs', some f) →
      ∃ k prev, j ≤ k ∧ fs'[k - 1]? = some prev ∧ fs'[k]? = some f ∧
        (decide (prev.owner.id = prev.start) || Arc.covers prev.start prev.owner.id f.start) = true := by
  induction len with
  | zero =>
    intro fs j fs' f hc
    simp [Ring.carryOwners] at hc
  | succ len ih =>
    intro fs j fs' f hc
    rw [List.range'_succ, Ring.carryOwners] at hc
    split at hc
    · next prev curr hp hcu =>
      split at hc
      · next htest =>
        simp only [Prod.mk.injEq, Option.some.injEq] at hc
        obtain ⟨rfl, rfl⟩ := hc
        exact ⟨j, prev, le_rfl, hp, hcu, htest⟩
      · obtain ⟨k, g, hk, hg, hf, htest⟩ := ih _ (j + 1) fs' f hc
        exact ⟨k, g, by omega, hg, hf, htest⟩
    · simp at hc

/-! ### A ring of one -/

theorem RingId.toNat_addPow2 (x : RingId) {j : Nat} (hj : j < idBits) :
    (x.addPow2 j).toNat = (x.toNat + 2 ^ j) % ringSize := by
  have : (j : Int) < 160 := by unfold idBits at hj; omega
  simp [RingId.addPow2, RingId.ofNat, this]

/-- The test lets a member through from any entry but 0 of its own table: `x` is neither the
start `x + 2 ^ (j - 1)` nor inside the arc from there to `x + 2 ^ j`, which is shorter than
half the ring. -/
theorem RingId.carries_self (x : RingId) {j : Nat} (h1 : 1 ≤ j) (hj : j < idBits) :
    (decide (x = x.addPow2 (j - 1 : Nat)) ||
      Arc.covers (x.addPow2 (j - 1 : Nat)) x (x.addPow2 j)) = false := by
  have hx := x.isLt
  have hp : 2 ^ j = 2 * 2 ^ (j - 1) := by
    rw [← Nat.pow_succ']
    congr 1
    omega
  have hlt : 2 ^ j < ringSize := Nat.pow_lt_pow_right (by decide) hj
  have hpos : 0 < 2 ^ (j - 1) := Nat.two_pow_pos _
  simp only [Bool.or_eq_false_iff, decide_eq_false_iff_not, RingId.eq_iff_toNat_eq, Arc.covers,
    RingId.toNat_addPow2 x (show j - 1 < idBits by omega), RingId.toNat_addPow2 x hj]
  generalize 2 ^ (j - 1) = p at *
  generalize ringSize = R at *
  rw [hp] at hlt ⊢
  rcases Nat.lt_or_ge (x.toNat + p) R with ha | ha
  · rw [Nat.mod_eq_of_lt ha]
    rcases Nat.lt_or_ge (x.toNat + 2 * p) R with hb | hb
    · rw [Nat.mod_eq_of_lt hb]
      split_ifs <;> simp <;> omega
    · rw [Nat.mod_eq_sub_mod hb, Nat.mod_eq_of_lt (by omega)]
      split_ifs <;> simp <;> omega
  · rw [Nat.mod_eq_sub_mod ha, Nat.mod_eq_of_lt (by omega), Nat.mod_eq_sub_mod (by omega),
      Nat.mod_eq_of_lt (by omega)]
    split_ifs <;> simp <;> omega

theorem Finger.exact_solo {x : NodeRef} {f : Finger} (h : f.owner = x) : f.Exact [x] := by
  subst h
  exact ⟨List.mem_singleton_self _, Ring.firstFrom_singleton _ _⟩

theorem carryOwners_solo {x : NodeRef} {fs fs' : Array Finger} {ask : Option Finger}
    (hsize : fs.size = idBits) (h0 : ∀ f, fs[0]? = some f → f.owner = x)
    (hplace : ∀ (k : Nat) (f : Finger), fs'[k]? = some f → f.index = k ∧ f.start = x.id.addPow2 k)
    (hc : Ring.carryOwners fs (List.range' 1 (idBits - 1)) = (fs', ask)) :
    ask = none ∧ ∀ f ∈ fs', f.Exact [x] := by
  have hprefix : ∀ (k : Nat) (f : Finger), k < 1 → fs[k]? = some f → f.Exact [x] := by
    intro k f hk hf
    obtain rfl : k = 0 := by omega
    exact Finger.exact_solo (h0 f hf)
  rcases carryOwners_exact (idBits - 1) fs 1 le_rfl (by rw [hsize]; decide) hprefix fs' ask hc with
    ⟨rfl, hall⟩ | ⟨k, f, hk, rfl, hf, hbelow⟩
  · refine ⟨rfl, fun f hf => ?_⟩
    obtain ⟨k, hk⟩ := Array.mem_iff_getElem?.1 hf
    exact hall k f hk
  · -- the walk stopped at `k`, so the test failed the member, which holds entry `k - 1`
    exfalso
    obtain ⟨k', prev, hk', hp, hf', htest⟩ := carryOwners_asks _ fs 1 fs' f hc
    obtain rfl : k' = k := (hplace k' f hf').1.symm.trans (hplace k f hf).1
    have hown : prev.owner = x := List.mem_singleton.1 (hbelow (k' - 1) prev (by omega) hp).1
    have hsz : fs'.size = idBits := by
      have := congrArg Array.size (Finger.places_carryOwners fs (List.range' 1 (idBits - 1)))
      rw [hc] at this
      simpa [hsize] using this
    have hklt : k' < idBits := hsz ▸ (Array.getElem?_eq_some_iff.1 hf).1
    rw [hown, (hplace _ _ hp).2, (hplace _ _ hf').2, RingId.carries_self x.id hk' hklt] at htest
    exact Bool.false_ne_true htest

/-! ### The tick and the answers, run -/

namespace Turn

/-- The turn after asking the successor, under a fresh transaction id, for the owner of a
finger's start. -/
def requested (f : Finger) (t : Turn) : Turn :=
  t.drawTx.sent t.node.ring.successor.addr (t.node.lastTx + 1)
    (.findSuccessorReq t.node.self f.start (UInt32.ofNat f.index))

/-- The turn after repairing a complete table from entry `j` on: owners carried forward, and
the first entry that needs it asked for. -/
def repaired (j : Nat) (t : Turn) : Turn :=
  match Ring.carryOwners t.node.ring.fingers (List.range' j (idBits - j)) with
  | (fs, none) => t.mapRing fun r => { r with fingers := fs }
  | (fs, some f) => (t.mapRing fun r => { r with fingers := fs }).requested f

end Turn

theorem requestFinger_run (f : Finger) (t : Turn) :
    (Ring.requestFinger f).run t = ((), t.requested f) := by
  simp only [Ring.requestFinger, Turn.requested, nextTx, node, self, ring, modifyNode,
    StateT.run_bind, bind_pure_comp, send_run]
  rfl

theorem fixFinger_run (i : Nat) {t : Turn} (hsize : t.node.ring.fingers.size = idBits) :
    (Ring.fixFinger i).run t = ((), t.repaired (max i 2 - 1)) := by
  unfold Ring.fixFinger Turn.repaired
  simp only [ring, StateT.run_bind, StateT.run_get, StateT.run_pure, pure_bind, hsize,
    bne_self_eq_false, Bool.false_eq_true, ↓reduceIte]
  rcases Ring.carryOwners t.node.ring.fingers (List.range' (max i 2 - 1) (idBits - (max i 2 - 1)))
    with ⟨fs, _ | f⟩
  · simp only [modifyRing, modifyNode, StateT.run_modify, StateT.run_pure]
    rfl
  · simp only [modifyRing, modifyNode, StateT.run_modify, requestFinger_run]
    rfl

theorem stabilize_run {t : Turn} (hin : t.node.ring.inRing = true)
    (hsize : t.node.ring.fingers.size = idBits) :
    Ring.stabilize.run t = ((), ((t.drawTx.sent t.node.ring.successor.addr (t.node.lastTx + 1)
      (.stabilizeReq t.node.self)).mapRing fun r =>
        { r with fingers := r.fingers.modify 0 fun f => { f with owner := r.successor } }).repaired 1) := by
  unfold Ring.stabilize
  simp only [ring, self, nextTx, node, modifyNode, modifyRing, StateT.run_bind, StateT.run_get,
    StateT.run_pure, StateT.run_modify, pure_bind, hin, Bool.not_true, Bool.false_eq_true,
    ↓reduceIte, send_run]
  exact fixFinger_run 2 (by simpa using hsize)

theorem foundSuccessor_run {t : Turn} {k : Nat} {f : Finger} (hk : k < idBits)
    (hin : t.node.ring.inRing = true) (hsize : t.node.ring.fingers.size = idBits)
    (hf : t.node.ring.fingers[k]? = some f) (tx : UInt32) (owner : NodeRef) :
    (Ring.foundSuccessor tx owner f.start (UInt32.ofNat k)).run t =
      ((), (t.mapRing fun r => { r with
        fingers := r.fingers.modify k fun c => { c with owner := owner } }).repaired (k + 1)) := by
  have hidx : (UInt32.ofNat k).toNat = k := by
    simp only [UInt32.toNat_ofNat']
    unfold idBits at hk
    omega
  have hmax : max (k + 2) 2 - 1 = k + 1 := by omega
  unfold Ring.foundSuccessor
  simp only [ofNat_ne_lookupIndex hk, beq_iff_eq, ring, StateT.run_bind, StateT.run_get,
    StateT.run_pure, pure_bind, hin, hidx, hf, hsize, bne_self_eq_false, Bool.not_true,
    Bool.false_eq_true, ↓reduceIte, Nat.lt_irrefl, modifyRing, modifyNode, StateT.run_modify]
  rw [fixFinger_run (k + 2) (by simpa using hsize), hmax, ← hin]
  rfl

end ChordSearch
