import ChordSearch.Ring.Id
import ChordSearch.Net.Address

/-! # Node references

A node is named by its directory number and reached at its address; its ring position is
the digest of its address text. A reference without an address is unset, whatever its
number, and sits at position zero.

Two references are the same node when number and address agree; the position follows from
the address and is kept beside it so that routing never hashes twice.
-/

namespace ChordSearch

/-- The ring position of the node at an address: the digest of the address text, or zero
when there is no address. -/
def Address.ringId : Address → RingId
  | .unset => RingId.zero
  | a => RingId.hash a.toBytes

/-- A ring member as others see it: number, address and the position the address gives. -/
structure NodeRef where
  num : UInt32
  addr : Address
  id : RingId
  id_eq : id = addr.ringId
  deriving DecidableEq

namespace NodeRef

/-- The reference to node `num` at `addr`. -/
def make (num : UInt32) (addr : Address) : NodeRef := ⟨num, addr, addr.ringId, rfl⟩

/-- The unset reference with a number. -/
def unsetWith (num : UInt32) : NodeRef := make num .unset

/-- The unset reference. -/
def unset : NodeRef := unsetWith 0

instance : Inhabited NodeRef := ⟨unset⟩

/-- Whether the reference has no address. -/
def isUnset (n : NodeRef) : Bool := !n.addr.isSet

/-- Whether two references name the same node: same number and same address. -/
def same (a b : NodeRef) : Bool := a.num == b.num && decide (a.addr = b.addr)

/-- How a reference is shown: `Node<num>(<address>)/<first 8 hex digits>`, or
`Node{unset}`. -/
def toText (n : NodeRef) : String :=
  if n.isUnset then "Node\x7bunset\x7d"
  else "Node" ++ toString n.num.toNat ++ "(" ++ n.addr.toText ++ ")/" ++ n.id.short 8

theorem same_iff (a b : NodeRef) : a.same b = true ↔ a = b := by
  cases a with
  | mk n1 a1 i1 h1 =>
    cases b with
    | mk n2 a2 i2 h2 =>
      subst h1 h2
      simp only [same, Bool.and_eq_true, beq_iff_eq, decide_eq_true_eq, mk.injEq]
      constructor
      · rintro ⟨rfl, rfl⟩; exact ⟨rfl, rfl, rfl⟩
      · rintro ⟨rfl, rfl, -⟩; exact ⟨rfl, rfl⟩

end NodeRef

end ChordSearch
