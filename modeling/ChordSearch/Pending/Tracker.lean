/-! # Pending requests

A tracker remembers requests that await an answer, by transaction id, each stamped with the
time it was sent. Adding under an id replaces what was there; taking an id removes it, so
an answer is matched at most once. Expiry removes every entry whose deadline
(`sentAt + timeout`) is not after the current time, and reports them oldest first, ties by
id.

Times are nanoseconds on the node's clock.
-/

namespace ChordSearch

/-- A request awaiting its answer. -/
structure Pending (α : Type) where
  tx : UInt32
  value : α
  sentAt : Int
  deriving DecidableEq

/-- Requests awaiting answers, at most one per transaction id. -/
structure Tracker (α : Type) where
  entries : List (Pending α)
  deriving DecidableEq

namespace Tracker

variable {α : Type}

/-- The tracker without entries. -/
def empty : Tracker α := ⟨[]⟩

instance : Inhabited (Tracker α) := ⟨empty⟩

/-- Remember `value` under `tx`, sent at `now`, replacing any entry with that id. -/
def add (t : Tracker α) (now : Int) (tx : UInt32) (value : α) : Tracker α :=
  ⟨t.entries.filter (·.tx != tx) ++ [⟨tx, value, now⟩]⟩

/-- The entry under `tx`, if any. -/
def peek (t : Tracker α) (tx : UInt32) : Option (Pending α) := t.entries.find? (·.tx == tx)

/-- Remove and return the entry under `tx`. -/
def take (t : Tracker α) (tx : UInt32) : Option (Pending α) × Tracker α :=
  match t.peek tx with
  | some e => (some e, ⟨t.entries.filter (·.tx != tx)⟩)
  | none => (none, t)

/-- The number of entries. -/
def size (t : Tracker α) : Nat := t.entries.length

/-- Drop every entry. -/
def clear (_ : Tracker α) : Tracker α := empty

/-- Whether `a` was sent before `b`, or at the same time with a smaller id. -/
def Pending.before (a b : Pending α) : Bool :=
  a.sentAt < b.sentAt || (a.sentAt == b.sentAt && a.tx < b.tx)

/-- Remove the entries whose deadline has passed at `now`; they come back oldest first,
ties by id. -/
def expire (t : Tracker α) (now timeout : Int) : List (Pending α) × Tracker α :=
  let (gone, kept) := t.entries.partition fun e => e.sentAt + timeout ≤ now
  (gone.mergeSort fun a b => !(Pending.before b a), ⟨kept⟩)

end Tracker

end ChordSearch
