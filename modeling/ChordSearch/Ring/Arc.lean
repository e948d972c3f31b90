import ChordSearch.Ring.Id

/-! # Arcs of the ring

Three clockwise arcs between two positions decide ownership and routing:

* `owns pred key self`: the key lies in `(pred, self]`, so a node whose predecessor is
  `pred` owns it. When `pred = self` the node is alone and owns every key.
* `covers start key stop`: the finger test. Without wrapping (`start < stop`) it is
  `(start, stop]`; when the arc wraps (`start > stop`) the end `stop` itself is left out;
  and `start = stop` covers nothing.
* `inside start key stop`: the open arc `(start, stop)`. When `start = stop` it is the whole
  ring but `start`.

Each is stated through the numeric order of positions; the clockwise-distance reading of
all three is their theory.
-/

namespace ChordSearch.Arc

/-- The key lies in `(pred, self]` clockwise; everything, when `pred = self`. -/
def owns (pred key self : RingId) : Bool :=
  if pred.toNat = self.toNat then true
  else if pred.toNat < self.toNat then pred.toNat < key.toNat && key.toNat ≤ self.toNat
  else pred.toNat < key.toNat || key.toNat ≤ self.toNat

/-- The finger test: `(start, stop]` without wrapping, `(start, stop)` with it, and nothing
when `start = stop`. -/
def covers (start key stop : RingId) : Bool :=
  if start.toNat < stop.toNat then start.toNat < key.toNat && key.toNat ≤ stop.toNat
  else if stop.toNat < start.toNat then start.toNat < key.toNat || key.toNat < stop.toNat
  else false

/-- The open arc `(start, stop)` clockwise; the whole ring but `start` when `start = stop`. -/
def inside (start key stop : RingId) : Bool :=
  if start.toNat < stop.toNat then start.toNat < key.toNat && key.toNat < stop.toNat
  else if stop.toNat < start.toNat then start.toNat < key.toNat || key.toNat < stop.toNat
  else key.toNat ≠ start.toNat

end ChordSearch.Arc
