import WingBox.Surface.Shape
import WingBox.Wire

/-!
# Where wires meet faces and planes

`Face.firstHit?` is the first point of a wire on a face, `Plane.firstCrossing?` the parameter at
which a wire first reaches a plane.
-/

namespace WingBox

open Scalar

variable {K : Type} [Scalar K]

/-! ### Faces -/

/-- How much the distances of the ends of an edge must differ for the edge to cross a plane. -/
def Edge.crossingGap : K := tolerance * 1e-3

/-- The parameter at which an edge pierces a triangle. -/
def Edge.pierce? (e : Edge K) (t : Triangle K) : Option K := do
  let plane ← t.plane?
  let da := plane.signedDistance e.start
  let db := plane.signedDistance e.stop
  if (tolerance < da ∧ tolerance < db) ∨ (da < -tolerance ∧ db < -tolerance) then none
  else if abs (da - db) < Edge.crossingGap then none
  else
    let s := clamp 0 1 (da / (da - db))
    if t.distance (e.pointAt s) ≤ tolerance then some s else none

/-- The first point of an edge on a face. -/
def Face.hit? (f : Face K) (e : Edge K) : Option (Vec K) :=
  (minBy? id (f.facets.filterMap e.pierce?)).map e.pointAt

/-- The first point of a wire on a face. -/
def Face.firstHit? (f : Face K) (w : Wire K) : Option (Vec K) := w.edges.findSome? f.hit?

/-! ### Planes -/

namespace Plane

/-- The arclength at which edges that start at arclength `s` first reach the plane. -/
def crossingFrom (plane : Plane K) (s : K) : List (Edge K) → Option K
  | [] => none
  | e :: es =>
    let da := plane.signedDistance e.start
    let db := plane.signedDistance e.stop
    if abs da ≤ tolerance then some s
    else if da * db < 0 ∨ abs db ≤ tolerance then
      some (s + clamp 0 1 (da / (da - db)) * e.length)
    else plane.crossingFrom (s + e.length) es

/-- The parameter at which a wire first reaches the plane. -/
def firstCrossing? (plane : Plane K) (w : Wire K) : Option K :=
  (plane.crossingFrom 0 w.edges).map (· / w.length)

end Plane

end WingBox
