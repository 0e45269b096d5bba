import WingBox.Surface.Shape

/-!
# Where surfaces meet

`Triangle.intersect?` is the segment in which two facets cross; facets that touch in a point or
lie in one plane have none.  `Shape.intersection` collects the segments of all pairs of facets of
two shapes, without repeats.
-/

namespace WingBox

open Scalar

variable {K : Type} [Scalar K]

namespace Triangle

/-! ### A triangle and a plane -/

/-- A side of a triangle with the snapped distances of its ends to a plane. -/
structure Side (K : Type) where
  /-- Where the side begins. -/
  start : Vec K
  /-- Where the side ends. -/
  stop : Vec K
  /-- The distance at the start. -/
  startDistance : K
  /-- The distance at the end. -/
  stopDistance : K

/-- The sides of a triangle in order. -/
def sides (t : Triangle K) (plane : Plane K) : List (Side K) :=
  let da := plane.snappedDistance t.a
  let db := plane.snappedDistance t.b
  let dc := plane.snappedDistance t.c
  [⟨t.a, t.b, da, db⟩, ⟨t.b, t.c, db, dc⟩, ⟨t.c, t.a, dc, da⟩]

namespace Side

/-- The point where the side crosses the plane between its ends, if it does. -/
def crossing (s : Side K) : List (Vec K) :=
  if s.startDistance * s.stopDistance < 0 then
    [Vec.lerp s.start s.stop (s.startDistance / (s.startDistance - s.stopDistance))]
  else []

/-- The start of the side if `keep` holds of its distance. -/
def startIf (s : Side K) (keep : K → Bool) : List (Vec K) :=
  if keep s.startDistance then [s.start] else []

/-- The points of the plane on the side, its end left out. -/
def contacts (s : Side K) : List (Vec K) := s.startIf (· == 0) ++ s.crossing

end Side

/-- Two points of three that are farthest apart. -/
def farthest (p q r : Vec K) : Vec K × Vec K :=
  (maxBy? (fun pair : Vec K × Vec K => pair.1.distance pair.2) [(p, q), (q, r), (p, r)]).getD
    (p, q)

/-- The segment where the triangle crosses the plane.  None if the triangle lies in the plane or
strictly on one side of it, or touches it in one point. -/
def crossing? (t : Triangle K) (plane : Plane K) : Option (Vec K × Vec K) :=
  let sides := t.sides plane
  if sides.all (0 < ·.startDistance) || sides.all (·.startDistance < 0)
      || sides.all (·.startDistance == 0) then
    none
  else
    match sides.flatMap Side.contacts with
    | [p, q] => some (p, q)
    | [p, q, r] => some (farthest p q r)
    | _ => none

/-! ### Two triangles -/

/-- How far two normals must differ for the facets to cross. -/
def crossingBound : K := 1e-12

/-- The segment in which two triangles cross, each of them given with its plane.  Each crosses
the plane of the other in a segment of the line common to both planes; the result is what these
segments share. -/
def meet? (t : Triangle K) (p : Plane K) (u : Triangle K) (q : Plane K) : Option (Edge K) := do
  let (a, a') ← t.crossing? q
  let (b, b') ← u.crossing? p
  let dir ← (p.normal.cross q.normal).normalize? crossingBound
  let s := a.dot dir
  let s' := a'.dot dir
  let r := b.dot dir
  let r' := b'.dot dir
  let lo := greatest (least s s') (least r r')
  let hi := least (greatest s s') (greatest r r')
  if hi - lo < tolerance ∨ abs (s' - s) < tolerance then none
  else
    let point (x : K) := Vec.lerp a a' ((x - s) / (s' - s))
    return ⟨point lo, point hi⟩

/-- The segment in which two triangles cross, none for slivers. -/
def intersect? (t u : Triangle K) : Option (Edge K) := do
  t.meet? (← t.plane?) u (← u.plane?)

end Triangle

/-! ### Lists of edges -/

/-- The edges in order, without degenerate ones and those that coincide with one kept before. -/
def Edge.distinct (es : List (Edge K)) : List (Edge K) :=
  es.foldl
    (fun kept e =>
      if e.Degenerate ∨ ∃ u ∈ kept, u.Coincide e then kept else kept ++ [e])
    []

/-! ### Blades -/

/-- A facet that cuts, with its plane and a box around it. -/
structure Blade (K : Type) where
  /-- The facet. -/
  facet : Triangle K
  /-- Its plane. -/
  plane : Plane K
  /-- The box around it, enlarged by the tolerance. -/
  around : Box K

namespace Blade

/-- The blade of a facet, unless that is a sliver. -/
def of? (t : Triangle K) : Option (Blade K) :=
  t.plane?.map fun plane => ⟨t, plane, t.box.enlarged tolerance⟩

/-- The segment in which a triangle, given with its plane and its box, crosses the blade.  Boxes
that do not overlap are not looked at further. -/
def meet? (b : Blade K) (t : Triangle K) (plane : Plane K) (box : Box K) : Option (Edge K) :=
  if b.around.Overlaps box then t.meet? plane b.facet b.plane else none

end Blade

/-! ### Shapes -/

namespace Shape

/-- The blades of all facets. -/
def blades (s : Shape K) : List (Blade K) := s.triangles.filterMap Blade.of?

/-- The segments in which a triangle crosses some blades. -/
def segments (blades : List (Blade K)) (t : Triangle K) : List (Edge K) :=
  match t.plane? with
  | some plane =>
    let box := t.box
    blades.filterMap (·.meet? t plane box)
  | none => []

/-- The segments in which facets of `s` and `t` cross, before repeats are dropped. -/
def crossings (s t : Shape K) : List (Edge K) :=
  let blades := t.blades
  s.triangles.flatMap (segments blades)

/-- The edges in which two shapes meet. -/
def intersection (s t : Shape K) : List (Edge K) := Edge.distinct (s.crossings t)

end Shape

end WingBox
