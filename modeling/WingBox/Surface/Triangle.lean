import WingBox.Space.Box
import WingBox.Surface.Edge

/-!
# Planes and triangles

A `Plane` goes through a point across a unit vector.

Triangles are the facets of all surfaces.  `Triangle.cross` is twice the area as a vector across the
facet, and `Triangle.distance` is the distance of a point to the facet, edges included.
-/

namespace WingBox

open Scalar

/-! ### Planes -/

/-- An infinite plane. -/
structure Plane (K : Type) where
  /-- A point of the plane. -/
  origin : Vec K
  /-- The unit vector across the plane. -/
  normal : Vec K

namespace Plane

variable {K : Type} [Scalar K]

/-- The plane through `origin` across `normal`, unless that has no direction. -/
def across? (origin normal : Vec K) : Option (Plane K) :=
  (normal.normalize? (tolerance * tolerance)).map (⟨origin, ·⟩)

/-- The distance of a point, positive on the side to which the normal points. -/
def signedDistance (plane : Plane K) (p : Vec K) : K := (p - plane.origin).dot plane.normal

/-- The signed distance, zero within the tolerance. -/
def snappedDistance (plane : Plane K) (p : Vec K) : K :=
  let d := plane.signedDistance p
  if abs d < tolerance then 0 else d

end Plane

/-! ### Triangles -/

/-- A planar facet. -/
structure Triangle (K : Type) where
  /-- First vertex. -/
  a : Vec K
  /-- Second vertex. -/
  b : Vec K
  /-- Third vertex. -/
  c : Vec K

namespace Triangle

variable {K : Type} [Scalar K]

/-- The vertices in order. -/
def vertices (t : Triangle K) : List (Vec K) := [t.a, t.b, t.c]

/-- The edges in order, each from a vertex to the next. -/
def edges (t : Triangle K) : List (Edge K) := [⟨t.a, t.b⟩, ⟨t.b, t.c⟩, ⟨t.c, t.a⟩]

/-- A vector across the triangle, as long as twice its area. -/
def cross (t : Triangle K) : Vec K := (t.b - t.a).cross (t.c - t.a)

/-- The area. -/
def area (t : Triangle K) : K := 0.5 * t.cross.norm

/-- The mean of the vertices. -/
def centroid (t : Triangle K) : Vec K := (t.a + t.b + t.c) / (3.0 : K)

/-- The triangle is a sliver: its area is no area at all. -/
def Sliver (t : Triangle K) : Prop := t.area < tolerance * tolerance

instance (t : Triangle K) : Decidable t.Sliver := inferInstanceAs (Decidable (_ < _))

/-- The plane in which the triangle lies, unless it is a sliver. -/
def plane? (t : Triangle K) : Option (Plane K) :=
  if t.Sliver then none else Plane.across? t.a t.cross

/-- The smallest box around the triangle. -/
def box (t : Triangle K) : Box K := ((Box.point t.a).including t.b).including t.c

/-- The image under a transformation. -/
def transformed (m : Transform K) (t : Triangle K) : Triangle K :=
  ⟨m.apply t.a, m.apply t.b, m.apply t.c⟩

/-- The triangle unless it has too little area to be a facet. -/
def facet? (t : Triangle K) : Option (Triangle K) :=
  if tolerance * tolerance < t.area then some t else none

/-! ### Distance of a point -/

/-- A point of the triangle's plane lies on the inner side of the line from `u` to `v`. -/
def Inside (t : Triangle K) (q u v : Vec K) : Prop :=
  -tolerance * t.cross.norm ≤ ((v - u).cross (q - u)).dot t.cross

instance (t : Triangle K) (q u v : Vec K) : Decidable (t.Inside q u v) :=
  inferInstanceAs (Decidable (_ ≤ _))

/-- A point of the triangle's plane lies in the triangle. -/
def Covers (t : Triangle K) (q : Vec K) : Prop :=
  t.Inside q t.a t.b ∧ t.Inside q t.b t.c ∧ t.Inside q t.c t.a

instance (t : Triangle K) (q : Vec K) : Decidable (t.Covers q) :=
  inferInstanceAs (Decidable (_ ∧ _))

/-- The distance of a point to the nearest edge. -/
def edgeDistance (t : Triangle K) (p : Vec K) : K :=
  least (least (capped (Edge.distance ⟨t.a, t.b⟩ p)) (Edge.distance ⟨t.b, t.c⟩ p))
    (Edge.distance ⟨t.c, t.a⟩ p)

/-- The distance of a point to the triangle: to its plane where the triangle covers the foot of
the point, to its edges elsewhere. -/
def distance (t : Triangle K) (p : Vec K) : K :=
  match t.plane? with
  | none => t.edgeDistance p
  | some plane =>
    let h := plane.signedDistance p
    if t.Covers (p - h • plane.normal) then abs h else t.edgeDistance p

end Triangle

end WingBox
