import WingBox.Fault.Shape
import WingBox.Surface.Shape
import WingBox.Wire

/-!
# Faces from wires

* `Face.ofBoundary` fills a closed wire with a fan around the mean of its points;
* `Face.ruled` spans two wires, matched by their parameters, with ruled patches;
* `Face.quad` is the ruled patch between two edges.

A ruled patch is two facets if it is planar and a grid of facets otherwise.
-/

namespace WingBox

open Scalar

variable {K : Type} [Scalar K]

/-! ### Ruled patches -/

/-- Four corners; the rulings join `a` with `c` and `b` with `d`. -/
structure Patch (K : Type) where
  /-- Start of the first edge. -/
  a : Vec K
  /-- End of the first edge. -/
  b : Vec K
  /-- Start of the second edge. -/
  c : Vec K
  /-- End of the second edge. -/
  d : Vec K

namespace Patch

/-- How often a patch that is not planar is divided in either direction. -/
def divisions : Nat := 8

/-- The corners lie in one plane.  Where three of them lie on a line the last one decides. -/
def Planar (p : Patch K) : Prop :=
  match ((p.b - p.a).cross (p.c - p.a)).normalize? (tolerance * tolerance) with
  | some n => abs ((p.d - p.a).dot n) < tolerance
  | none => ((p.d - p.b).cross (p.c - p.b)).norm < tolerance * tolerance

instance (p : Patch K) : Decidable p.Planar := by
  unfold Planar
  split <;> infer_instance

/-- The point at `u` along the edges and `v` along the rulings. -/
def pointAt (p : Patch K) (u v : K) : Vec K :=
  Vec.lerp (Vec.lerp p.a p.b u) (Vec.lerp p.c p.d u) v

/-- The two facets on either side of the diagonal from `a` to `d`, without slivers. -/
def halves (p : Patch K) : List (Triangle K) :=
  [⟨p.a, p.b, p.d⟩, ⟨p.a, p.d, p.c⟩].filterMap Triangle.facet?

/-- The part of the patch in column `i` and row `j` of its division. -/
def cell (p : Patch K) (i j : Nat) : Patch K :=
  let step : K := 1 / (divisions : Nat)
  let u : K := (i : K) * step
  let u' : K := ((i + 1 : Nat) : K) * step
  let v : K := (j : K) * step
  let v' : K := ((j + 1 : Nat) : K) * step
  ⟨p.pointAt u v, p.pointAt u' v, p.pointAt u v', p.pointAt u' v'⟩

/-- The facets of the patch. -/
def facets (p : Patch K) : List (Triangle K) :=
  if p.Planar then p.halves
  else
    (List.range divisions).flatMap fun i => (List.range divisions).flatMap fun j =>
      (p.cell i j).halves

end Patch

namespace Face

/-- The ruled patch between the edges from `a` to `b` and from `c` to `d`. -/
def quad (a b c d : Vec K) : Face K := ⟨Patch.facets ⟨a, b, c, d⟩⟩

/-! ### Filled wires -/

/-- The facets that join `center` with the edges of a loop, whose last point is joined with
`first`. -/
def fanAround (center first : Vec K) : List (Vec K) → List (Triangle K)
  | [] => []
  | [p] => (Triangle.facet? ⟨center, p, first⟩).toList
  | p :: q :: ps => (Triangle.facet? ⟨center, p, q⟩).toList ++ fanAround center first (q :: ps)

/-- The sum of some points as vectors. -/
def sumOfPoints (ps : List (Vec K)) : Vec K := ps.foldl (· + ·) 0

/-- The face inside a closed wire, which must be star-shaped around the mean of its points. -/
def ofBoundary (w : Wire K) : Except ShapeFault (Face K) :=
  if w.Closed then
    let loop := w.points.dropLast
    if loop.length < 3 then .error (.degenerate .fewBoundaryPoints)
    else
      let center := sumOfPoints loop / ((loop.length : Nat) : K)
      match fanAround center w.start loop with
      | [] => .error (.degenerate .noArea)
      | facets => .ok ⟨facets⟩
  else .error .openWire

/-! ### Ruled faces -/

/-- How far apart two parameters must be to bound a strip. -/
def parameterGap : K := 1e-9

/-- Parameters in order without those too near to the one kept before, of which `t` is the
first. -/
def spacedAfter (t : K) : List K → List K
  | [] => []
  | s :: ss => if abs (s - t) < parameterGap then spacedAfter t ss else s :: spacedAfter s ss

/-- Parameters in order without those too near to the one kept before. -/
def spaced : List K → List K
  | [] => []
  | t :: ts => t :: spacedAfter t ts

/-- The parameters at which strips between two wires begin and end. -/
def stripBounds (w v : Wire K) : List K :=
  spaced ((w.parameters ++ v.parameters).mergeSort totalLE)

/-- The strip of a ruled face between two parameters. -/
def strip (w v : Wire K) (s t : K) : List (Triangle K) :=
  Patch.facets ⟨w.pointAt s, w.pointAt t, v.pointAt s, v.pointAt t⟩

/-- The ruled face between two wires, matched by their parameters. -/
def ruled (w v : Wire K) : Except ShapeFault (Face K) :=
  let bounds := stripBounds w v
  match (List.zipWith (strip w v) bounds bounds.tail).flatten with
  | [] => .error (.degenerate .coincidentWires)
  | facets => .ok ⟨facets⟩

/-- The wire, run so that it leads along `dir` rather than against it. -/
def orient (dir : Vec K) (w : Wire K) : Wire K :=
  if (w.stop - w.start).dot dir < 0 then w.reversed else w

/-- The ruled face between two wires that are both run along `dir`. -/
def ruledAlong (dir : Vec K) (w v : Wire K) : Except ShapeFault (Face K) :=
  ruled (orient dir w) (orient dir v)

end Face

end WingBox
