import WingBox.Container.Forest
import WingBox.Cut.Intersect

/-!
# Splitting shapes

`Shape.split` divides the faces of a shape along the facets of a tool.  A facet that a tool
facet crosses is cut along the plane of the tool; the piece of the plane inside the facet is a
chord.  Afterwards `Face.regroup` makes faces of the pieces: pieces that share a part of an edge
belong together unless that part lies on a chord.  They are united pair by pair in a forest, whose
trees are the faces.
-/

namespace WingBox

open Scalar

variable {K : Type} [Scalar K]

namespace Triangle

/-! ### Cutting one facet -/

/-- A facet cut in two. -/
structure Halves (K : Type) where
  /-- The facets to which the normal of the cutting plane points. -/
  above : List (Triangle K)
  /-- The facets on the other side. -/
  below : List (Triangle K)
  /-- The edge between the sides. -/
  chord : Edge K

/-- The facets of a convex polygon, fanned out from its first point. -/
def fan : List (Vec K) → List (Triangle K)
  | [] => []
  | p :: ps => (List.zipWith (Triangle.mk p) ps ps.tail).filterMap facet?

/-- The triangle cut by a plane, if there is a polygon on either side. -/
def cut? (t : Triangle K) (plane : Plane K) : Option (Halves K) :=
  let sides := t.sides plane
  let above := sides.flatMap fun s => s.startIf (0 ≤ ·) ++ s.crossing
  let below := sides.flatMap fun s => s.startIf (· ≤ 0) ++ s.crossing
  match sides.flatMap Side.contacts with
  | [p, q] =>
    if above.length < 3 ∨ below.length < 3 then none
    else some ⟨fan above, fan below, ⟨p, q⟩⟩
  | _ => none

end Triangle

/-! ### Regrouping pieces -/

/-- The midpoint of what two edges on one line share, if that has a length. -/
def Edge.sharedMidpoint? (e f : Edge K) : Option (Vec K) :=
  let d := e.span
  let len := d.norm
  if len < tolerance then none
  else
    let u := d / len
    let strays (p : Vec K) : Bool :=
      let w := p - e.start
      tolerance < (w - w.dot u • u).norm
    if strays f.start || strays f.stop then none
    else
      let s := (f.start - e.start).dot u
      let s' := (f.stop - e.start).dot u
      let lo := greatest (least s s') 0
      let hi := least (greatest s s') len
      if tolerance < hi - lo then some (e.start + (0.5 * (lo + hi)) • u) else none

namespace Face

/-- A facet together with a box around it. -/
structure Piece (K : Type) where
  /-- The facet. -/
  facet : Triangle K
  /-- The box around it, enlarged by the tolerance. -/
  around : Box K

/-- The pieces that facets are. -/
def Piece.ofFacets (facets : List (Triangle K)) : Vector (Piece K) facets.length :=
  ⟨(facets.map fun t => ⟨t, t.box.enlarged tolerance⟩).toArray, by simp⟩

/-- An edge of `p` and an edge of `q` share a part that does not lie on a chord. -/
def joined (chords : List (Edge K)) (p q : Piece K) : Bool :=
  decide (p.around.Overlaps q.around) &&
    p.facet.edges.any fun e => q.facet.edges.any fun f =>
      match e.sharedMidpoint? f with
      | some m => !chords.any fun c => decide (c.distance m < tolerance)
      | none => false

/-- The pairs of places below `n`, the smaller one first. -/
def pairs (n : Nat) : List (Fin n × Fin n) :=
  (List.finRange n).flatMap fun i => ((List.finRange n).filter (i < ·)).map (i, ·)

/-- The forest of the places of pieces in which joined pieces are united. -/
def unite {n : Nat} (chords : List (Edge K)) (pieces : Vector (Piece K) n) : Forest n :=
  (pairs n).foldl
    (fun f ij => if joined chords (pieces.get ij.1) (pieces.get ij.2) then f.union ij.1 ij.2 else f)
    (.singles n)

/-- The faces that pieces make, ordered by their first pieces. -/
def regroup (chords : List (Edge K)) (facets : List (Triangle K)) : List (Face K) :=
  let pieces := Piece.ofFacets facets
  (unite chords pieces).trees.map fun t => ⟨t.items.map fun i => (pieces.get i).facet⟩

end Face

/-! ### Splitting -/

namespace Blade

/-- The blade crosses the facet. -/
def crosses (b : Blade K) (t : Triangle K) : Bool :=
  decide (b.around.Overlaps t.box) &&
    match t.plane? with
    | some plane => (t.meet? plane b.facet b.plane).isSome
    | none => false

/-- The facet cut by the blade, if the blade crosses it. -/
def halves? (b : Blade K) (t : Triangle K) : Option (Triangle.Halves K) :=
  if b.crosses t then t.cut? b.plane else none

/-- Facets cut by a blade, and the chords of the cuts added to those found before. -/
def cutAll (b : Blade K) (facets : List (Triangle K)) (chords : List (Edge K)) :
    List (Triangle K) × List (Edge K) :=
  facets.foldr
    (fun t (rest, chords) =>
      match b.halves? t with
      | some h => (h.above ++ h.below ++ rest, h.chord :: chords)
      | none => (t :: rest, chords))
    ([], chords)

end Blade

/-- The parts of a face between blades, which cut one after the other. -/
def Face.split (f : Face K) (blades : List (Blade K)) : List (Face K) :=
  let (facets, chords) :=
    blades.foldl (fun (facets, chords) b => b.cutAll facets chords) (f.facets, [])
  Face.regroup chords facets

/-- The shape with its faces split along the facets of `tool`; loose edges stay. -/
def Shape.split (s tool : Shape K) : Shape K :=
  let blades := tool.blades
  ⟨s.faces.flatMap (·.split blades), s.edges⟩

end WingBox
