import WingBox.Build.Patch
import WingBox.Structure.Query

/-!
# Spars

A spar runs through its positions.  Every two consecutive positions span an oversized panel,
which is trimmed against the wing to give a face of the spar.

* `Query.panels` are the panels and the line through the positions;
* `Query.sparGeometry` are the trimmed faces;
* `Query.sparCaps` are the edges along the skins.
-/

namespace WingBox

open Scalar

namespace Query

variable {K : Type} [Scalar K]

/-! ### Positions -/

/-- The point of the midplane at a position. -/
def midplanePoint (p : SparPosition K) : Query K (Vec K) := do
  let w ← wing
  match p.location with
  | .eta eta => return w.point eta p.xsi
  | .elementUid uid => ofExcept (w.elementPoint uid p.xsi)

/-- A plane square of side `2 * r` around `p`, across the chords. -/
def crossSquare (p : Vec K) (r : K) : Face K :=
  Face.quad (p + ⟨0, -r, -r⟩) (p + ⟨0, -r, r⟩) (p + ⟨0, r, -r⟩) (p + ⟨0, r, r⟩)

/-- The direction from one end of a cut through a section face to the other, turned upward. -/
def heightDirection (uid : String) (face : Face K) (p : Vec K) : Except (Error K) (Vec K) :=
  let r := (face.box?.map Box.diagonal).getD 0
  match Edge.looseEnds ((Shape.ofFace face).intersection (.ofFace (crossSquare p r))) with
  | [a, b] =>
    match (b - a).normalize? tolerance with
    | some up => .ok (if up.z < 0 then -up else up)
    | none => .error (.geometry uid .noSectionHeight)
  | ends => .error (.geometry uid (.sectionCutEnds ends.length))

/-- The direction of the height of a spar at a position and its point.  In a section it follows
the face of the section, elsewhere it is upward. -/
def upVector (position : SparPosition K) (p : Vec K) : Query K (Vec K) := do
  match position.elementUid? with
  | none => return Vec.zAxis
  | some element => ofExcept (heightDirection position.uid (← elementFace element) p)

/-! ### Panels -/

/-- A position with its point and the direction of the height there. -/
structure Station (K : Type) where
  /-- The position. -/
  position : SparPosition K
  /-- Its point on the midplane. -/
  point : Vec K
  /-- The direction of the height. -/
  up : Vec K

/-- The panels between consecutive stations, of which the first one has the index `i`.  At the
ends of the wing a panel reaches beyond it, so that it crosses the faces there. -/
def panelsFrom (spar : String) (size : K) (i : Nat) :
    List (Station K) → Except (Error K) (List (Face K))
  | a :: b :: rest => do
    let dir ← Error.require (.geometry spar (.coincidentPositions i))
      ((b.point - a.point).normalize? tolerance)
    let inner := if a.position.isAtInnerBorder then a.point - size • dir else a.point
    let outer := if b.position.isAtOuterBorder then b.point + size • dir else b.point
    let innerUp := size • a.up
    let outerUp := size • b.up
    let faces ← panelsFrom spar size (i + 1) (b :: rest)
    return Face.quad (inner + innerUp) (inner - innerUp) (outer + outerUp) (outer - outerUp)
      :: faces
  | _ => return []

/-- The points of the midplane lines between consecutive points. -/
def linePoints (w : Wing K) : List (Vec K) → Except (Error K) (List (Vec K))
  | p :: q :: rest => do
    let line ← w.midplaneLine p q
    return line.points ++ (← linePoints w (q :: rest))
  | _ => return []

/-- The panels of a spar and the line through its positions, computed anew. -/
def buildPanels (s : SparSegment K) : Query K (SparPanels K) := do
  let w ← wing
  let positions ← s.positionUids.mapM position
  if positions.length < 2 then
    throw (.config s.uid .fewPositions)
  let points ← positions.mapM midplanePoint
  let ups ← (List.zip positions points).mapM fun (p, point) => upVector p point
  let r ← size
  let stations := List.zipWith (fun (p, point) up => ⟨p, point, up⟩) (List.zip positions points) ups
  let faces ← ofExcept (panelsFrom s.uid r 1 stations)
  let line ← ofExcept (linePoints w points)
  let midplaneLine ← require (.geometry s.uid .noSparExtent) (Wire.ofPoints? line)
  return ⟨midplaneLine, .ofFaces faces⟩

/-- The panels of a spar and the line through its positions. -/
def panels (s : SparSegment K) : Query K (SparPanels K) :=
  cached (.spar .panels s.uid) (buildPanels s)

/-! ### Faces and caps -/

/-- The faces of a spar, computed anew. -/
def buildSparGeometry (s : SparSegment K) : Query K (Shape K) := do
  let p ← panels s
  let shell ← loft
  return .ofFaces (← ofExcept (p.cutShape.faces.mapM fun f => trim s.uid f shell))

/-- The faces of a spar, trimmed to the wing. -/
def sparGeometry (s : SparSegment K) : Query K (Shape K) :=
  cached (.spar .geometry s.uid) (buildSparGeometry s)

/-- The edges of a spar along the skins, computed anew. -/
def buildSparCaps (s : SparSegment K) : Query K (Caps K) := do
  let p ← panels s
  skinEdges p.cutShape s.hasCap

/-- The edges of a spar along the skins on which it has caps. -/
def sparCaps (s : SparSegment K) : Query K (Caps K) :=
  cached (.spar .caps s.uid) (buildSparCaps s)

/-! ### Lines -/

/-- The line with a name. -/
def line (l : NamedLine) : Query K (Wire K) := do
  match l with
  | .leadingEdge => ofExcept (← wing).leadingEdge
  | .trailingEdge => ofExcept (← wing).trailingEdge
  | .spar uid => return (← panels (← spar uid)).midplaneLine

/-- The length of a line. -/
def lineLength (l : NamedLine) : Query K K := return (← line l).length

/-- The point at a parameter of a line. -/
def linePoint (l : NamedLine) (eta : K) : Query K (Vec K) := return (← line l).pointAt eta

/-- The direction of a line where it passes closest to a point. -/
def lineDirection (l : NamedLine) (p : Vec K) : Query K (Vec K) := do
  let w ← line l
  return w.tangentAt (w.project p)

end Query

end WingBox
