import WingBox.Surface.Triangle

/-!
# Faces and shapes

A `Face` is a connected surface patch made of facets, a `Shape` a compound of faces and loose
edges.  Both keep their parts in order.

`Shape.extremes?` are the vertices that lie farthest along a direction, either way, and
`Face.nearest?` is the face of some that is nearest to a point.
-/

namespace WingBox

open Scalar

/-- A surface patch. -/
structure Face (K : Type) where
  /-- The facets in order. -/
  facets : List (Triangle K)

namespace Face

variable {K : Type} [Scalar K]

/-- The patch without facets. -/
def empty : Face K := ⟨[]⟩

/-- The sum of the areas of the facets. -/
def area (f : Face K) : K := sum (f.facets.map Triangle.area)

/-- The vertices of all facets in order. -/
def vertices (f : Face K) : List (Vec K) := f.facets.flatMap Triangle.vertices

/-- The smallest box around the face, if it has facets. -/
def box? (f : Face K) : Option (Box K) :=
  match f.facets with
  | [] => none
  | t :: ts => some (ts.foldl (fun b t => b.union t.box) t.box)

/-- The image under a transformation. -/
def transformed (m : Transform K) (f : Face K) : Face K := ⟨f.facets.map (·.transformed m)⟩

/-- The distance of a point to the nearest facet.  To a face without facets it is the largest
distance there is, if there is one. -/
def distance? (f : Face K) (p : Vec K) : Option K :=
  f.facets.foldl
    (fun best t =>
      let d := t.distance p
      some (match best with
        | some b => least b d
        | none => d))
    infinity?

end Face

/-- A compound of faces and loose edges. -/
structure Shape (K : Type) where
  /-- The faces in order. -/
  faces : List (Face K)
  /-- The loose edges in order. -/
  edges : List (Edge K)

namespace Shape

variable {K : Type}

/-- The shape without parts. -/
def empty : Shape K := ⟨[], []⟩

/-- The shape of one face. -/
def ofFace (f : Face K) : Shape K := ⟨[f], []⟩

/-- The shape of some faces. -/
def ofFaces (fs : List (Face K)) : Shape K := ⟨fs, []⟩

/-- The shape of some loose edges. -/
def ofEdges (es : List (Edge K)) : Shape K := ⟨[], es⟩

/-- All parts of `s`, then all parts of `t`. -/
instance : Append (Shape K) := ⟨fun s t => ⟨s.faces ++ t.faces, s.edges ++ t.edges⟩⟩

@[simp] theorem faces_append (s t : Shape K) : (s ++ t).faces = s.faces ++ t.faces := rfl

@[simp] theorem edges_append (s t : Shape K) : (s ++ t).edges = s.edges ++ t.edges := rfl

/-- No part of the shape has any extent: no edges, and no facets in any face. -/
def isEmpty (s : Shape K) : Bool := s.faces.all (·.facets.isEmpty) && s.edges.isEmpty

/-- The facets of all faces in order. -/
def triangles (s : Shape K) : List (Triangle K) := s.faces.flatMap Face.facets

@[simp] theorem triangles_append (s t : Shape K) :
    (s ++ t).triangles = s.triangles ++ t.triangles := by
  simp [triangles]

variable [Scalar K]

/-- The vertices of the faces, then the ends of the edges. -/
def vertices (s : Shape K) : List (Vec K) :=
  s.faces.flatMap Face.vertices ++ s.edges.flatMap fun e => [e.start, e.stop]

/-- The smallest box around the shape, if it has vertices. -/
def box? (s : Shape K) : Option (Box K) := Box.ofPoints? s.vertices

/-- The diagonal of the smallest box, zero for a shape without vertices. -/
def diagonal (s : Shape K) : K :=
  match s.box? with
  | some b => b.diagonal
  | none => 0

/-- The sum of the areas of the faces. -/
def area (s : Shape K) : K := sum (s.faces.map Face.area)

/-- The sum of the lengths of the loose edges. -/
def edgeLength (s : Shape K) : K := sum (s.edges.map Edge.length)

/-- The image under a transformation. -/
def transformed (m : Transform K) (s : Shape K) : Shape K :=
  ⟨s.faces.map (·.transformed m), s.edges.map (·.transformed m)⟩

end Shape

/-! ### Extreme points and nearest faces -/

section Extreme

variable {K : Type} [Scalar K]

/-- The vertices of a shape that lie lowest and highest along a direction, of equal ones the
first. -/
def Shape.extremes? (s : Shape K) (dir : Vec K) : Option (Vec K × Vec K) :=
  match s.vertices with
  | [] => none
  | p :: ps =>
    let start := (p.dot dir, p)
    let (lo, hi) := ps.foldl
      (fun (lo, hi) q =>
        let h := q.dot dir
        (if h < lo.1 then (h, q) else lo, if hi.1 < h then (h, q) else hi))
      (start, start)
    some (lo.2, hi.2)

/-- A distance compared with another in the order of all values; none is the largest. -/
def distanceLE : Option K → Option K → Bool
  | _, none => true
  | none, some _ => false
  | some a, some b => totalLE a b

/-- The face with the least distance to a point, of equally near ones the first, and its place
among the faces, counted from zero. -/
def Face.nearest? (fs : List (Face K)) (p : Vec K) : Option (Nat × Face K) :=
  match fs.zipIdx.map fun (f, i) => (f.distance? p, i, f) with
  | [] => none
  | c :: cs => some (cs.foldl (fun best c => if distanceLE best.1 c.1 then best else c) c).2

end Extreme

end WingBox
