import WingBox.Space.Vec

/-!
# Transformations of space

A `Transform` is a four by four matrix that acts on points.  The last row gives a weight by
which the image is divided; a weight of zero leaves the image undivided.
-/

namespace WingBox

/-- An affine form: a row of the matrix. -/
structure AffineForm (K : Type) where
  /-- The factors of the coordinates. -/
  factors : Vec K
  /-- The value at the origin. -/
  offset : K

namespace AffineForm

variable {K : Type} [Scalar K]

/-- The value at a point. -/
def eval (f : AffineForm K) (p : Vec K) : K := f.factors.dot p + f.offset

/-- The factors and the offset. -/
def entries (f : AffineForm K) : List K := [f.factors.x, f.factors.y, f.factors.z, f.offset]

end AffineForm

/-- A projective transformation of space. -/
structure Transform (K : Type) where
  /-- The form that gives the first coordinate. -/
  x : AffineForm K
  /-- The form that gives the second coordinate. -/
  y : AffineForm K
  /-- The form that gives the third coordinate. -/
  z : AffineForm K
  /-- The form that gives the weight. -/
  weight : AffineForm K

namespace Transform

variable {K : Type} [Scalar K]

/-- The transformation that moves nothing. -/
def identity : Transform K :=
  ⟨⟨.xAxis, 0⟩, ⟨.yAxis, 0⟩, ⟨.zAxis, 0⟩, ⟨0, 1⟩⟩

/-- The image of a point. -/
def apply (m : Transform K) (p : Vec K) : Vec K :=
  let image : Vec K := ⟨m.x.eval p, m.y.eval p, m.z.eval p⟩
  let w := m.weight.eval p
  if w == 0 then image else image / w

/-- The entries, row by row. -/
def entries (m : Transform K) : List K :=
  m.x.entries ++ m.y.entries ++ m.z.entries ++ m.weight.entries

end Transform

end WingBox
