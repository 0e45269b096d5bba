import WingBox.Scalar

/-!
# Vectors in space

`Vec K` is a triple of coordinates.  It serves as a point and as a free vector: a point minus a
point is a vector, a point plus a vector is a point.

* `Vec.dot`, `Vec.cross`, `Vec.norm` are the products and the length;
* `Vec.normalize?` gives a direction, or none for a vector that is too short to have one;
* `Vec.lerp` runs along the line through two points;
* `Vec.rotate` turns a vector around an axis, `Vec.perpendicular` finds one across another.
-/

namespace WingBox

/-- A point of space, or a free vector. -/
@[ext]
structure Vec (K : Type) where
  /-- Chordwise coordinate. -/
  x : K
  /-- Spanwise coordinate. -/
  y : K
  /-- Upward coordinate. -/
  z : K
deriving BEq, DecidableEq

namespace Vec

open Scalar

variable {K : Type} [Scalar K]

/-! ### Vector space -/

instance : Zero (Vec K) := ⟨⟨0, 0, 0⟩⟩

instance : Add (Vec K) := ⟨fun a b => ⟨a.x + b.x, a.y + b.y, a.z + b.z⟩⟩

instance : Sub (Vec K) := ⟨fun a b => ⟨a.x - b.x, a.y - b.y, a.z - b.z⟩⟩

instance : Neg (Vec K) := ⟨fun a => ⟨-a.x, -a.y, -a.z⟩⟩

instance : SMul K (Vec K) := ⟨fun s a => ⟨a.x * s, a.y * s, a.z * s⟩⟩

/-- A vector divided by a scalar. -/
instance : HDiv (Vec K) K (Vec K) := ⟨fun a s => ⟨a.x / s, a.y / s, a.z / s⟩⟩

/-! Coordinates of sums and multiples. -/

@[simp] theorem zero_x : (0 : Vec K).x = 0 := rfl

@[simp] theorem zero_y : (0 : Vec K).y = 0 := rfl

@[simp] theorem zero_z : (0 : Vec K).z = 0 := rfl

@[simp] theorem add_x (a b : Vec K) : (a + b).x = a.x + b.x := rfl

@[simp] theorem add_y (a b : Vec K) : (a + b).y = a.y + b.y := rfl

@[simp] theorem add_z (a b : Vec K) : (a + b).z = a.z + b.z := rfl

@[simp] theorem sub_x (a b : Vec K) : (a - b).x = a.x - b.x := rfl

@[simp] theorem sub_y (a b : Vec K) : (a - b).y = a.y - b.y := rfl

@[simp] theorem sub_z (a b : Vec K) : (a - b).z = a.z - b.z := rfl

@[simp] theorem neg_x (a : Vec K) : (-a).x = -a.x := rfl

@[simp] theorem neg_y (a : Vec K) : (-a).y = -a.y := rfl

@[simp] theorem neg_z (a : Vec K) : (-a).z = -a.z := rfl

@[simp] theorem smul_x (s : K) (a : Vec K) : (s • a).x = a.x * s := rfl

@[simp] theorem smul_y (s : K) (a : Vec K) : (s • a).y = a.y * s := rfl

@[simp] theorem smul_z (s : K) (a : Vec K) : (s • a).z = a.z * s := rfl

@[simp] theorem div_x (a : Vec K) (s : K) : (a / s).x = a.x / s := rfl

@[simp] theorem div_y (a : Vec K) (s : K) : (a / s).y = a.y / s := rfl

@[simp] theorem div_z (a : Vec K) (s : K) : (a / s).z = a.z / s := rfl

/-- The chordwise direction. -/
def xAxis : Vec K := ⟨1, 0, 0⟩

/-- The spanwise direction. -/
def yAxis : Vec K := ⟨0, 1, 0⟩

/-- The upward direction. -/
def zAxis : Vec K := ⟨0, 0, 1⟩

/-! ### Products and length -/

/-- The scalar product. -/
def dot (a b : Vec K) : K := a.x * b.x + a.y * b.y + a.z * b.z

/-- The vector product. -/
def cross (a b : Vec K) : Vec K :=
  ⟨a.y * b.z - a.z * b.y, a.z * b.x - a.x * b.z, a.x * b.y - a.y * b.x⟩

/-- The square of the length. -/
def normSq (a : Vec K) : K := a.dot a

/-- The length. -/
def norm (a : Vec K) : K := sqrt a.normSq

/-- The distance of two points. -/
def distance (a b : Vec K) : K := (a - b).norm

/-- The vector divided by its length. -/
def normalize (a : Vec K) : Vec K := a / a.norm

/-- The vector divided by its length, unless that is at most `bound`. -/
def normalize? (a : Vec K) (bound : K) : Option (Vec K) :=
  let n := a.norm
  if n ≤ bound then none else some (a / n)

theorem normalize?_eq_some_iff {v u : Vec K} {bound : K} :
    v.normalize? bound = some u ↔ ¬ v.norm ≤ bound ∧ v.normalize = u := by
  unfold normalize? normalize
  dsimp only
  split
  next hle =>
    constructor <;> intro h
    · cases h
    · exact absurd hle h.1
  next hlt => exact ⟨fun h => ⟨hlt, Option.some.inj h⟩, fun h => congrArg some h.2⟩

/-- The points lie within the tolerance of each other. -/
def Near (a b : Vec K) : Prop := (a - b).norm < tolerance

instance (a b : Vec K) : Decidable (Near a b) := inferInstanceAs (Decidable (_ < _))

/-! ### Lines and boxes -/

/-- The point at `t` on the line that passes `a` at 0 and `b` at 1. -/
def lerp (a b : Vec K) (t : K) : Vec K := a + t • (b - a)

/-- The point half way between two points. -/
def center (a b : Vec K) : Vec K := (0.5 : K) • (a + b)

/-- The smaller coordinate along every axis. -/
def inf (a b : Vec K) : Vec K :=
  ⟨if a.x ≤ b.x then a.x else b.x, if a.y ≤ b.y then a.y else b.y,
    if a.z ≤ b.z then a.z else b.z⟩

/-- The larger coordinate along every axis. -/
def sup (a b : Vec K) : Vec K :=
  ⟨if b.x ≤ a.x then a.x else b.x, if b.y ≤ a.y then a.y else b.y,
    if b.z ≤ a.z then a.z else b.z⟩

/-! ### Rotation -/

/-- The rows of the matrix that turns by `angle` radians, right-handed, around the unit vector
`u`.  A turn by zero is the identity whatever `u` is. -/
def turnRows (u : Vec K) (angle : K) : Vec (Vec K) :=
  if angle == 0 then ⟨xAxis, yAxis, zAxis⟩
  else
    let s := sin angle
    let c := cos angle
    let d := 1 - c
    let xx := u.x * u.x
    let yy := u.y * u.y
    let zz := u.z * u.z
    ⟨⟨xx + (1 - xx) * c, u.x * u.y * d - u.z * s, u.x * u.z * d + u.y * s⟩,
      ⟨u.x * u.y * d + u.z * s, yy + (1 - yy) * c, u.y * u.z * d - u.x * s⟩,
      ⟨u.x * u.z * d - u.y * s, u.y * u.z * d + u.x * s, zz + (1 - zz) * c⟩⟩

/-- `v` turned by `angle` radians, right-handed, around the unit vector `u`. -/
def turn (u : Vec K) (angle : K) (v : Vec K) : Vec K :=
  let rows := turnRows u angle
  ⟨rows.x.dot v, rows.y.dot v, rows.z.dot v⟩

/-- `v` turned by `degrees`, right-handed, around `axis`.  An axis without direction turns
nothing, and so does an angle of zero; one so small that it is zero in radians still multiplies
by the identity. -/
def rotate (v axis : Vec K) (degrees : K) : Vec K :=
  if axis.norm < angleTolerance ∨ degrees == 0 then v
  else turn axis.normalize (radians degrees) v

/-- A unit vector across `v`, found from an axis.  There is none if `v` is parallel to that axis. -/
def perpendicular (v : Vec K) : Vec K :=
  (v.cross (if abs v.x < 0.9 then xAxis else yAxis)).normalize

end Vec

end WingBox
