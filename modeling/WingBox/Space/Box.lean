import WingBox.Space.Vec

/-!
# Boxes

Axis-aligned boxes: the smallest box around points, growth by a gap, and the test that keeps
apart what cannot meet.
-/

namespace WingBox

/-- A box with faces across the axes. -/
structure Box (K : Type) where
  /-- The corner with the smallest coordinates. -/
  lo : Vec K
  /-- The corner with the largest coordinates. -/
  hi : Vec K

namespace Box

variable {K : Type} [Scalar K]

/-- The box of a single point. -/
def point (p : Vec K) : Box K := ⟨p, p⟩

/-- The box grown to reach `p`. -/
def including (b : Box K) (p : Vec K) : Box K := ⟨b.lo.inf p, b.hi.sup p⟩

/-- The smallest box around two boxes. -/
def union (a b : Box K) : Box K := ⟨a.lo.inf b.lo, a.hi.sup b.hi⟩

/-- The smallest box around some points. -/
def ofPoints? : List (Vec K) → Option (Box K)
  | [] => none
  | p :: ps => some (ps.foldl including (point p))

/-- The point half way between the corners. -/
def center (b : Box K) : Vec K := Vec.center b.lo b.hi

/-- The lengths of the sides. -/
def size (b : Box K) : Vec K := b.hi - b.lo

/-- The distance of the corners. -/
def diagonal (b : Box K) : K := b.size.norm

/-- The box grown by `gap` on every side. -/
def enlarged (b : Box K) (gap : K) : Box K :=
  ⟨b.lo - ⟨gap, gap, gap⟩, b.hi + ⟨gap, gap, gap⟩⟩

/-- The point lies in the box. -/
def Contains (b : Box K) (p : Vec K) : Prop :=
  (b.lo.x ≤ p.x ∧ p.x ≤ b.hi.x) ∧ (b.lo.y ≤ p.y ∧ p.y ≤ b.hi.y) ∧ (b.lo.z ≤ p.z ∧ p.z ≤ b.hi.z)

instance (b : Box K) (p : Vec K) : Decidable (b.Contains p) :=
  inferInstanceAs (Decidable (_ ∧ _))

/-- No axis separates the boxes. -/
def Overlaps (a b : Box K) : Prop :=
  (a.lo.x ≤ b.hi.x ∧ b.lo.x ≤ a.hi.x) ∧ (a.lo.y ≤ b.hi.y ∧ b.lo.y ≤ a.hi.y) ∧
    (a.lo.z ≤ b.hi.z ∧ b.lo.z ≤ a.hi.z)

instance (a b : Box K) : Decidable (a.Overlaps b) := inferInstanceAs (Decidable (_ ∧ _))

end Box

end WingBox
