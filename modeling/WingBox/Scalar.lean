/-!
# Scalars

Every length, parameter and coordinate is a value of a type `K` with the operations of
`Scalar`.  The class asks for no laws: the same definitions run on binary floating point, whose
instance is given here, and can be read over an ordered field.

Floating point has values that compare with nothing and values beyond all others.  What the
geometry does with them is part of the class: `totalLE` orders all values, `infinity?` names a
largest value where there is one, and `floorCount` turns a quotient into a count.
-/

namespace WingBox

/-- The operations geometry needs of its numbers. -/
class Scalar (K : Type) extends Add K, Sub K, Mul K, Div K, Neg K, Zero K, One K, LT K, LE K,
    BEq K, NatCast K, OfScientific K where
  /-- Comparisons are decided. -/
  decidableLT : DecidableLT K
  /-- Comparisons are decided. -/
  decidableLE : DecidableLE K
  /-- Absolute value. -/
  abs : K → K
  /-- Square root. -/
  sqrt : K → K
  /-- Sine of an angle in radians. -/
  sin : K → K
  /-- Cosine of an angle in radians. -/
  cos : K → K
  /-- Half the circumference of the unit circle. -/
  pi : K
  /-- An order of all values, which agrees with `<` where `<` decides. -/
  totalLE : K → K → Bool
  /-- The largest value, where there is one. -/
  infinity? : Option K
  /-- The floor as a count of 64 bits; the nearest count if it is out of range. -/
  floorCount : K → UInt64

namespace Scalar

variable {K : Type} [Scalar K]

instance : DecidableLT K := Scalar.decidableLT

instance : DecidableLE K := Scalar.decidableLE

/-! ### Tolerances -/

/-- Points nearer than this coincide. -/
def tolerance : K := 1e-7

/-- A rotation axis shorter than this names no direction. -/
def angleTolerance : K := 1e-6

/-! ### Order -/

/-- The smaller of two values; a value that compares with nothing yields to the other. -/
def least (a b : K) : K :=
  if a < b then a else if b < a then b else if a == a then a else b

/-- The larger of two values; a value that compares with nothing yields to the other. -/
def greatest (a b : K) : K :=
  if b < a then a else if a < b then b else if a == a then a else b

/-- The value of `[lo, hi]` nearest to `x`. -/
def clamp (lo hi x : K) : K :=
  if x < lo then lo else if hi < x then hi else x

/-- `a` comes strictly before `b` in the order of all values. -/
def totalLT (a b : K) : Bool :=
  !totalLE b a

/-- The distance `x`, where one that compares with nothing counts as the largest there is. -/
def capped (x : K) : K :=
  match (infinity? : Option K) with
  | some top => least top x
  | none => x

/-- `x` is below the largest value there is, if there is one. -/
def Bounded (x : K) : Prop :=
  match (infinity? : Option K) with
  | some top => x < top
  | none => True

instance (x : K) : Decidable (Bounded x) := by
  unfold Bounded
  split <;> infer_instance

/-- The first of the elements at which `key` is least in the order of all values. -/
def minBy? {α : Type} (key : α → K) : List α → Option α
  | [] => none
  | x :: xs => some (xs.foldl (fun best y => if totalLT (key y) (key best) then y else best) x)

/-- The last of the elements at which `key` is greatest in the order of all values. -/
def maxBy? {α : Type} (key : α → K) : List α → Option α
  | [] => none
  | x :: xs => some (xs.foldl (fun best y => if totalLE (key best) (key y) then y else best) x)

/-! ### Angles and sums -/

/-- An angle in degrees as one in radians. -/
def radians (degrees : K) : K := degrees * (pi / 180.0)

/-- The sum of a list, from left to right. -/
def sum (xs : List K) : K := xs.foldl (· + ·) 0

/-- The sums of the beginnings of a list, the empty one included. -/
def partialSums (xs : List K) : List K := go 0 xs
where
  /-- The sums that continue `s`. -/
  go (s : K) : List K → List K
    | [] => [s]
    | x :: xs => s :: go (s + x) xs

theorem length_partialSums_go (s : K) (xs : List K) :
    (partialSums.go s xs).length = xs.length + 1 := by
  induction xs generalizing s with
  | nil => rfl
  | cons x xs ih => simp [partialSums.go, ih]

@[simp] theorem length_partialSums (xs : List K) :
    (partialSums xs).length = xs.length + 1 :=
  length_partialSums_go 0 xs

end Scalar

/-! ### Floating point -/

/-- The place of a floating-point value in the order of all values: negative values come in
reverse, zero has two places, and undefined values come last. -/
def floatRank (x : Float) : UInt64 :=
  let bits := x.toBits
  if bits >>> 63 = 1 then ~~~bits else bits ||| 0x8000000000000000

instance : Scalar Float where
  zero := 0
  one := 1
  natCast := Float.ofNat
  decidableLT := inferInstance
  decidableLE := inferInstance
  abs := Float.abs
  sqrt := Float.sqrt
  sin := Float.sin
  cos := Float.cos
  pi := 3.141592653589793
  totalLE a b := floatRank a ≤ floatRank b
  infinity? := some (1.0 / 0.0)
  -- what is below zero counts as zero, so cutting off the fraction is taking the floor
  floorCount := Float.toUInt64

end WingBox
