import WingBox.Decimal.Binary
import WingBox.Decimal.Digits

/-!
# Shortest decimals

The decimal of a binary fraction is the one with the fewest digits among those that round to the
fraction, and among those the nearest to it.  Where two are equally near, a `Tie` says which one
is meant.

A floating-point number is rounded to from an interval around it, which reaches half a unit of
its last place to both sides, and a quarter of a unit below a number at which the unit changes.
The ends belong to the interval if the significand is even.  If a point of a decimal grid lies in
the interval, so does one of the two neighbours of the number on that grid; hence `Decimal.hit?`
tests two points of each grid, and `Decimal.shortest` takes the coarsest grid with a hit.
-/

namespace WingBox

/-- The number `digits · 10 ^ exponent`. -/
structure Decimal where
  /-- The factor of the power of ten. -/
  digits : Nat
  /-- The power of ten. -/
  exponent : Int

/-- The choice between two neighbouring decimals of which a number is exactly the middle. -/
inductive Tie where
  /-- The decimal whose last digit is even. -/
  | toEven
  /-- The decimal further from zero. -/
  | awayFromZero
  deriving DecidableEq

/-- Of the neighbours `c` and `c + 1` the smaller one is chosen. -/
def Tie.choosesLower (tie : Tie) (c : Nat) : Bool :=
  match tie with
  | .toEven => c % 2 = 0
  | .awayFromZero => false

namespace Decimal

open BinaryFraction

/-- A multiple of `10 ^ s` that rounds to `v`, the nearest one, of two equally near the one that
`tie` chooses. -/
def hit? (tie : Tie) (v : BinaryFraction) (s : Int) : Option Nat :=
  let m := v.significand
  let unit := Nat.pow 2 v.exponent.toNat * Nat.pow 10 (-s).toNat
  let step := 4 * (Nat.pow 2 (-v.exponent).toNat * Nat.pow 10 s.toNat)
  let mid := 4 * m * unit
  let below := if m = fullSignificand ∧ leastExponent < v.exponent then unit else 2 * unit
  let slack := if m % 2 = 0 then 1 else 0
  let c := mid / step
  let lower := mid < c * step + below + slack
  let upper := (c + 1) * step < mid + 2 * unit + slack
  let rest := 2 * (mid % step)
  if lower ∧ upper then
    some (if rest < step ∨ (rest = step ∧ tie.choosesLower c) then c else c + 1)
  else if lower then some c
  else if upper then some (c + 1)
  else none

/-- The first hit on the grids of `10 ^ s`, `10 ^ (s - 1)`, …, of which `grids` are tried. -/
def search (tie : Tie) (v : BinaryFraction) : (grids : Nat) → (s : Int) → Decimal
  | 0, s => ⟨(hit? tie v s).getD 0, s⟩
  | n + 1, s =>
    match hit? tie v s with
    | some c => ⟨c, s⟩
    | none => search tie v n (s - 1)

/-- The shortest decimal that rounds to `v`, of two equally near the one that `tie` chooses.  The
search starts above the first digit, whose place is estimated from the binary logarithm, and
seventeen digits always suffice. -/
def shortest (tie : Tie) (v : BinaryFraction) : Decimal :=
  if v.significand = 0 then ⟨0, 0⟩
  else
    let size : Int := (v.significand.log2 + 1 : Nat) + v.exponent
    search tie v 22 (size * 30103 / 100000 + 2)

/-- The digits of a decimal, the most significant first. -/
def digitList (d : Decimal) : List Digit := toDigits d.digits

/-- How many digits stand before the point, negative if zeros follow it. -/
def point (d : Decimal) : Int := d.digitList.length + d.exponent

/-- The digits before and after the point. -/
def parts (d : Decimal) : List Digit × List Digit :=
  if d.digits = 0 then ([Digit.zero], []) else layout d.digitList d.point

/-- The text of a floating-point number in positional notation, without a point for whole
numbers.  Of two equally near decimals it shows the one further from zero. -/
def positionalText (x : Float) : String :=
  match FloatForm.of x with
  | .undefined => "NaN"
  | .infinite negative => if negative then "-inf" else "inf"
  | .finite negative v =>
    let (whole, fraction) := (shortest .awayFromZero v).parts
    let sign := if negative then ['-'] else []
    let tail := if fraction.isEmpty then [] else '.' :: chars fraction
    String.ofList (sign ++ chars whole ++ tail)

end Decimal

end WingBox
