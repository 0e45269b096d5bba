import WingBox.Decimal.Shortest

/-!
# Numbers in JSON text

A `Numeral` is the written form of a number: sign, digits before and after the point, exponent.
`Numeral.toFloat?` reads a floating-point number from it and `Numeral.ofFloat?` writes one;
`Numeral.natural?` and `Numeral.integer?` read whole numbers.

A numeral is read as its leading digits, as many as fit into 64 bits, scaled by a power of ten.
A number too large is refused, one too small is zero.  Numbers are written with the shortest
digits that read back, the even ones of two equally near, and positionally where the first digit
stands between the fifth place after the point and the sixteenth before it.
-/

namespace WingBox

/-- The sign written before the digits of an exponent. -/
inductive ExponentSign where
  | none
  | plus
  | minus

/-- The written form of a number. -/
structure Numeral where
  /-- A minus sign comes first. -/
  negative : Bool
  /-- The digits before the point. -/
  whole : List Digit
  /-- The digits after the point; no point is written if there are none. -/
  fraction : List Digit
  /-- The sign and the digits of the exponent, if there is one. -/
  exponent : Option (ExponentSign × List Digit)

namespace Numeral

/-! ### Text -/

/-- The characters of an exponent. -/
def exponentChars : Option (ExponentSign × List Digit) → List Char
  | .none => []
  | .some (.none, ds) => 'e' :: Decimal.chars ds
  | .some (.plus, ds) => 'e' :: '+' :: Decimal.chars ds
  | .some (.minus, ds) => 'e' :: '-' :: Decimal.chars ds

/-- The characters of a numeral. -/
def toChars (n : Numeral) : List Char :=
  (if n.negative then ['-'] else []) ++ Decimal.chars n.whole
    ++ (if n.fraction.isEmpty then [] else '.' :: Decimal.chars n.fraction)
    ++ exponentChars n.exponent

/-! ### Whole numbers -/

/-- The numeral of a natural number. -/
def ofNat (n : Nat) : Numeral := ⟨false, Decimal.toDigits n, [], none⟩

/-- The numeral of an integer. -/
def ofInt : Int → Numeral
  | .ofNat n => ofNat n
  | .negSucc n => ⟨true, Decimal.toDigits (n + 1), [], none⟩

/-- The natural number written without sign, point and exponent. -/
def natural? (n : Numeral) : Option Nat :=
  match n with
  | ⟨false, whole, [], none⟩ => some (Decimal.ofDigits whole)
  | _ => none

/-- The integer written without point and exponent. -/
def integer? (n : Numeral) : Option Int :=
  match n with
  | ⟨negative, whole, [], none⟩ =>
    let m : Int := Decimal.ofDigits whole
    some (if negative then -m else m)
  | _ => none

/-! ### Reading floating-point numbers -/

/-- The significand extended by digits as long as it fits into 64 bits, and how many digits are
left over. -/
def extend (significand : Nat) : List Digit → Nat × Nat
  | [] => (significand, 0)
  | d :: ds =>
    let next := 10 * significand + d.val
    if next < UInt64.size then extend next ds else (significand, ds.length + 1)

/-- A power of ten. -/
def powerOfTen (n : Nat) : Float := Float.ofScientific 1 false n

/-- `f` divided by `10 ^ n`, in steps that the largest power of ten allows. -/
def shrink (f : Float) (n : Nat) : Float :=
  if n ≤ 308 then f / powerOfTen n
  else if f == 0 then f
  else shrink (f / powerOfTen 308) (n - 308)
termination_by n

/-- `f` scaled by `10 ^ e`, unless that is too large. -/
def scale? (f : Float) : (e : Int) → Option Float
  | .negSucc n => some (shrink f (n + 1))
  | .ofNat n =>
    if n ≤ 308 then
      let r := f * powerOfTen n
      if r.isInf then none else some r
    else if f == 0 then some f
    else none

/-- The value of an exponent. -/
def exponentValue : Option (ExponentSign × List Digit) → Int
  | .none => 0
  | .some (.minus, ds) => -(Decimal.ofDigits ds : Int)
  | .some (_, ds) => Decimal.ofDigits ds

/-- The floating-point number of a numeral, unless it is too large. -/
def toFloat? (n : Numeral) : Option Float :=
  let (significand, dropped) := extend 0 n.whole
  let (significand, left) := extend significand n.fraction
  let e : Int := dropped - (n.fraction.length - left : Nat) + exponentValue n.exponent
  (scale? (Float.ofNat significand) e).map fun f => if n.negative then -f else f

/-! ### Writing floating-point numbers -/

/-- The places of the first digit for which a number is written positionally. -/
def isPositional (place : Int) : Bool := -5 ≤ place ∧ place ≤ 15

/-- The numeral of a decimal. -/
def ofDecimal (negative : Bool) (d : Decimal) : Numeral :=
  let place := d.point - 1
  if isPositional place then
    let (whole, fraction) := d.parts
    ⟨negative, whole, if fraction.isEmpty then [Digit.zero] else fraction, none⟩
  else
    let sign := if place < 0 then .minus else .plus
    ⟨negative, d.digitList.take 1, d.digitList.drop 1,
      some (sign, Decimal.toDigits place.natAbs)⟩

/-- The numeral of a floating-point number, if it is a number. -/
def ofFloat? (x : Float) : Option Numeral :=
  match FloatForm.of x with
  | .finite negative v => some (ofDecimal negative (Decimal.shortest .toEven v))
  | _ => none

end Numeral

end WingBox
