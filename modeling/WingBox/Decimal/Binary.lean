/-!
# Floating-point numbers as binary fractions

A finite floating-point number is a natural number times a power of two.  `FloatForm.of` takes a
number apart, so that its decimal texts can be found in exact arithmetic.
-/

namespace WingBox

/-- The number `significand · 2 ^ exponent`. -/
structure BinaryFraction where
  /-- The factor of the power of two. -/
  significand : Nat
  /-- The power of two. -/
  exponent : Int

namespace BinaryFraction

/-- The least exponent of a floating-point number. -/
def leastExponent : Int := -1074

/-- The significand from which numbers have the full number of bits, the 52nd power of two. -/
def fullSignificand : Nat := 0x10000000000000

/-- How many scales the representation has room for; the last one marks what is not finite. -/
def scaleCount : Nat := 2048

end BinaryFraction

/-- A floating-point number taken apart. -/
inductive FloatForm where
  /-- A number, zero included. -/
  | finite (negative : Bool) (value : BinaryFraction)
  /-- Beyond all numbers. -/
  | infinite (negative : Bool)
  /-- No number. -/
  | undefined

namespace FloatForm

open BinaryFraction

/-- The parts of a floating-point number. -/
def of (x : Float) : FloatForm :=
  let bits := x.toBits.toNat
  let negative := bits >>> 63 = 1
  let scale := bits / fullSignificand % scaleCount
  let rest := bits % fullSignificand
  if scale + 1 = scaleCount then if rest = 0 then .infinite negative else .undefined
  else if scale = 0 then .finite negative ⟨rest, leastExponent⟩
  else .finite negative ⟨fullSignificand + rest, leastExponent + (scale - 1 : Nat)⟩

end FloatForm

end WingBox
