/-!
# Decimal digits

Digits as values, their characters, and the list of digits of a natural number.  `ofDigits` and
`toDigits` convert between numbers and digit lists, most significant digit first.
-/

namespace WingBox

/-- A decimal digit. -/
abbrev Digit := Fin 10

namespace Digit

/-- The digit zero. -/
def zero : Digit := ⟨0, by decide⟩

/-- The character of a digit. -/
def toChar (d : Digit) : Char := Char.ofNat ('0'.toNat + d.val)

/-- The digit of a character. -/
def ofChar? (c : Char) : Option Digit :=
  let n := c.toNat - '0'.toNat
  if h : '0'.toNat ≤ c.toNat ∧ n < 10 then some ⟨n, h.2⟩ else none

end Digit

namespace Decimal

/-- The number with the given digits, the most significant first. -/
def ofDigits (ds : List Digit) : Nat := ds.foldl (fun n d => 10 * n + d.val) 0

/-- The digits of a number, the most significant first. -/
def toDigits (n : Nat) : List Digit :=
  if h : n < 10 then [⟨n, h⟩]
  else toDigits (n / 10) ++ [⟨n % 10, Nat.mod_lt n (by decide)⟩]

/-- The characters of a digit list. -/
def chars (ds : List Digit) : List Char := ds.map Digit.toChar

theorem ofDigits_append_singleton (ds : List Digit) (d : Digit) :
    ofDigits (ds ++ [d]) = 10 * ofDigits ds + d.val := by
  simp [ofDigits]

theorem ofDigits_toDigits (n : Nat) : ofDigits (toDigits n) = n := by
  induction n using Nat.strongRecOn with
  | ind n ih =>
    rw [toDigits]
    split
    · simp [ofDigits]
    · rw [ofDigits_append_singleton, ih (n / 10) (by omega)]
      simp only
      omega

/-! ### Positional layout -/

/-- The digits before and after the point when the point stands after the first `point` digits.
A point to the left of all digits has a zero before it, missing places are zero. -/
def layout (ds : List Digit) (point : Int) : List Digit × List Digit :=
  if point ≤ 0 then ([.zero], List.replicate (-point).toNat .zero ++ ds)
  else
    let n := point.toNat
    (ds.take n ++ List.replicate (n - ds.length) .zero, ds.drop n)

end Decimal

end WingBox
