import Mathlib
import WingBox.Definition.Spar
import WingBox.Proofs.Json.Scan

/-!
# Written numbers

The numerals that are written are well formed (`Numeral.wellFormed_ofNat` and
`Numeral.wellFormed_ofFloat?`), and a natural number reads back exactly.

Floating-point numbers are written with the shortest digits, but read with a rounding at each of
a few steps, so not every number comes back.  `Numeral.Kept` singles out those that do.
-/

namespace WingBox

/-! ### Digits before the point -/

namespace Decimal

theorem wholePart_singleton (d : Digit) : WholePart [d] :=
  ⟨List.cons_ne_nil d [], fun h => absurd rfl h⟩

theorem wholePart_toDigits (n : Nat) : WholePart (toDigits n) where
  ne_nil := toDigits_ne_nil n
  no_zero hlength := by
    refine head_toDigits ?_
    rintro rfl
    exact hlength (by rw [toDigits]; rfl)

theorem wholePart_layout {ds : List Digit} (h : WholePart ds) (hzero : ds ≠ [Digit.zero])
    (point : Int) : WholePart (layout ds point).1 := by
  obtain ⟨d, ds, rfl⟩ := List.exists_cons_of_ne_nil h.ne_nil
  have hd : d ≠ Digit.zero := by
    rintro rfl
    cases ds with
    | nil => exact hzero rfl
    | cons e ds => exact h.no_zero (by simp) rfl
  unfold layout
  split_ifs with hpoint
  · exact wholePart_singleton _
  · -- the point stands after a digit, so the first digit comes first
    obtain ⟨n, hn⟩ : ∃ n, point.toNat = n + 1 := ⟨point.toNat - 1, by omega⟩
    simp only [hn, List.take_succ_cons, List.cons_append]
    exact ⟨List.cons_ne_nil _ _, fun _ hhead => hd (Option.some.inj hhead)⟩

theorem wholePart_parts (d : Decimal) : WholePart d.parts.1 := by
  unfold parts
  split_ifs with hzero
  · exact wholePart_singleton _
  · refine wholePart_layout (wholePart_toDigits d.digits) (fun heq => ?_) d.point
    exact head_toDigits hzero (congrArg List.head? heq)

end Decimal

namespace Numeral

/-! ### Numerals -/

theorem wellFormed_ofNat (n : Nat) : (ofNat n).WellFormed where
  whole := Decimal.wholePart_toDigits n
  exponent := nofun

theorem wellFormed_ofDecimal (negative : Bool) (d : Decimal) :
    (ofDecimal negative d).WellFormed := by
  unfold ofDecimal
  dsimp only
  split
  · exact ⟨d.wholePart_parts, nofun⟩
  · refine ⟨?_, ?_⟩
    · obtain ⟨e, es, hdigits⟩ := List.exists_cons_of_ne_nil (Decimal.toDigits_ne_nil d.digits)
      change Decimal.WholePart ((Decimal.toDigits d.digits).take 1)
      rw [hdigits]
      exact Decimal.wholePart_singleton e
    · rintro _ ⟨⟩
      exact Decimal.toDigits_ne_nil _

theorem wellFormed_ofFloat? {x : Float} {n : Numeral} (h : ofFloat? x = some n) :
    n.WellFormed := by
  unfold ofFloat? at h
  split at h
  · obtain rfl := Option.some.inj h
    exact wellFormed_ofDecimal _ _
  · cases h

theorem natural?_ofNat (n : Nat) : (ofNat n).natural? = some n := by
  rw [ofNat, natural?, Decimal.ofDigits_toDigits]

/-- The number is finite, and the numeral that is written for it is read as the number again. -/
def Kept (x : Float) : Prop := ∃ n, ofFloat? x = some n ∧ n.toFloat? = some x

instance (x : Float) : Decidable (Kept x) :=
  decidable_of_iff ((ofFloat? x).bind toFloat? = some x) (by simp [Kept, Option.bind_eq_some_iff])

end Numeral

/-- Only the right angle itself compares equal to it. -/
theorem eq_rightAngle {x : Float} (h : (x == rightAngle) = true) : x = rightAngle := by
  -- the only other numbers that compare equal are the two zeros
  obtain ⟨-, -, heq | ⟨-, hzero⟩ | ⟨-, hzero⟩⟩ := Float.beq_iff_ne_nan_and_eq.1 h
  · exact heq
  all_goals exact absurd (congrArg Float.toBits hzero) (by decide)

end WingBox
