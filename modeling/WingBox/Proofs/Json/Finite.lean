import Mathlib
import WingBox.Json.Numeral

/-!
# Numbers that are read are finite

A numeral is read by a few rounded operations on floating-point numbers.  Each of them is opened
here as far as its magnitude goes: a number below `2 ^ k` (`Magnitude.Below`) is multiplied by, or
divided by, a power of ten, and rounding at most doubles the result
(`Magnitude.below_roundWithAccuracy`).

* `Magnitude.below_shrink`: scaling down keeps the bound, since rounding does not make up for a
  division by ten;
* `Numeral.isFinite_toFloat?`: what is read is a finite number; scaling up refuses what it cannot
  represent.
-/

namespace WingBox

open Float.Model Float.Model.UnpackedFloat

namespace Magnitude

/-! ### Rounding -/

/-- Zero, or a number below the `k`-th power of two. -/
def Below (k : Int) : UnpackedFloat → Prop
  | .zero _ => True
  | .finite _ m e _ => totalExponent m e ≤ k
  | _ => False

theorem Below.mono {k k' : Int} {u : UnpackedFloat} (h : Below k u) (hk : k ≤ k') :
    Below k' u := by
  cases u with
  | zero s => trivial
  | finite s m e hm => exact le_trans (show totalExponent m e ≤ k from h) hk
  | infinity s | notANumber => exact h

theorem shiftRight_mantissa (em : ExtendedMantissa) (n : Nat) :
    (em >>> n).mantissa = em.mantissa / 2 ^ n := by
  change (Nat.repeat ExtendedMantissa.shiftRightOne n em).mantissa = _
  induction n with
  | zero => rw [Nat.repeat, Nat.pow_zero, Nat.div_one]
  | succ n ih =>
    rw [Nat.repeat, ExtendedMantissa.shiftRightOne, ih, Nat.div_div_eq_div_mul, Nat.pow_succ]

theorem ofMantissaAndAccuracy_mantissa (m : Nat) (a : Accuracy) :
    (ExtendedMantissa.ofMantissaAndAccuracy m a).mantissa = m := by
  cases a with
  | exact => rfl
  | inexact o => cases o <;> rfl

theorem log2_div_pow_add_le {m s : Nat} (h : m / 2 ^ s ≠ 0) : (m / 2 ^ s).log2 + s ≤ m.log2 := by
  have hm : m ≠ 0 := by
    rintro rfl
    exact h (Nat.zero_div _)
  rw [Nat.le_log2 hm, Nat.pow_add]
  exact (Nat.mul_le_mul_right _ (Nat.log2_self_le h)).trans (Nat.div_mul_le_self m _)

theorem log2_shiftLeft_le (m n : Nat) : (m <<< n).log2 ≤ m.log2 + n := by
  by_cases hzero : m <<< n = 0
  · rw [hzero]
    exact Nat.zero_le _
  · rw [← Nat.lt_succ_iff, Nat.log2_lt hzero, Nat.shiftLeft_eq,
      show (m.log2 + n).succ = (m.log2 + 1) + n by omega, Nat.pow_add]
    exact Nat.mul_lt_mul_of_pos_right Nat.lt_log2_self (Nat.two_pow_pos n)

theorem log2_le_of_lt {m k : Nat} (h : m < 2 ^ (k + 1)) : m.log2 ≤ k := by
  by_cases hzero : m = 0
  · rw [hzero]
    exact Nat.zero_le _
  · exact Nat.lt_succ_iff.1 ((Nat.log2_lt hzero).2 h)

theorem log2_roundedMantissa_le (em : ExtendedMantissa) :
    em.roundedMantissa.log2 ≤ em.mantissa.log2 + 1 := by
  have hround : em.roundedMantissa ≤ em.mantissa + 1 := by
    obtain ⟨m, r, s⟩ := em
    cases r <;> cases s <;>
      simp only [ExtendedMantissa.roundedMantissa, ExtendedMantissa.accuracy,
        Accuracy.roundToNearestEven] <;> omega
  by_cases hzero : em.roundedMantissa = 0
  · rw [hzero]
    exact Nat.zero_le _
  · have hlt := Nat.lt_log2_self (n := em.mantissa)
    rw [← Nat.lt_succ_iff, Nat.log2_lt hzero, Nat.pow_succ]
    have := Nat.one_le_two_pow (n := em.mantissa.log2 + 1)
    omega

/-- Shifting to the exponent that fits cuts digits off, and does not make a number larger. -/
theorem totalExponent_shift_le (m : Nat) (e : Int) (a : Accuracy) :
    totalExponent (shiftToTargetExponent Format.binary64 m e a).1.mantissa
      (shiftToTargetExponent Format.binary64 m e a).2 ≤ max (totalExponent m e) (-1073) := by
  simp only [shiftToTargetExponent, shiftToExponent, shiftRight_mantissa,
    ofMantissaAndAccuracy_mantissa]
  have htarget : Format.targetExponent Format.binary64 (totalExponent m e) =
      max (totalExponent m e - 53) (-1074) := rfl
  rw [htarget]
  generalize hs : (max (totalExponent m e - 53) (-1074) - e).toNat = s
  by_cases hzero : m / 2 ^ s = 0
  · rw [hzero]
    simp only [totalExponent, Nat.log2_zero] at hs ⊢
    omega
  · have := log2_div_pow_add_le hzero
    simp only [totalExponent] at hs ⊢
    omega

/-- Rounding at most doubles a number. -/
theorem below_roundWithAccuracy (s : Sign) (m : Nat) (e : Int) (a : Accuracy) :
    Below (max (totalExponent m e + 1) (-1072)) (roundWithAccuracy Format.binary64 s m e a) := by
  have hfirst := totalExponent_shift_le m e a
  simp only [roundWithAccuracy]
  generalize shiftToTargetExponent Format.binary64 m e a = first at hfirst ⊢
  have hround := log2_roundedMantissa_le first.1
  have hsecond := totalExponent_shift_le first.1.roundedMantissa first.2 .exact
  split
  · trivial
  · simp only [Below]
    refine hsecond.trans ?_
    simp only [totalExponent] at hfirst ⊢
    omega

/-! ### Products and quotients -/

theorem below_mul {k k' : Int} {u v : UnpackedFloat} (hu : Below k u) (hv : Below k' v)
    (hk : -1073 ≤ k + k') : Below (k + k' + 1) (UnpackedFloat.mul Format.binary64 u v) := by
  cases u with
  | infinity | notANumber => exact hu.elim
  | zero s =>
    cases v with
    | infinity | notANumber => exact hv.elim
    | zero | finite => trivial
  | finite s m e hm =>
    cases v with
    | infinity | notANumber => exact hv.elim
    | zero s' => trivial
    | finite s' m' e' hm' =>
      refine (below_roundWithAccuracy _ _ _ _).mono ?_
      have hlog : (m * m').log2 ≤ m.log2 + m'.log2 + 1 := by
        rw [← Nat.lt_succ_iff, Nat.log2_lt (Nat.mul_ne_zero hm.ne' hm'.ne')]
        have h1 := Nat.lt_log2_self (n := m)
        have h2 := Nat.lt_log2_self (n := m')
        calc m * m' < 2 ^ (m.log2 + 1) * 2 ^ (m'.log2 + 1) := Nat.mul_lt_mul'' h1 h2
          _ = 2 ^ (m.log2 + m'.log2 + 1 + 1) := by rw [← Nat.pow_add]; congr 1; omega
      simp only [Below, totalExponent] at hu hv ⊢
      omega

/-- A number from the `k`-th power of two on and below the `l`-th one. -/
def Within (k l : Int) : UnpackedFloat → Prop
  | .finite _ m e _ => k < totalExponent m e ∧ totalExponent m e ≤ l
  | _ => False

theorem Within.below {k l : Int} {u : UnpackedFloat} (h : Within k l u) : Below l u := by
  cases u with
  | finite s m e hm => exact h.2
  | zero | infinity | notANumber => exact h.elim

theorem below_div {k k' l : Int} {u v : UnpackedFloat} (hu : Below k u) (hv : Within k' l v)
    (hk : -1072 ≤ k - k' + 1) :
    Below (k - k' + 1) (UnpackedFloat.div Format.binary64 u v) := by
  cases v with
  | infinity | notANumber | zero => exact hv.elim
  | finite s' m' e' hm' =>
    cases u with
    | infinity | notANumber => exact hu.elim
    | zero s => trivial
    | finite s m e hm =>
      refine (below_roundWithAccuracy _ _ _ _).mono ?_
      have htarget : Format.targetExponent Format.binary64
          (totalExponent m e - totalExponent m' e') =
            max (totalExponent m e - totalExponent m' e' - 53) (-1074) := rfl
      simp only [htarget]
      generalize ht : min (e - e') (max (totalExponent m e - totalExponent m' e' - 53) (-1074)) = t
      generalize hs : (e - e' - t).toNat = n
      by_cases hzero : m <<< n / m' = 0
      · rw [hzero]
        simp only [Below, Within, totalExponent, Nat.log2_zero] at hu hv ht ⊢
        omega
      · have hlog : (m <<< n / m').log2 + m'.log2 ≤ m.log2 + n := by
          have hm0 : m <<< n ≠ 0 := by
            intro h0
            exact hzero (by rw [h0, Nat.zero_div])
          have h1 : 2 ^ ((m <<< n / m').log2 + m'.log2) ≤ m <<< n := by
            rw [Nat.pow_add]
            exact (Nat.mul_le_mul (Nat.log2_self_le hzero) (Nat.log2_self_le hm'.ne')).trans
              (Nat.div_mul_le_self _ _)
          have h2 : m <<< n < 2 ^ (m.log2 + n + 1) := by
            rw [Nat.shiftLeft_eq, show m.log2 + n + 1 = (m.log2 + 1) + n by omega, Nat.pow_add]
            exact Nat.mul_lt_mul_of_pos_right Nat.lt_log2_self (Nat.two_pow_pos n)
          have := (Nat.pow_lt_pow_iff_right (by decide : 1 < 2)).1 (h1.trans_lt h2)
          omega
        simp only [Below, Within, totalExponent] at hu hv ht ⊢
        omega

/-! ### Packing -/

theorem below_unpack_packComponents (s : Sign) {x : BitVec 11} (m : BitVec 52)
    (hx : x.toNat ≠ 2047) :
    Below (max (x.toNat - 1022) (-1022))
      (UnpackedFloat.unpack Format.binary64 (packComponents Format.binary64 s x m)) := by
  have hnot : x ≠ -1#11 := fun h => hx (congrArg BitVec.toNat h)
  simp only [UnpackedFloat.unpack, unpackExponent_packComponents, unpackMantissa_packComponents]
  rw [if_neg hnot]
  split_ifs with hzero hm
  · trivial
  · have hlt : m.toNat < 2 ^ 52 := m.isLt
    have hm' : m.toNat ≠ 0 := fun h => hm (BitVec.eq_of_toNat_eq h)
    have := (Nat.log2_lt hm').2 hlt
    simp only [Below, totalExponent, hzero]
    change _ ≤ max _ _
    simp only [BitVec.toNat_ofNat, Format.exponentBias]
    omega
  · have := log2_le_of_lt (k := 52) (1#1 ++ m).isLt
    simp only [Below, totalExponent, Format.exponentBias]
    omega

/-- The exponent of a number other than zero; from 972 on it has no place in the bits. -/
def exponentOf : UnpackedFloat → Int
  | .finite _ _ e _ => e
  | _ => 0

/-- Packing keeps the bound, unless the exponent is too large to be packed. -/
theorem below_unpack_pack {k : Int} {u : UnpackedFloat} (hu : Below k u) (hk : -1022 ≤ k) :
    Below k (Float.Model.pack u).unpack ∨
      972 ≤ exponentOf u ∧ (Float.Model.pack u).unpack.isInf = true := by
  cases u with
  | infinity | notANumber => exact hu.elim
  | zero s =>
    left
    cases s <;> trivial
  | finite s m e hm =>
    unfold Float.Model.pack Float.Model.unpack
    simp only [UnpackedFloat.pack]
    generalize hb : Int.toNat _ = b
    have hb : (e + 1023 + 52).toNat = b := hb
    simp only [Below, totalExponent] at hu
    split_ifs with hlarge hfull
    · have hlarge : 2 ^ 11 ≤ b + 1 := hlarge
      exact .inr ⟨by simp only [exponentOf]; omega, by cases s <;> rfl⟩
    · have hlt : b + 1 < 2 ^ 11 := not_le.1 hlarge
      have hfull : m.log2 + 1 = 53 := hfull
      have hbits : (BitVec.ofNat 11 b).toNat = b := by
        rw [BitVec.toNat_ofNat, Nat.mod_eq_of_lt (by omega)]
      left
      refine (below_unpack_packComponents s _ (by rw [hbits]; omega)).mono ?_
      rw [hbits]
      omega
    · left
      exact (below_unpack_packComponents s _ (by decide)).mono (by simpa using hk)

/-- Numbers that are not too large can be packed. -/
theorem Below.unpack_pack {k : Int} {u : UnpackedFloat} (hu : Below k u)
    (hk : -1022 ≤ k ∧ k ≤ 972) : Below k (Float.Model.pack u).unpack := by
  refine (below_unpack_pack hu hk.1).resolve_right fun h => ?_
  have hlarge := h.1
  cases u with
  | finite s m e hm =>
    simp only [Below, totalExponent, exponentOf] at hu hlarge
    omega
  | zero | infinity | notANumber => exact absurd hlarge (by decide : ¬ (972 : Int) ≤ 0)

theorem exponentOf_unpack_lt (x : Float.Model) : exponentOf x.unpack < 972 := by
  have hlt : (@unpackExponent Format.binary64 x.toBits.toBitVec).toNat < 2048 :=
    (@unpackExponent Format.binary64 x.toBits.toBitVec).isLt
  unfold Float.Model.unpack
  simp only [UnpackedFloat.unpack, Format.exponentBias]
  split_ifs with hones hm hzero hm
  · exact (by decide : (0 : Int) < 972)
  · exact (by decide : (0 : Int) < 972)
  · exact (by decide : (0 : Int) < 972)
  · simp only [exponentOf, hzero, BitVec.toNat_ofNat]
    omega
  · have hnot : (@unpackExponent Format.binary64 x.toBits.toBitVec).toNat ≠ 2047 :=
      fun h => hones (BitVec.eq_of_toNat_eq h)
    simp only [exponentOf]
    omega

/-! ### Reading -/

instance (k : Int) : DecidablePred (Below k)
  | .zero _ => .isTrue trivial
  | .finite _ m e _ => inferInstanceAs (Decidable (totalExponent m e ≤ k))
  | .infinity _ | .notANumber => .isFalse nofun

instance (k l : Int) : DecidablePred (Within k l)
  | .finite _ m e _ => inferInstanceAs (Decidable (k < totalExponent m e ∧ totalExponent m e ≤ l))
  | .zero _ | .infinity _ | .notANumber => .isFalse nofun

/-- The powers of ten that numbers are scaled by are eight at least, and finite. -/
theorem within_powerOfTen :
    ∀ n < 308, Within 3 1024 (Numeral.powerOfTen (n + 1)).toModel.unpack := by
  decide +kernel

theorem below_powerOfTen {n : Nat} (hn : n ≤ 308) :
    Below 1024 (Numeral.powerOfTen n).toModel.unpack := by
  cases n with
  | zero => decide +kernel
  | succ n => exact (within_powerOfTen n hn).below

/-- A natural number of 64 bits is rounded at most once to the next power of two. -/
theorem below_ofInt {m : Nat} (hm : m < 2 ^ 64) :
    Below 65 (UnpackedFloat.ofInt Format.binary64 m) := by
  have hlog : m.log2 ≤ 63 := log2_le_of_lt hm
  simp only [UnpackedFloat.ofInt, UnpackedFloat.normalize]
  split
  case h_1 h => exact absurd (Int.compare_eq_lt.1 h) (by omega)
  case h_2 => trivial
  case h_3 =>
    refine (below_roundWithAccuracy _ _ _ _).mono ?_
    simp only [Int.toNat_natCast]
    generalize (0 - Format.targetExponent _ _).toNat = n
    have := log2_shiftLeft_le m n
    simp only [totalExponent]
    omega

theorem below_ofScientific {m : Nat} (hm : m < 2 ^ 64) :
    Below 66 (UnpackedFloat.ofScientific Format.binary64 m 0) := by
  have hlog : m.log2 ≤ 63 := log2_le_of_lt hm
  unfold UnpackedFloat.ofScientific
  split
  · trivial
  · have hsmall : ¬ (0 : Int) < -(2 ^ 11 + (m.log2 : Int)) := by omega
    rw [if_neg (by decide), if_neg hsmall, if_pos le_rfl]
    generalize hu : UnpackedFloat.finite _ (m <<< _) _ _ = u
    generalize hv : UnpackedFloat.finite _ (10 ^ _) _ _ = v
    have hu : Below 64 u := by
      have hshift := log2_shiftLeft_le m Format.binary64.mantissaBits
      rw [← hu]
      simp only [Below, totalExponent]
      omega
    have hv : Below 1 v := by
      rw [← hv]
      simp only [Below, Int.toNat_zero, Nat.pow_zero]
      decide
    exact below_mul hu hv (by decide)

theorem below_ofNat {m : Nat} (hm : m < 2 ^ 64) : Below 70 (Float.ofNat m).toModel.unpack := by
  change Below 70 (Float.ofScientific m false 0).toModel.unpack
  rw [Float.ofScientific]
  split
  · have hone : Below 1 (Float.exactlyRepresentablePowersOfTen[0]).toModel.unpack := by
      decide +kernel
    have hwhole : Below 65 m.toUInt64.toFloat.toModel.unpack :=
      (below_ofInt m.toUInt64.toNat_lt).unpack_pack (by decide)
    exact ((below_mul hwhole hone (by decide)).unpack_pack (by decide)).mono (by decide)
  · exact ((below_ofScientific hm).unpack_pack (by decide)).mono (by decide)

theorem below_shrink {k : Int} {f : Float} (hf : Below k f.toModel.unpack)
    (hk : -1000 ≤ k ∧ k ≤ 972) {n : Nat} (hn : 0 < n) :
    Below k (Numeral.shrink f n).toModel.unpack := by
  have hstep {f : Float} (hf : Below k f.toModel.unpack) :
      ∀ i ≤ 308, 0 < i → Below k (f / Numeral.powerOfTen i).toModel.unpack := by
    intro i hi hpos
    obtain ⟨i, rfl⟩ := Nat.exists_eq_succ_of_ne_zero hpos.ne'
    -- the divisor takes three bits away, rounding gives two of them back at most
    have hdiv := (below_div hf (within_powerOfTen i hi) (by omega)).mono
      (show k - 3 + 1 ≤ k by omega)
    exact hdiv.unpack_pack ⟨by omega, hk.2⟩
  fun_induction Numeral.shrink f n with
  | case1 f n hle => exact hstep hf n hle hn
  | case2 f n hle hzero => exact hf
  | case3 f n hle hzero ih => exact ih (hstep hf 308 (by decide) (by decide)) (by omega)

end Magnitude

namespace Numeral

open Magnitude

theorem isFinite_iff {x : Float} : x.isFinite = true ↔ ∃ k, Below k x.toModel.unpack := by
  change x.toModel.unpack.isFinite = true ↔ _
  cases x.toModel.unpack with
  | zero s => exact ⟨fun _ => ⟨0, trivial⟩, fun _ => rfl⟩
  | finite s m e hm => exact ⟨fun _ => ⟨_, le_refl (totalExponent m e)⟩, fun _ => rfl⟩
  | infinity s | notANumber => exact ⟨nofun, fun ⟨_, h⟩ => h.elim⟩

theorem extend_lt {m : Nat} (hm : m < UInt64.size) (ds : List Digit) :
    (extend m ds).1 < UInt64.size := by
  fun_induction extend m ds with
  | case1 m => exact hm
  | case2 m d ds next hnext ih => exact ih hnext
  | case3 m d ds next hnext => exact hm

theorem isFinite_scale? {f x : Float} {e : Int} (hf : Below 70 f.toModel.unpack)
    (h : scale? f e = some x) : x.isFinite = true := by
  rw [isFinite_iff]
  cases e with
  | negSucc n =>
    cases h
    exact ⟨70, below_shrink hf (by decide) n.succ_pos⟩
  | ofNat n =>
    simp only [scale?] at h
    split_ifs at h with hn hinf hzero
    · cases h
      have hmul := below_mul hf (below_powerOfTen hn) (by decide)
      exact ⟨_, (below_unpack_pack hmul (by decide)).resolve_right fun hlarge => hinf hlarge.2⟩
    · cases h
      exact ⟨70, hf⟩

theorem isFinite_neg {x : Float} (h : x.isFinite = true) : (-x).isFinite = true := by
  rw [isFinite_iff] at h ⊢
  obtain ⟨k, hk⟩ := h
  have hneg : Below (max k (-1022)) x.toModel.unpack.neg := by
    refine Below.mono (k := k) ?_ (le_max_left _ _)
    cases hu : x.toModel.unpack <;> rw [hu] at hk <;> exact hk
  have hexponent : exponentOf x.toModel.unpack.neg < 972 := by
    have := exponentOf_unpack_lt x.toModel
    cases hu : x.toModel.unpack <;> rw [hu] at this <;> exact this
  exact ⟨_, (below_unpack_pack hneg (le_max_right _ _)).resolve_right fun hlarge =>
    absurd hlarge.1 (not_le.2 hexponent)⟩

/-- A number that is read is finite. -/
theorem isFinite_toFloat? {n : Numeral} {x : Float} (h : n.toFloat? = some x) :
    x.isFinite = true := by
  rw [toFloat?, Option.map_eq_some_iff] at h
  obtain ⟨f, hf, rfl⟩ := h
  have hwhole := extend_lt (by decide : 0 < UInt64.size) n.whole
  have hfinite := isFinite_scale? (below_ofNat (extend_lt hwhole n.fraction)) hf
  split
  · exact isFinite_neg hfinite
  · exact hfinite

end Numeral

end WingBox
