import WingBox.Proofs.Exact.Wire

/-!
# Near points

Two points are as near to each other one way as the other way, and a point is near to itself.  With
exact numbers this is plain.  Rounding does not see the sign of a number, so it holds of binary
floating point too, but for points whose coordinates are infinite or undefined: those are not even
near to themselves.

* `Vec.Measured`: what distances of both kinds of numbers have in common;
* `Vec.Finite`: the points that are nowhere away from themselves, which are those with finite
  coordinates (`Vec.finite_iff_isFinite`);
* `Vec.Near.symm`, `Vec.Finite.near_self`: nearness is symmetric, and reflexive on finite points.
-/

namespace WingBox

open Scalar

/-! ### Signs of floating-point numbers -/

namespace Magnitude

open Float.Model Float.Model.UnpackedFloat

theorem abs_roundWithAccuracy (f : Format) (s t : Sign) (m : Nat) (e : Int) (a : Accuracy) :
    (roundWithAccuracy f s m e a).abs = (roundWithAccuracy f t m e a).abs := by
  unfold roundWithAccuracy
  dsimp only
  rw [apply_dite UnpackedFloat.abs, apply_dite UnpackedFloat.abs]
  rfl

theorem abs_normalize_neg (f : Format) (m e : Int) (s : Sign) :
    (UnpackedFloat.normalize f (-m) e s).abs = (UnpackedFloat.normalize f m e s).abs := by
  unfold UnpackedFloat.normalize
  rcases lt_trichotomy m 0 with h | rfl | h
  · rw [compare_lt_iff_lt.2 h, compare_gt_iff_gt.2 (neg_pos.2 h)]
    exact abs_roundWithAccuracy ..
  · rfl
  · rw [compare_gt_iff_gt.2 h, compare_lt_iff_lt.2 (neg_lt_zero.2 h), neg_neg]
    exact abs_roundWithAccuracy ..

/-- A difference and the one the other way round differ in their sign only. -/
theorem abs_sub_comm (f : Format) (u v : UnpackedFloat) :
    (UnpackedFloat.sub f u v).abs = (UnpackedFloat.sub f v u).abs := by
  cases u with
  | notANumber => cases v <;> rfl
  | infinity s =>
    cases v with
    | infinity t => cases s <;> cases t <;> rfl
    | _ => rfl
  | zero s =>
    cases v with
    | zero t => cases s <;> cases t <;> rfl
    | _ => rfl
  | finite s m e hm =>
    cases v with
    | finite t n d hn =>
      unfold UnpackedFloat.sub
      dsimp only
      rw [min_comm, ← neg_sub, abs_normalize_neg]
    | _ => rfl

theorem abs_finite_congr {s t : Sign} {m n : Nat} {d e : Int} {hm : 0 < m} {hn : 0 < n}
    (hmn : m = n) (hde : d = e) :
    (UnpackedFloat.finite s m d hm).abs = (UnpackedFloat.finite t n e hn).abs := by
  subst hmn hde
  rfl

/-- What is read from bits depends on the sign bit in the sign only. -/
theorem abs_unpack_congr {f : Format} {b c : BitVec f.numBits}
    (hx : unpackExponent b = unpackExponent c) (hy : unpackMantissa b = unpackMantissa c) :
    (UnpackedFloat.unpack f b).abs = (UnpackedFloat.unpack f c).abs := by
  unfold UnpackedFloat.unpack
  dsimp only
  by_cases hlast : unpackExponent c = -1#_
  · rw [if_pos (hx.trans hlast), if_pos hlast]
    by_cases hzero : unpackMantissa c = 0#_
    · rw [if_pos (hy.trans hzero), if_pos hzero]
      rfl
    · rw [if_neg (hy ▸ hzero), if_neg hzero]
  rw [if_neg (hx ▸ hlast), if_neg hlast]
  by_cases hfirst : unpackExponent c = 0#_
  · rw [if_pos (hx.trans hfirst), if_pos hfirst]
    by_cases hzero : unpackMantissa c = 0#_
    · rw [dif_pos (hy.trans hzero), dif_pos hzero]
      rfl
    · rw [dif_neg (hy ▸ hzero), dif_neg hzero]
      exact abs_finite_congr (by rw [hy]) (by rw [hx])
  · rw [if_neg (hx ▸ hfirst), if_neg hfirst]
    exact abs_finite_congr (by rw [hy]) (by rw [hx])

theorem abs_unpack_packComponents (f : Format) (s t : Sign) (e : BitVec f.exponentBits)
    (m : BitVec f.mantissaBitsWithoutImplicit) :
    (UnpackedFloat.unpack f (packComponents f s e m)).abs =
      (UnpackedFloat.unpack f (packComponents f t e m)).abs :=
  abs_unpack_congr (by rw [unpackExponent_packComponents, unpackExponent_packComponents])
    (by rw [unpackMantissa_packComponents, unpackMantissa_packComponents])

/-- What a number is stored as depends on its sign in the sign only. -/
theorem abs_unpack_pack (f : Format) (u : UnpackedFloat) :
    (UnpackedFloat.unpack f (UnpackedFloat.pack f u)).abs =
      (UnpackedFloat.unpack f (UnpackedFloat.pack f u.abs)).abs := by
  cases u with
  | notANumber => rfl
  | infinity s | zero s => exact abs_unpack_packComponents ..
  | finite s m e hm =>
    change (UnpackedFloat.unpack f (UnpackedFloat.pack f (finite s m e hm))).abs =
      (UnpackedFloat.unpack f (UnpackedFloat.pack f (finite .positive m e hm))).abs
    unfold UnpackedFloat.pack
    dsimp only
    split_ifs <;> exact abs_unpack_packComponents ..

/-- A square does not depend on the sign. -/
theorem mul_self_eq (f : Format) (u : UnpackedFloat) :
    UnpackedFloat.mul f u u = UnpackedFloat.mul f u.abs u.abs := by
  cases u with
  | notANumber => rfl
  | infinity s | zero s | finite s m e hm => cases s <;> rfl

/-- A number minus itself is zero, unless it is infinite or undefined. -/
theorem sub_self_eq (f : Format) (u : UnpackedFloat) :
    UnpackedFloat.sub f u u = if u.isFinite then .zero .positive else .notANumber := by
  cases u with
  | notANumber => rfl
  | infinity s | zero s => cases s <;> rfl
  | finite s m e hm =>
    unfold UnpackedFloat.sub
    dsimp only
    rw [sub_self]
    rfl

/-- Comparing the other way round has the other outcome. -/
theorem compare_swap (u v : UnpackedFloat) : v.compare u = (u.compare v).map Ordering.swap := by
  cases u with
  | notANumber => cases v <;> rfl
  | infinity s =>
    cases v with
    | infinity t | finite t n d hn => cases s <;> cases t <;> rfl
    | zero t | notANumber => cases s <;> rfl
  | zero s =>
    cases v with
    | infinity t | finite t n d hn => cases t <;> rfl
    | zero t | notANumber => rfl
  | finite s m e hm =>
    have hswap (d : Int) (n : Nat) : ((compare e d).then (compare m n)).swap =
        (compare d e).then (compare n m) := by
      rw [Ordering.swap_then, ← Std.OrientedCmp.eq_swap, ← Std.OrientedCmp.eq_swap]
    cases v with
    | infinity t => cases s <;> cases t <;> rfl
    | finite t n d hn =>
      cases s with
      | positive =>
        cases t with
        | positive => exact congrArg some (hswap d n).symm
        | negative => rfl
      | negative =>
        cases t with
        | positive => rfl
        | negative => exact congrArg (fun o => some o.swap) (hswap d n).symm
    | zero t | notANumber => cases s <;> rfl

end Magnitude

namespace Scalar

open Float.Model Float.Model.UnpackedFloat

/-- The square of a difference is the same the other way round. -/
theorem sub_mul_self_comm (x y : Float) : (x - y) * (x - y) = (y - x) * (y - x) := by
  have hsub (a b : Float) : (a - b).toModel.unpack.abs =
      (UnpackedFloat.unpack Format.binary64 (UnpackedFloat.pack Format.binary64
        (UnpackedFloat.sub Format.binary64 a.toModel.unpack b.toModel.unpack).abs)).abs :=
    Magnitude.abs_unpack_pack ..
  have hmul (a : Float) : a * a = ⟨Float.Model.pack
      (UnpackedFloat.mul Format.binary64 a.toModel.unpack.abs a.toModel.unpack.abs)⟩ := by
    rw [← Magnitude.mul_self_eq]
    rfl
  rw [hmul, hmul, hsub, hsub, Magnitude.abs_sub_comm]

theorem sub_self_eq (x : Float) : x - x = if x.isFinite then 0 else 0.0 / 0.0 := by
  have hsub : x - x = ⟨Float.Model.pack
      (UnpackedFloat.sub Format.binary64 x.toModel.unpack x.toModel.unpack)⟩ := rfl
  have hfinite : x.isFinite = x.toModel.unpack.isFinite := rfl
  rw [hsub, Magnitude.sub_self_eq, hfinite]
  split
  · rfl
  · decide +kernel

/-- A floating-point number minus itself is zero, unless it is infinite or undefined. -/
theorem sub_self_cases (x : Float) : x - x = 0 ∨ x - x = 0.0 / 0.0 := by
  rw [sub_self_eq]
  split
  · exact .inl rfl
  · exact .inr rfl

theorem sub_self_eq_zero_iff {x : Float} : x - x = 0 ↔ x.isFinite = true := by
  rw [sub_self_eq]
  split
  next h => exact ⟨fun _ => h, fun _ => rfl⟩
  next h => exact ⟨fun hzero => absurd hzero (by decide +kernel), fun hfinite => absurd hfinite h⟩

/-- What is at least as large is not smaller. -/
theorem not_lt_of_le_float {x y : Float} (h : x ≤ y) : ¬ y < x := by
  have hle : (x.toModel.unpack.compare y.toModel.unpack).any (·.isLE) = true :=
    decide_eq_true_iff.1 h
  intro hlt
  have hlt : (y.toModel.unpack.compare x.toModel.unpack == some .lt) = true :=
    decide_eq_true_iff.1 hlt
  rw [Magnitude.compare_swap x.toModel.unpack] at hlt
  cases hcompare : x.toModel.unpack.compare y.toModel.unpack with
  | none =>
    rw [hcompare] at hle
    cases hle
  | some o =>
    rw [hcompare] at hle hlt
    cases o with
    | lt | eq => cases hlt
    | gt => cases hle

end Scalar

/-! ### Near points -/

namespace Vec

/-- What distances have in common, however numbers are rounded. -/
class Measured (K : Type) [Scalar K] : Prop where
  /-- A vector is as long as its opposite. -/
  norm_sub_comm : ∀ a b : Vec K, (a - b).norm = (b - a).norm
  /-- Nothing is no distance. -/
  norm_zero_lt : (0 : Vec K).norm < tolerance
  /-- Points are not both apart and near. -/
  not_lt_of_le : ∀ x : K, tolerance ≤ x → ¬ x < tolerance

instance : Measured ℝ where
  norm_sub_comm := distance_comm
  norm_zero_lt := norm_zero.trans_lt tolerance_pos
  not_lt_of_le _ := not_lt.2

instance : Measured Float where
  norm_sub_comm a b := by
    have hsq : (a - b).normSq = (b - a).normSq := by
      simp only [normSq, dot, sub_x, sub_y, sub_z]
      rw [sub_mul_self_comm a.x, sub_mul_self_comm a.y, sub_mul_self_comm a.z]
    exact congrArg sqrt hsq
  norm_zero_lt := by decide +kernel
  not_lt_of_le _ := not_lt_of_le_float

/-- The point is nowhere away from itself: its coordinates are neither infinite nor undefined. -/
def Finite {K : Type} [Scalar K] (p : Vec K) : Prop := p - p = 0

/-- With exact numbers all points are finite. -/
theorem finite (p : Vec ℝ) : p.Finite := sub_self p

theorem finite_iff_isFinite {p : Vec Float} :
    p.Finite ↔ p.x.isFinite = true ∧ p.y.isFinite = true ∧ p.z.isFinite = true := by
  rw [← sub_self_eq_zero_iff, ← sub_self_eq_zero_iff, ← sub_self_eq_zero_iff]
  exact Vec.ext_iff

section Measured

variable {K : Type} [Scalar K] [Measured K] {p q : Vec K}

theorem Near.symm (h : p.Near q) : q.Near p := by
  unfold Near at h ⊢
  rwa [Measured.norm_sub_comm]

theorem Finite.near_self (h : p.Finite) : p.Near p := by
  unfold Near
  rw [h]
  exact Measured.norm_zero_lt

/-- Points that are apart are not near to each other. -/
theorem not_near_of_le (h : tolerance ≤ (q - p).norm) : ¬ p.Near q := by
  unfold Near
  rw [Measured.norm_sub_comm]
  exact Measured.not_lt_of_le _ h

/-- Neither to the other. -/
theorem not_near_or_near_of_le (h : tolerance ≤ (q - p).norm) : ¬ p.Near q ∧ ¬ q.Near p :=
  ⟨not_near_of_le h, fun hnear => not_near_of_le h hnear.symm⟩

end Measured

end Vec

end WingBox
