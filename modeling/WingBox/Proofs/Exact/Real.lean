import Mathlib.Algebra.Module.Basic
import Mathlib.Analysis.SpecialFunctions.Trigonometric.Basic
import Mathlib.Tactic.Module
import Mathlib.Tactic.Linarith
import WingBox.Space.Vec

/-!
# Exact arithmetic

The real numbers are scalars, so all geometry can be read as exact geometry, without rounding and
without undefined values.  The tolerances stay what they are.

Vectors with real coordinates form a vector space, in which the length of a multiple is a
multiple of the length.
-/

namespace WingBox

open Scalar

noncomputable instance : Scalar ℝ where
  decidableLT := inferInstance
  decidableLE := inferInstance
  abs x := |x|
  sqrt := Real.sqrt
  sin := Real.sin
  cos := Real.cos
  pi := Real.pi
  totalLE x y := decide (x ≤ y)
  infinity? := none
  floorCount x := UInt64.ofNat (min ⌊x⌋₊ (2 ^ 64 - 1))

/-- Counts stop at the largest number of 64 bits. -/
theorem Scalar.toNat_floorCount (x : ℝ) : (floorCount x).toNat = min ⌊x⌋₊ (2 ^ 64 - 1) := by
  have hlt : min ⌊x⌋₊ (2 ^ 64 - 1) < 2 ^ 64 := by omega
  exact (UInt64.toNat_ofNat' (n := min ⌊x⌋₊ (2 ^ 64 - 1))).trans (Nat.mod_eq_of_lt hlt)

/-- Sums of reals are those of the library. -/
theorem Scalar.sum_eq (xs : List ℝ) : sum xs = xs.sum := by
  rw [sum, List.sum_eq_foldl]

namespace Vec

/-! ### The space of vectors -/

noncomputable instance : AddCommGroup (Vec ℝ) where
  add_assoc a b c := by ext <;> simp <;> ring
  zero_add a := by ext <;> simp
  add_zero a := by ext <;> simp
  nsmul := nsmulRec
  zsmul := zsmulRec
  neg_add_cancel a := by ext <;> simp
  add_comm a b := by ext <;> simp <;> ring
  sub_eq_add_neg a b := by ext <;> simp <;> ring

noncomputable instance : Module ℝ (Vec ℝ) where
  one_smul a := by ext <;> simp
  mul_smul s t a := by ext <;> simp <;> ring
  smul_zero s := by ext <;> simp
  smul_add s a b := by ext <;> simp <;> ring
  add_smul s t a := by ext <;> simp <;> ring
  zero_smul a := by ext <;> simp

/-! ### Products and length -/

theorem norm_smul (s : ℝ) (a : Vec ℝ) : (s • a).norm = |s| * a.norm := by
  have hsq : (s • a).normSq = s ^ 2 * a.normSq := by
    simp only [normSq, dot, smul_x, smul_y, smul_z]
    ring
  change Real.sqrt _ = |s| * Real.sqrt _
  rw [hsq, Real.sqrt_mul (sq_nonneg s), Real.sqrt_sq_eq_abs]

theorem normSq_nonneg (a : Vec ℝ) : 0 ≤ a.normSq :=
  add_nonneg (add_nonneg (mul_self_nonneg a.x) (mul_self_nonneg a.y)) (mul_self_nonneg a.z)

theorem norm_nonneg (a : Vec ℝ) : 0 ≤ a.norm := Real.sqrt_nonneg _

theorem norm_sq (a : Vec ℝ) : a.norm ^ 2 = a.normSq := Real.sq_sqrt a.normSq_nonneg

theorem norm_pos_iff {a : Vec ℝ} : 0 < a.norm ↔ 0 < a.normSq := Real.sqrt_pos

/-- The length of the vector product makes up what the scalar product lacks. -/
theorem normSq_mul_normSq (a b : Vec ℝ) :
    a.normSq * b.normSq = (a.cross b).normSq + a.dot b ^ 2 := by
  simp only [normSq, dot, cross]
  ring

theorem dot_le (a b : Vec ℝ) : a.dot b ≤ a.norm * b.norm := by
  have hsq : a.dot b ^ 2 ≤ a.normSq * b.normSq := by
    rw [normSq_mul_normSq]
    exact le_add_of_nonneg_left (normSq_nonneg _)
  calc a.dot b ≤ Real.sqrt (a.normSq * b.normSq) := (le_abs_self _).trans (Real.abs_le_sqrt hsq)
    _ = a.norm * b.norm := Real.sqrt_mul a.normSq_nonneg _

theorem norm_cross_le (a b : Vec ℝ) : (a.cross b).norm ≤ a.norm * b.norm := by
  have hsq : (a.cross b).normSq ≤ a.normSq * b.normSq := by
    rw [normSq_mul_normSq]
    exact le_add_of_nonneg_right (sq_nonneg _)
  calc (a.cross b).norm ≤ Real.sqrt (a.normSq * b.normSq) := Real.sqrt_le_sqrt hsq
    _ = a.norm * b.norm := Real.sqrt_mul a.normSq_nonneg _

theorem norm_cross_of_dot {a b : Vec ℝ} (h : a.dot b = 0) : (a.cross b).norm = a.norm * b.norm := by
  have hsq := normSq_mul_normSq a b
  rw [h, zero_pow two_ne_zero, add_zero] at hsq
  change Real.sqrt _ = Real.sqrt _ * Real.sqrt _
  rw [← hsq, Real.sqrt_mul a.normSq_nonneg]

theorem norm_add_le (a b : Vec ℝ) : (a + b).norm ≤ a.norm + b.norm := by
  refine Real.sqrt_le_iff.2 ⟨add_nonneg a.norm_nonneg b.norm_nonneg, ?_⟩
  calc (a + b).normSq = a.normSq + 2 * a.dot b + b.normSq := by
        simp only [normSq, dot, add_x, add_y, add_z]
        ring
    _ ≤ a.norm ^ 2 + 2 * (a.norm * b.norm) + b.norm ^ 2 := by
        rw [norm_sq, norm_sq]
        linarith [dot_le a b]
    _ = (a.norm + b.norm) ^ 2 := by ring

/-! No coordinate is longer than the vector. -/

theorem abs_x_le_norm (a : Vec ℝ) : |a.x| ≤ a.norm := by
  refine Real.abs_le_sqrt ?_
  unfold normSq dot
  nlinarith [sq_nonneg a.y, sq_nonneg a.z]

theorem abs_y_le_norm (a : Vec ℝ) : |a.y| ≤ a.norm := by
  refine Real.abs_le_sqrt ?_
  unfold normSq dot
  nlinarith [sq_nonneg a.x, sq_nonneg a.z]

theorem abs_z_le_norm (a : Vec ℝ) : |a.z| ≤ a.norm := by
  refine Real.abs_le_sqrt ?_
  unfold normSq dot
  nlinarith [sq_nonneg a.x, sq_nonneg a.y]

/-! ### Distances -/

theorem distance_self (a : Vec ℝ) : a.distance a = 0 := by
  unfold distance
  rw [sub_self]
  exact Real.sqrt_eq_zero'.2 (by simp [normSq, dot])

theorem distance_comm (a b : Vec ℝ) : a.distance b = b.distance a := by
  have hneg : a - b = (-1 : ℝ) • (b - a) := by module
  rw [distance, distance, hneg, norm_smul, abs_neg, abs_one, one_mul]

theorem distance_triangle (a b c : Vec ℝ) : a.distance c ≤ a.distance b + b.distance c := by
  have hsum : a - c = a - b + (b - c) := by module
  unfold distance
  rw [hsum]
  exact norm_add_le _ _

/-- Points of one line are as far apart as their parameters tell. -/
theorem distance_lerp (a b : Vec ℝ) (s t : ℝ) :
    (lerp a b s).distance (lerp a b t) = |s - t| * (b - a).norm := by
  have hdiff : lerp a b s - lerp a b t = (s - t) • (b - a) := by
    unfold lerp
    module
  rw [distance, hdiff, norm_smul]

/-! ### Multiples and opposites -/

theorem norm_zero : (0 : Vec ℝ).norm = 0 := by
  simpa only [distance, sub_zero] using distance_self (0 : Vec ℝ)

theorem eq_zero_of_norm {v : Vec ℝ} (h : v.norm = 0) : v = 0 := by
  have hsq : v.normSq = 0 := by
    rw [← norm_sq, h]
    norm_num
  unfold normSq dot at hsq
  have hx := mul_self_nonneg v.x
  have hy := mul_self_nonneg v.y
  have hz := mul_self_nonneg v.z
  ext
  · exact mul_self_eq_zero.1 (by linarith)
  · exact mul_self_eq_zero.1 (by linarith)
  · exact mul_self_eq_zero.1 (by linarith)

theorem norm_eq_zero_iff {v : Vec ℝ} : v.norm = 0 ↔ v = 0 :=
  ⟨eq_zero_of_norm, fun h => h ▸ norm_zero⟩

theorem smul_dot (s : ℝ) (a b : Vec ℝ) : (s • a).dot b = s * a.dot b := by
  simp only [dot, smul_x, smul_y, smul_z]
  ring

theorem dot_comm (a b : Vec ℝ) : a.dot b = b.dot a := by
  simp only [dot]
  ring

theorem sub_dot (a b c : Vec ℝ) : (a - b).dot c = a.dot c - b.dot c := by
  simp only [dot, sub_x, sub_y, sub_z]
  ring

theorem div_eq_smul (a : Vec ℝ) (s : ℝ) : a / s = s⁻¹ • a := by
  ext <;> exact div_eq_mul_inv _ _

theorem cross_comm (a b : Vec ℝ) : a.cross b = -b.cross a := by
  ext <;> simp only [cross, neg_x, neg_y, neg_z] <;> ring

theorem norm_neg (a : Vec ℝ) : (-a).norm = a.norm := by
  rw [← neg_one_smul ℝ, norm_smul, abs_neg, abs_one, one_mul]

theorem abs_dot_le (a b : Vec ℝ) : |a.dot b| ≤ a.norm * b.norm := by
  refine abs_le'.2 ⟨dot_le a b, ?_⟩
  have hneg : -a.dot b = (-a).dot b := by
    simp only [dot, neg_x, neg_y, neg_z]
    ring
  rw [hneg, ← norm_neg a]
  exact dot_le _ _

theorem norm_normalize {v : Vec ℝ} (h : v.norm ≠ 0) : v.normalize.norm = 1 := by
  rw [normalize, div_eq_smul, norm_smul, abs_inv, abs_of_nonneg v.norm_nonneg, inv_mul_cancel₀ h]

theorem normalize_smul {k : ℝ} (hk : 0 < k) (v : Vec ℝ) : (k • v).normalize = v.normalize := by
  simp only [normalize, div_eq_smul, norm_smul, abs_of_pos hk, smul_smul, mul_inv]
  congr 1
  field_simp

/-- A direction is found of every multiple that is long enough. -/
theorem normalize?_smul_eq_some_iff {u v : Vec ℝ} (hu : u.norm = 1) {s bound : ℝ} (hs : 0 < s) :
    (s • u).normalize? bound = some v ↔ bound < s ∧ v = u := by
  have hlength : (s • u).norm = s := by rw [norm_smul, hu, mul_one, abs_of_pos hs]
  rw [normalize?_eq_some_iff, not_le, normalize, hlength, div_eq_smul, inv_smul_smul₀ hs.ne',
    eq_comm (a := u)]

theorem norm_eq {v : Vec ℝ} {r : ℝ} (hr : 0 ≤ r) (h : v.normSq = r * r) : v.norm = r := by
  change Real.sqrt _ = r
  rw [h, Real.sqrt_mul_self hr]

theorem dot_self {v : Vec ℝ} (h : v.norm = 1) : v.dot v = 1 := by
  change v.normSq = 1
  rw [← norm_sq, h, one_pow]

/-! ### Vector products -/

theorem smul_cross (s : ℝ) (a b : Vec ℝ) : (s • a).cross b = s • a.cross b := by
  ext <;> simp only [cross, smul_x, smul_y, smul_z] <;> ring

theorem cross_smul (s : ℝ) (a b : Vec ℝ) : a.cross (s • b) = s • a.cross b := by
  ext <;> simp only [cross, smul_x, smul_y, smul_z] <;> ring

theorem cross_self (a : Vec ℝ) : a.cross a = 0 := by
  ext <;> simp only [cross, zero_x, zero_y, zero_z] <;> ring

theorem cross_dot_left (a b : Vec ℝ) : (a.cross b).dot a = 0 := by
  simp only [dot, cross]
  ring

theorem cross_dot_right (a b : Vec ℝ) : (a.cross b).dot b = 0 := by
  simp only [dot, cross]
  ring

theorem cross_cross (a b c : Vec ℝ) : a.cross (b.cross c) = a.dot c • b - a.dot b • c := by
  ext <;> simp only [cross, dot, sub_x, sub_y, sub_z, smul_x, smul_y, smul_z] <;> ring

/-- The product with a unit vector vanishes along that vector, and nowhere else. -/
theorem cross_eq_zero_iff {a : Vec ℝ} (ha : a.norm = 1) {v : Vec ℝ} :
    v.cross a = 0 ↔ ∃ c : ℝ, v = c • a := by
  constructor
  · intro hzero
    -- the product of `a` with the product is what `v` has across `a`
    have hacross := cross_cross a v a
    have hnone : a.cross 0 = 0 := by
      ext <;> simp [cross]
    rw [hzero, hnone, dot_self ha, one_smul] at hacross
    exact ⟨a.dot v, sub_eq_zero.1 hacross.symm⟩
  · rintro ⟨c, rfl⟩
    rw [smul_cross, cross_self, smul_zero]

/-! ### Axes -/

theorem norm_xAxis : (xAxis : Vec ℝ).norm = 1 :=
  norm_eq zero_le_one (by norm_num [normSq, dot, xAxis])

theorem norm_yAxis : (yAxis : Vec ℝ).norm = 1 :=
  norm_eq zero_le_one (by norm_num [normSq, dot, yAxis])

theorem norm_zAxis : (zAxis : Vec ℝ).norm = 1 :=
  norm_eq zero_le_one (by norm_num [normSq, dot, zAxis])

end Vec

end WingBox
