import WingBox.Proofs.Exact.Crossing
import WingBox.Proofs.Exact.Face
import WingBox.Cut.Intersect

/-!
# Slices of triangles

With exact numbers a plane meets a triangle in a segment, in a vertex, or not at all, unless it
holds the whole triangle.  `Triangle.crossing?` finds the segment from the distances of the
vertices, of which those within the tolerance count as zero.

* `Triangle.crossing?_cases`: it finds a `Triangle.Slice`, that is where the two sides from a
  vertex away from the plane come to it; else the triangle is `Triangle.Touched` or lies in the
  plane;
* `Triangle.Slice.holds_iff`: if no vertex was moved to the plane, a slice is all that the triangle
  and the plane have in common; a touched triangle has one point at most (`Triangle.Touched.eq`);
* `Triangle.Slice.exists_shift`: in any case it lies in the triangle, and no farther from the plane
  than some vertex was moved.
-/

namespace WingBox

open Scalar

/-! ### Points of edges -/

namespace Edge

/-- The point lies on the edge. -/
def Holds (e : Edge ℝ) (x : Vec ℝ) : Prop := ∃ s, 0 ≤ s ∧ s ≤ 1 ∧ x = e.pointAt s

variable (e : Edge ℝ)

theorem holds_start : e.Holds e.start := ⟨0, le_rfl, zero_le_one, (Wire.pointAt_zero e).symm⟩

theorem holds_stop : e.Holds e.stop := ⟨1, zero_le_one, le_rfl, (Wire.pointAt_one e).symm⟩

variable {e}

theorem Holds.reversed {x : Vec ℝ} (h : e.Holds x) : e.reversed.Holds x := by
  obtain ⟨s, hs, hs', rfl⟩ := h
  exact ⟨1 - s, sub_nonneg.2 hs', sub_le_self 1 hs, by rw [pointAt_reversed, sub_sub_cancel]⟩

theorem holds_reversed_iff {x : Vec ℝ} : e.reversed.Holds x ↔ e.Holds x :=
  ⟨Holds.reversed (e := e.reversed), Holds.reversed⟩

end Edge

/-! ### Distances of vertices -/

namespace Plane

variable (plane : Plane ℝ)

/-- How far a point is moved when its distance is snapped to zero. -/
noncomputable def shift (p : Vec ℝ) : ℝ := |plane.signedDistance p - plane.snappedDistance p|

/-- The point is in the plane or away from it. -/
def Clear (p : Vec ℝ) : Prop :=
  plane.signedDistance p = 0 ∨ tolerance ≤ |plane.signedDistance p|

variable {plane} {p : Vec ℝ}

theorem snappedDistance_of_ne_zero (h : plane.snappedDistance p ≠ 0) :
    plane.snappedDistance p = plane.signedDistance p := by
  unfold snappedDistance at h ⊢
  dsimp only at h ⊢
  split at h
  next => exact absurd rfl h
  next hfar => exact if_neg hfar

/-- A distance that is snapped is not moved if it is zero or large. -/
theorem Clear.snappedDistance (h : plane.Clear p) :
    plane.snappedDistance p = plane.signedDistance p := by
  unfold Plane.snappedDistance
  dsimp only
  split
  next hnear => exact (h.resolve_right (not_le.2 hnear)).symm
  next => rfl

theorem Clear.shift (h : plane.Clear p) : plane.shift p = 0 := by
  rw [Plane.shift, h.snappedDistance, sub_self, abs_zero]

/-- Distances from a plane are affine on a triangle. -/
theorem signedDistance_point (plane : Plane ℝ) (t : Triangle ℝ) (u : ℝ × ℝ) :
    plane.signedDistance (t.point u) = (1 - u.1 - u.2) * plane.signedDistance t.a +
      u.1 * plane.signedDistance t.b + u.2 * plane.signedDistance t.c := by
  simp only [signedDistance, Triangle.point, Vec.dot, Vec.add_x, Vec.add_y, Vec.add_z, Vec.sub_x,
    Vec.sub_y, Vec.sub_z, Vec.smul_x, Vec.smul_y, Vec.smul_z]
  ring

end Plane

namespace Triangle

variable {t : Triangle ℝ} {plane : Plane ℝ} {p q : Vec ℝ}

/-! ### Another first vertex -/

/-- The triangle with the second vertex first. -/
def rotated (t : Triangle ℝ) : Triangle ℝ := ⟨t.b, t.c, t.a⟩

theorem mem_vertices_rotated {v : Vec ℝ} : v ∈ t.rotated.vertices ↔ v ∈ t.vertices := by
  simp only [vertices, rotated, List.mem_cons, List.not_mem_nil, or_false]
  tauto

theorem vertices_rotated {P : Vec ℝ → Prop} (h : ∀ v ∈ t.vertices, P v) :
    ∀ v ∈ t.rotated.vertices, P v := fun v hv => h v (mem_vertices_rotated.1 hv)

theorem Holds.of_rotated (h : t.rotated.Holds p) : t.Holds p := by
  obtain ⟨u, ⟨hu, hu', hle⟩, rfl⟩ := h
  refine ⟨(1 - u.1 - u.2, u.1), ⟨by linarith, hu, by linarith⟩, ?_⟩
  unfold rotated point
  module

theorem holds_rotated_iff : t.rotated.Holds p ↔ t.Holds p :=
  ⟨.of_rotated, fun h => .of_rotated (.of_rotated (t := t.rotated.rotated) h)⟩

theorem lerp_a_c (t : Triangle ℝ) (s : ℝ) : Vec.lerp t.a t.c s = t.point (0, s) := by
  unfold point Vec.lerp
  module

/-! ### Slices -/

/-- The line from `a` through `b` comes to the plane at a point `p` behind `a` and not behind `b`,
by the snapped distances of `a` and `b`. -/
def Comes (plane : Plane ℝ) (a b p : Vec ℝ) : Prop :=
  ∃ s, 0 < s ∧ s ≤ 1 ∧ p = Vec.lerp a b s ∧
    (1 - s) * plane.snappedDistance a + s * plane.snappedDistance b = 0

theorem comes_stop {a b : Vec ℝ} (h : plane.snappedDistance b = 0) : Comes plane a b b := by
  refine ⟨1, one_pos, le_rfl, (Wire.pointAt_one ⟨a, b⟩).symm, ?_⟩
  rw [h, sub_self, zero_mul, mul_zero, add_zero]

/-- A side between the two sides of a plane comes to it from either end. -/
theorem comes_crossing {a b : Vec ℝ} {x y : ℝ} (hx : plane.snappedDistance a = x)
    (hy : plane.snappedDistance b = y) (h : x * y < 0) :
    Comes plane a b (Vec.lerp a b (x / (x - y))) ∧
      Comes plane b a (Vec.lerp a b (x / (x - y))) := by
  obtain ⟨hpos, hlt⟩ := inner_of_mul_neg h
  have hne : x - y ≠ 0 := by
    rintro hzero
    rw [hzero, div_zero] at hpos
    exact lt_irrefl 0 hpos
  have hmul : x / (x - y) * (x - y) = x := div_mul_cancel₀ x hne
  generalize x / (x - y) = s at *
  refine ⟨⟨s, hpos, hlt.le, rfl, ?_⟩, 1 - s, sub_pos.2 hlt, sub_le_self 1 hpos.le, ?_, ?_⟩
  · rw [hx, hy]
    linarith
  · unfold Vec.lerp
    module
  · rw [hx, hy]
    linarith

/-- The ends of a slice: where the sides from a vertex that is away from the plane come to it. -/
inductive Slice (plane : Plane ℝ) : Triangle ℝ → Vec ℝ → Vec ℝ → Prop
  /-- The first vertex is away from the plane. -/
  | apex {t : Triangle ℝ} {p q : Vec ℝ} (hne : plane.snappedDistance t.a ≠ 0)
    (hp : Comes plane t.a t.b p) (hq : Comes plane t.a t.c q) : Slice plane t p q
  /-- Any vertex may be the first one. -/
  | rotated {t : Triangle ℝ} {p q : Vec ℝ} (h : Slice plane t.rotated p q) : Slice plane t p q
  /-- Either end may be the first one. -/
  | swap {t : Triangle ℝ} {p q : Vec ℝ} (h : Slice plane t p q) : Slice plane t q p

/-- The triangle does not reach the plane, or only with one vertex. -/
inductive Touched (plane : Plane ℝ) : Triangle ℝ → Prop
  /-- All vertices are on one side, but the first one may be in the plane. -/
  | beside {t : Triangle ℝ} (hab : 0 ≤ plane.snappedDistance t.a * plane.snappedDistance t.b)
    (hbc : 0 < plane.snappedDistance t.b * plane.snappedDistance t.c) : Touched plane t
  /-- Any vertex may be the first one. -/
  | rotated {t : Triangle ℝ} (h : Touched plane t.rotated) : Touched plane t

/-! Each vertex may be the one that is away from the plane, or in it. -/

theorem Slice.of_a (h : plane.snappedDistance t.a ≠ 0) (hp : Comes plane t.a t.b p)
    (hq : Comes plane t.a t.c q) : Slice plane t p q := .apex h hp hq

theorem Slice.of_b (h : plane.snappedDistance t.b ≠ 0) (hp : Comes plane t.b t.a p)
    (hq : Comes plane t.b t.c q) : Slice plane t p q := .rotated (.swap (.apex h hq hp))

theorem Slice.of_c (h : plane.snappedDistance t.c ≠ 0) (hp : Comes plane t.c t.a p)
    (hq : Comes plane t.c t.b q) : Slice plane t p q := .rotated (.rotated (.apex h hp hq))

theorem Touched.of_a (hab : 0 ≤ plane.snappedDistance t.a * plane.snappedDistance t.b)
    (hbc : 0 < plane.snappedDistance t.b * plane.snappedDistance t.c) : Touched plane t :=
  .beside hab hbc

theorem Touched.of_b (hbc : 0 ≤ plane.snappedDistance t.b * plane.snappedDistance t.c)
    (hca : 0 < plane.snappedDistance t.c * plane.snappedDistance t.a) : Touched plane t :=
  .rotated (.beside hbc hca)

theorem Touched.of_c (hca : 0 ≤ plane.snappedDistance t.c * plane.snappedDistance t.a)
    (hab : 0 < plane.snappedDistance t.a * plane.snappedDistance t.b) : Touched plane t :=
  .rotated (.rotated (.beside hca hab))

/-- What the search for a slice finds, and where it finds none. -/
theorem crossing?_cases (t : Triangle ℝ) (plane : Plane ℝ) :
    (∃ p q, t.crossing? plane = some (p, q) ∧ Slice plane t p q) ∨
      (t.crossing? plane = none ∧
        (Touched plane t ∨ ∀ v ∈ t.vertices, plane.snappedDistance v = 0)) := by
  have htouched := And.intro (@Touched.of_a t plane) (And.intro (@Touched.of_b t plane)
    (@Touched.of_c t plane))
  have hsliceA := @Slice.of_a t plane
  have hsliceB := @Slice.of_b t plane
  have hsliceC := @Slice.of_c t plane
  have ha (v : Vec ℝ) : plane.snappedDistance t.a = 0 → Comes plane v t.a t.a := comes_stop
  have hb (v : Vec ℝ) : plane.snappedDistance t.b = 0 → Comes plane v t.b t.b := comes_stop
  have hc (v : Vec ℝ) : plane.snappedDistance t.c = 0 → Comes plane v t.c t.c := comes_stop
  unfold crossing? sides
  simp only [vertices]
  generalize hx : plane.snappedDistance t.a = x, hy : plane.snappedDistance t.b = y,
    hz : plane.snappedDistance t.c = z at *
  have hab := comes_crossing hx hy
  have hbc := comes_crossing hy hz
  have hca := comes_crossing hz hx
  -- the signs of the vertices leave one way in which the triangle is touched or sliced
  rcases sign_cases x with hx' | hx' | hx' <;> rcases sign_cases y with hy' | hy' | hy' <;>
    rcases sign_cases z with hz' | hz' | hz' <;>
    simp [Side.startIf, Side.crossing, Side.contacts, mul_neg_iff, mul_pos_iff, mul_nonneg_iff,
      hx', hy', hz'] at htouched hsliceA hsliceB hsliceC ha hb hc hab hbc hca ⊢ <;>
    grind [Slice.swap]

/-! ### Slices of clear triangles -/

/-- No vertex is moved to the plane. -/
def Unmoved (plane : Plane ℝ) (t : Triangle ℝ) : Prop :=
  ∀ v ∈ t.vertices, plane.snappedDistance v = plane.signedDistance v

theorem unmoved_of_clear (h : ∀ v ∈ t.vertices, plane.Clear v) : Unmoved plane t :=
  fun v hv => (h v hv).snappedDistance

/-- If no vertex is moved to the plane, a slice is what the triangle has in the plane. -/
theorem Slice.holds_iff (h : Slice plane t p q) (hunmoved : Unmoved plane t) (v : Vec ℝ) :
    Edge.Holds ⟨p, q⟩ v ↔ t.Holds v ∧ plane.signedDistance v = 0 := by
  induction h generalizing v with
  | rotated _ ih => rw [ih (vertices_rotated hunmoved), holds_rotated_iff]
  | swap _ ih => rw [← ih hunmoved, ← Edge.holds_reversed_iff, Edge.reversed]
  | @apex t p q hne hp hq =>
    obtain ⟨s, hs, hs', rfl, hb⟩ := hp
    obtain ⟨r, hr, hr', rfl, hc⟩ := hq
    simp only [Unmoved, vertices, List.forall_mem_cons] at hunmoved
    rw [hunmoved.1] at hne hb hc
    rw [hunmoved.2.1] at hb
    rw [hunmoved.2.2.1] at hc
    have hpoint (k : ℝ) : Edge.pointAt ⟨Vec.lerp t.a t.b s, Vec.lerp t.a t.c r⟩ k =
        t.point ((1 - k) * s, k * r) := by
      unfold Edge.pointAt Vec.lerp point
      module
    constructor
    · rintro ⟨k, hk, hk', rfl⟩
      rw [hpoint, plane.signedDistance_point]
      have hks := mul_nonneg (sub_nonneg.2 hk') hs.le
      have hkr := mul_nonneg hk hr.le
      refine ⟨⟨_, ⟨hks, hkr, ?_⟩, rfl⟩, ?_⟩
      · nlinarith
      · linear_combination (1 - k) * hb + k * hc
    · rintro ⟨⟨u, ⟨hu₁, hu₂, hu₃⟩, rfl⟩, hzero⟩
      rw [plane.signedDistance_point] at hzero
      -- the coordinates are shares of those at which the sides come to the plane
      have hsum : u.1 / s + u.2 / r = 1 := by
        have hdist : (u.1 / s + u.2 / r - 1) * plane.signedDistance t.a = 0 := by
          have hb' : u.1 / s * plane.signedDistance t.a =
              u.1 * plane.signedDistance t.a - u.1 * plane.signedDistance t.b := by
            field_simp
            linear_combination u.1 * hb
          have hc' : u.2 / r * plane.signedDistance t.a =
              u.2 * plane.signedDistance t.a - u.2 * plane.signedDistance t.c := by
            field_simp
            linear_combination u.2 * hc
          linear_combination hb' + hc' - hzero
        exact sub_eq_zero.1 ((mul_eq_zero.1 hdist).resolve_right hne)
      refine ⟨u.2 / r, div_nonneg hu₂ hr.le, ?_, ?_⟩
      · linarith [div_nonneg hu₁ hs.le]
      · rw [hpoint, ← hsum, add_sub_cancel_right, div_mul_cancel₀ _ hs.ne',
          div_mul_cancel₀ _ hr.ne']

/-- If no vertex is moved to the plane, a triangle that is touched has one point in the plane at
most. -/
theorem Touched.eq (h : Touched plane t) (hunmoved : Unmoved plane t)
    (hp : t.Holds p) (hp' : plane.signedDistance p = 0) (hq : t.Holds q)
    (hq' : plane.signedDistance q = 0) : p = q := by
  induction h with
  | rotated _ ih =>
    exact ih (vertices_rotated hunmoved) (holds_rotated_iff.2 hp) (holds_rotated_iff.2 hq)
  | @beside t hab hbc =>
    simp only [Unmoved, vertices, List.forall_mem_cons] at hunmoved
    rw [hunmoved.1, hunmoved.2.1] at hab
    rw [hunmoved.2.1, hunmoved.2.2.1] at hbc
    -- the other vertices take no part in a point of the plane
    suffices hall : ∀ v, t.Holds v → plane.signedDistance v = 0 → v = t.a by
      rw [hall p hp hp', hall q hq hq']
    rintro v ⟨u, ⟨hu₁, hu₂, hu₃⟩, rfl⟩ hzero
    rw [plane.signedDistance_point] at hzero
    have hb : 0 < plane.signedDistance t.b * plane.signedDistance t.b :=
      mul_self_pos.2 (left_ne_zero_of_mul hbc.ne')
    have hsum : (1 - u.1 - u.2) * (plane.signedDistance t.a * plane.signedDistance t.b) +
        u.1 * (plane.signedDistance t.b * plane.signedDistance t.b) +
        u.2 * (plane.signedDistance t.b * plane.signedDistance t.c) = 0 := by
      linear_combination plane.signedDistance t.b * hzero
    have ha := mul_nonneg (show 0 ≤ 1 - u.1 - u.2 by linarith) hab
    have hub := mul_nonneg hu₁ hb.le
    have huc := mul_nonneg hu₂ hbc.le
    have hu : u = (0, 0) := Prod.ext
      ((mul_eq_zero.1 (by linarith)).resolve_right hb.ne')
      ((mul_eq_zero.1 (by linarith)).resolve_right hbc.ne')
    rw [hu, ← a_eq_point]

/-! ### Slices of any triangles -/

theorem holds_lerp_a_b (t : Triangle ℝ) {s : ℝ} (hs : 0 ≤ s) (hs' : s ≤ 1) :
    t.Holds (Vec.lerp t.a t.b s) :=
  ⟨(s, 0), ⟨hs, le_rfl, by simpa using hs'⟩, t.lerp_a_b s⟩

theorem holds_lerp_a_c (t : Triangle ℝ) {s : ℝ} (hs : 0 ≤ s) (hs' : s ≤ 1) :
    t.Holds (Vec.lerp t.a t.c s) :=
  ⟨(0, s), ⟨le_rfl, hs, by simpa using hs'⟩, t.lerp_a_c s⟩

/-- Where a line comes to the plane is no farther from it than its second point is moved. -/
theorem Comes.abs_signedDistance_le {a b : Vec ℝ} (ha : plane.snappedDistance a ≠ 0)
    (h : Comes plane a b p) : |plane.signedDistance p| ≤ plane.shift b := by
  obtain ⟨s, hs, hs', rfl, hzero⟩ := h
  have hp : plane.signedDistance (Vec.lerp a b s) =
      s * (plane.signedDistance b - plane.snappedDistance b) := by
    have hat := plane.signedDistance_pointAt ⟨a, b⟩ s
    rw [Plane.snappedDistance_of_ne_zero ha] at hzero
    rw [Edge.pointAt] at hat
    linear_combination hat + hzero
  rw [hp, abs_mul, abs_of_pos hs]
  exact mul_le_of_le_one_left (abs_nonneg _) hs'

/-- The ends of a slice are points of the triangle. -/
theorem Slice.holds (h : Slice plane t p q) : t.Holds p ∧ t.Holds q := by
  induction h with
  | rotated _ ih => exact ⟨ih.1.of_rotated, ih.2.of_rotated⟩
  | swap _ ih => exact ih.symm
  | @apex t p q _ hp hq =>
    obtain ⟨s, hs, hs', rfl, -⟩ := hp
    obtain ⟨r, hr, hr', rfl, -⟩ := hq
    exact ⟨t.holds_lerp_a_b hs.le hs', t.holds_lerp_a_c hr.le hr'⟩

/-- They are no farther from the plane than vertices are moved. -/
theorem Slice.exists_shift (h : Slice plane t p q) :
    (∃ v ∈ t.vertices, |plane.signedDistance p| ≤ plane.shift v) ∧
      ∃ v ∈ t.vertices, |plane.signedDistance q| ≤ plane.shift v := by
  induction h with
  | rotated _ ih =>
    obtain ⟨⟨v, hv, hle⟩, w, hw, hle'⟩ := ih
    exact ⟨⟨v, mem_vertices_rotated.1 hv, hle⟩, w, mem_vertices_rotated.1 hw, hle'⟩
  | swap _ ih => exact ih.symm
  | @apex t p q hne hp hq =>
    exact ⟨⟨t.b, by simp [vertices], hp.abs_signedDistance_le hne⟩,
      t.c, by simp [vertices], hq.abs_signedDistance_le hne⟩

end Triangle

end WingBox
