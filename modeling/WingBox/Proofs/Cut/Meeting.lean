import Mathlib.Analysis.Convex.Segment
import WingBox.Proofs.Cut.Conservation
import WingBox.Proofs.Cut.Slice

/-!
# Where two triangles meet

With exact numbers the segment in which two triangles are found to cross is what they have in common
(`Triangle.intersect?_exact`), provided that their planes cross and that no vertex is nearer to the
plane of the other triangle than the tolerance without being in it, `Triangle.Transverse`.

* `Plane.Common.sub_eq`: points common to two planes differ by a multiple of one direction, so
  places along it tell them apart;
* `Triangle.meet?_eq_some_iff`: what is found of two slices on such a line is what they share, if
  that has a length;
* `Triangle.Transverse.intersect?_eq_some_iff`: so the result for two triangles is what they share,
  in a direction that depends on their order.
-/

namespace WingBox

open Scalar

theorem Scalar.greatest_eq (x y : ℝ) : greatest x y = max x y := by
  unfold greatest
  grind

/-! ### Vectors across two others -/

namespace Vec

variable {v n m : Vec ℝ}

/-- A vector without component along `n × m` is no longer than its components along `n` and `m`
allow. -/
theorem norm_mul_norm_cross_le (h : v.dot (n.cross m) = 0) :
    v.norm * (n.cross m).norm ≤ |v.dot n| * m.norm + |v.dot m| * n.norm := by
  have hturn : v.cross (n.cross m) = v.dot m • n + (-v.dot n) • m := by
    rw [cross_cross, neg_smul, sub_eq_add_neg]
  calc v.norm * (n.cross m).norm ≤ (v.dot m • n).norm + ((-v.dot n) • m).norm := by
        rw [← norm_cross_of_dot h, hturn]
        exact norm_add_le _ _
    _ = |v.dot n| * m.norm + |v.dot m| * n.norm := by
        rw [norm_smul, norm_smul, abs_neg, add_comm]

/-- A vector without component along any of `n`, `m` and `n × m` is zero. -/
theorem eq_zero_of_dot (hcross : (n.cross m).norm ≠ 0) (hn : v.dot n = 0) (hm : v.dot m = 0)
    (h : v.dot (n.cross m) = 0) : v = 0 := by
  have hle := norm_mul_norm_cross_le h
  rw [hn, hm, abs_zero, zero_mul, zero_mul, add_zero] at hle
  have hpos : 0 < (n.cross m).norm := (norm_nonneg _).lt_of_ne' hcross
  exact eq_zero_of_norm (le_antisymm (nonpos_of_mul_nonpos_left hle hpos) v.norm_nonneg)

end Vec

/-! ### The line common to two planes -/

namespace Plane

variable {p q : Plane ℝ} {x y : Vec ℝ}

/-- The point lies in both planes. -/
def Common (p q : Plane ℝ) (x : Vec ℝ) : Prop := p.signedDistance x = 0 ∧ q.signedDistance x = 0

/-- The direction of the points in both planes. -/
noncomputable def direction (p q : Plane ℝ) : Vec ℝ := (p.normal.cross q.normal).normalize

/-- The place of a point along this direction. -/
noncomputable def along (p q : Plane ℝ) (x : Vec ℝ) : ℝ := x.dot (p.direction q)

theorem along_swap (p q : Plane ℝ) (x : Vec ℝ) : q.along p x = -p.along q x := by
  simp only [along, direction, Vec.normalize, Vec.cross_comm q.normal, Vec.norm_neg,
    Vec.div_eq_smul, Vec.dot, Vec.smul_x, Vec.smul_y, Vec.smul_z, Vec.neg_x, Vec.neg_y, Vec.neg_z]
  ring

theorem along_pointAt (e : Edge ℝ) (s : ℝ) :
    p.along q (e.pointAt s) = (1 - s) * p.along q e.start + s * p.along q e.stop := by
  simp only [along, Edge.pointAt, Vec.lerp, Vec.dot, Vec.add_x, Vec.add_y, Vec.add_z, Vec.sub_x,
    Vec.sub_y, Vec.sub_z, Vec.smul_x, Vec.smul_y, Vec.smul_z]
  ring

/-- An edge has points at all places between those of its ends. -/
theorem exists_holds_along {e : Edge ℝ} {k : ℝ}
    (hmin : min (p.along q e.start) (p.along q e.stop) ≤ k)
    (hmax : k ≤ max (p.along q e.start) (p.along q e.stop)) :
    ∃ x, e.Holds x ∧ p.along q x = k := by
  have hmem : k ∈ Set.uIcc (p.along q e.start) (p.along q e.stop) := ⟨hmin, hmax⟩
  rw [← segment_eq_uIcc] at hmem
  obtain ⟨r, s, hr, hs, hsum, rfl⟩ := hmem
  refine ⟨e.pointAt s, ⟨s, hs, by linarith, rfl⟩, ?_⟩
  rw [along_pointAt, ← hsum, add_sub_cancel_right, smul_eq_mul, smul_eq_mul]

theorem Common.pointAt {e : Edge ℝ} (hstart : p.Common q e.start) (hstop : p.Common q e.stop)
    (s : ℝ) : p.Common q (e.pointAt s) := by
  constructor
  · rw [signedDistance_pointAt, hstart.1, hstop.1, mul_zero, mul_zero, add_zero]
  · rw [signedDistance_pointAt, hstart.2, hstop.2, mul_zero, mul_zero, add_zero]

theorem sub_dot_normal (plane : Plane ℝ) (x y : Vec ℝ) :
    (x - y).dot plane.normal = plane.signedDistance x - plane.signedDistance y := by
  rw [signedDistance, signedDistance, Vec.sub_dot, Vec.sub_dot, Vec.sub_dot,
    sub_sub_sub_cancel_right]

theorem direction_dot_normal (p q : Plane ℝ) :
    (p.direction q).dot p.normal = 0 ∧ (p.direction q).dot q.normal = 0 := by
  rw [direction, Vec.normalize, Vec.div_eq_smul, Vec.smul_dot, Vec.smul_dot, Vec.cross_dot_left,
    Vec.cross_dot_right, mul_zero]
  exact ⟨rfl, rfl⟩

section Crossing

variable (hcross : (p.normal.cross q.normal).norm ≠ 0)

include hcross

theorem norm_direction : (p.direction q).norm = 1 := Vec.norm_normalize hcross

/-- A vector across the direction is one across the vector product of the normals. -/
theorem dot_cross_eq_zero {v : Vec ℝ} (h : v.dot (p.direction q) = 0) :
    v.dot (p.normal.cross q.normal) = 0 := by
  have hdirection : p.normal.cross q.normal = (p.normal.cross q.normal).norm • p.direction q := by
    rw [direction, Vec.normalize, Vec.div_eq_smul, smul_inv_smul₀ hcross]
  rw [hdirection, Vec.dot_comm, Vec.smul_dot, Vec.dot_comm, h, mul_zero]

/-- Points in both planes differ by a multiple of the direction. -/
theorem Common.sub_eq (hx : p.Common q x) (hy : p.Common q y) :
    y - x = (p.along q y - p.along q x) • p.direction q := by
  obtain ⟨hp, hq⟩ := direction_dot_normal p q
  have hunit : (p.direction q).dot (p.direction q) = 1 := Vec.dot_self (norm_direction hcross)
  -- what is left of the difference has no component at all
  refine sub_eq_zero.1 (Vec.eq_zero_of_dot hcross ?_ ?_ (dot_cross_eq_zero hcross ?_))
  · rw [Vec.sub_dot, Vec.smul_dot, hp, mul_zero, sub_zero, sub_dot_normal, hx.1, hy.1, sub_self]
  · rw [Vec.sub_dot, Vec.smul_dot, hq, mul_zero, sub_zero, sub_dot_normal, hx.2, hy.2, sub_self]
  · rw [Vec.sub_dot, Vec.smul_dot, hunit, mul_one, Vec.sub_dot]
    exact sub_self _

theorem Common.eq_of_along (hx : p.Common q x) (hy : p.Common q y)
    (h : p.along q x = p.along q y) : x = y := by
  have hdiff := hx.sub_eq hcross hy
  rw [h, sub_self, zero_smul] at hdiff
  exact (sub_eq_zero.1 hdiff).symm

theorem Common.distance_eq (hx : p.Common q x) (hy : p.Common q y) :
    x.distance y = |p.along q x - p.along q y| := by
  rw [Vec.distance, hy.sub_eq hcross hx, Vec.norm_smul, norm_direction hcross, mul_one]

/-- An edge of points in both planes holds those between its ends. -/
theorem Common.holds_iff {e : Edge ℝ} (hstart : p.Common q e.start) (hstop : p.Common q e.stop) :
    e.Holds x ↔ p.Common q x ∧
      min (p.along q e.start) (p.along q e.stop) ≤ p.along q x ∧
      p.along q x ≤ max (p.along q e.start) (p.along q e.stop) := by
  constructor
  · rintro ⟨s, hs, hs', rfl⟩
    refine ⟨hstart.pointAt hstop s, ?_⟩
    rw [along_pointAt]
    rcases le_total (p.along q e.start) (p.along q e.stop) with hle | hle
    · rw [min_eq_left hle, max_eq_right hle]
      constructor <;> nlinarith
    · rw [min_eq_right hle, max_eq_left hle]
      constructor <;> nlinarith
  · rintro ⟨hx, hmin, hmax⟩
    obtain ⟨y, ⟨s, hs, hs', rfl⟩, hat⟩ := exists_holds_along hmin hmax
    exact ⟨s, hs, hs', hx.eq_of_along hcross (hstart.pointAt hstop s) hat.symm⟩

end Crossing

/-! ### What two edges share -/

/-- Where along the direction two edges begin to be both there. -/
noncomputable def sharedStart (p q : Plane ℝ) (e f : Edge ℝ) : ℝ :=
  max (min (p.along q e.start) (p.along q e.stop)) (min (p.along q f.start) (p.along q f.stop))

/-- Where along the direction two edges end to be both there. -/
noncomputable def sharedStop (p q : Plane ℝ) (e f : Edge ℝ) : ℝ :=
  min (max (p.along q e.start) (p.along q e.stop)) (max (p.along q f.start) (p.along q f.stop))

/-- The ends of an edge lie in both planes. -/
def Carries (p q : Plane ℝ) (e : Edge ℝ) : Prop := p.Common q e.start ∧ p.Common q e.stop

/-- Such an edge, if it has a length, leads to every place along the direction. -/
theorem Carries.along_pointAt {e : Edge ℝ} (hne : p.along q e.start ≠ p.along q e.stop) (k : ℝ) :
    p.along q (e.pointAt ((k - p.along q e.start) / (p.along q e.stop - p.along q e.start))) =
      k := by
  have hdiv := div_mul_cancel₀ (k - p.along q e.start) (sub_ne_zero.2 hne.symm)
  rw [Plane.along_pointAt]
  linear_combination hdiv

theorem Carries.exists_along {e : Edge ℝ} (he : p.Carries q e)
    (hne : p.along q e.start ≠ p.along q e.stop) (k : ℝ) :
    ∃ x, p.Common q x ∧ p.along q x = k :=
  ⟨_, he.1.pointAt he.2 _, Carries.along_pointAt hne k⟩

/-- The edge is what two others share, followed in the direction of the planes. -/
def Shares (p q : Plane ℝ) (e f g : Edge ℝ) : Prop :=
  p.Carries q e ∧ p.along q e.start = p.sharedStart q f g ∧ p.along q e.stop = p.sharedStop q f g

/-- An edge is no shorter than what it shares with another one. -/
theorem sharedStop_sub_sharedStart_le (p q : Plane ℝ) (f g : Edge ℝ) :
    p.sharedStop q f g - p.sharedStart q f g ≤ |p.along q f.stop - p.along q f.start| := by
  rw [abs_sub_comm, ← max_sub_min_eq_abs']
  exact sub_le_sub (min_le_left _ _) (le_max_left _ _)

theorem along_ne_of_shared {f g : Edge ℝ} (hlt : p.sharedStart q f g < p.sharedStop q f g) :
    p.along q f.start ≠ p.along q f.stop := by
  intro heq
  have hle := p.sharedStop_sub_sharedStart_le q f g
  rw [heq, sub_self, abs_zero] at hle
  exact absurd (sub_nonpos.1 hle) hlt.not_ge

theorem exists_shares {f g : Edge ℝ} (hf : p.Carries q f)
    (hlt : p.sharedStart q f g < p.sharedStop q f g) : ∃ e, p.Shares q e f g := by
  have hne := along_ne_of_shared hlt
  obtain ⟨x, hx, hstart⟩ := hf.exists_along hne (p.sharedStart q f g)
  obtain ⟨y, hy, hstop⟩ := hf.exists_along hne (p.sharedStop q f g)
  exact ⟨⟨x, y⟩, ⟨hx, hy⟩, hstart, hstop⟩

section Crossing

variable {e f g : Edge ℝ} (hcross : (p.normal.cross q.normal).norm ≠ 0)

include hcross

theorem holds_both_iff (hf : p.Carries q f) (hg : p.Carries q g) :
    f.Holds x ∧ g.Holds x ↔
      p.Common q x ∧ p.sharedStart q f g ≤ p.along q x ∧ p.along q x ≤ p.sharedStop q f g := by
  rw [Common.holds_iff hcross hf.1 hf.2, Common.holds_iff hcross hg.1 hg.2, sharedStart, sharedStop,
    max_le_iff, le_min_iff]
  tauto

/-- An edge that has a length in this direction is what two others share if and only if it holds the
same points. -/
theorem shares_iff (hf : p.Carries q f) (hg : p.Carries q g)
    (hlt : p.along q e.start < p.along q e.stop) :
    p.Shares q e f g ↔ ∀ x, e.Holds x ↔ f.Holds x ∧ g.Holds x := by
  constructor
  · rintro ⟨he, hstart, hstop⟩ x
    rw [holds_both_iff hcross hf hg, Common.holds_iff hcross he.1 he.2, min_eq_left hlt.le,
      max_eq_right hlt.le, hstart, hstop]
  · intro hall
    obtain ⟨hstart, hlo, -⟩ := (holds_both_iff hcross hf hg).1 ((hall _).1 e.holds_start)
    obtain ⟨hstop, -, hhi⟩ := (holds_both_iff hcross hf hg).1 ((hall _).1 e.holds_stop)
    -- a point where the shared part begins or ends is held by the edge, so that is not shorter
    have hreach {k : ℝ} (hlo : p.sharedStart q f g ≤ k) (hhi : k ≤ p.sharedStop q f g) :
        p.along q e.start ≤ k ∧ k ≤ p.along q e.stop := by
      obtain ⟨x, hx, rfl⟩ := Carries.exists_along ⟨hstart, hstop⟩ hlt.ne k
      have hmem := (hall x).2 ((holds_both_iff hcross hf hg).2 ⟨hx, hlo, hhi⟩)
      rw [Common.holds_iff hcross hstart hstop, min_eq_left hlt.le, max_eq_right hlt.le] at hmem
      exact hmem.2
    have hle : p.sharedStart q f g ≤ p.sharedStop q f g := hlo.trans (hlt.le.trans hhi)
    exact ⟨⟨hstart, hstop⟩, le_antisymm (hreach le_rfl hle).1 hlo,
      le_antisymm hhi (hreach hle le_rfl).2⟩

end Crossing

end Plane

namespace Triangle

variable {t u : Triangle ℝ} {p q : Plane ℝ} {a a' b b' : Vec ℝ} {e : Edge ℝ}

/-! ### Two slices -/

theorem crossingBound_pos : (0 : ℝ) < crossingBound := by
  norm_num [crossingBound]

theorem meet?_eq (hcross : crossingBound < (p.normal.cross q.normal).norm)
    (ht : t.crossing? q = some (a, a')) (hu : u.crossing? p = some (b, b')) :
    t.meet? p u q =
      let lo := p.sharedStart q ⟨a, a'⟩ ⟨b, b'⟩
      let hi := p.sharedStop q ⟨a, a'⟩ ⟨b, b'⟩
      let s := p.along q a
      let s' := p.along q a'
      if hi - lo < tolerance ∨ |s' - s| < tolerance then none
      else some ⟨Vec.lerp a a' ((lo - s) / (s' - s)), Vec.lerp a a' ((hi - s) / (s' - s))⟩ := by
  have hdirection : (p.normal.cross q.normal).normalize? crossingBound = some (p.direction q) :=
    if_neg (not_le.2 hcross)
  rw [meet?, ht, hu]
  simp only [Option.bind_eq_bind, Option.bind_some, hdirection, least_eq, greatest_eq]
  rfl

/-- If something is found of two triangles, there are slices that share it. -/
theorem exists_slices_of_meet? (h : t.meet? p u q = some e) :
    ∃ a a' b b', crossingBound < (p.normal.cross q.normal).norm ∧
      t.crossing? q = some (a, a') ∧ u.crossing? p = some (b, b') ∧
      tolerance ≤ p.sharedStop q ⟨a, a'⟩ ⟨b, b'⟩ - p.sharedStart q ⟨a, a'⟩ ⟨b, b'⟩ := by
  have hdata := h
  simp only [meet?, Option.bind_eq_bind, Option.bind_eq_some_iff] at hdata
  obtain ⟨⟨a, a'⟩, ht, ⟨b, b'⟩, hu, dir, hdir, -⟩ := hdata
  have hcross : crossingBound < (p.normal.cross q.normal).norm :=
    not_le.1 (Vec.normalize?_eq_some_iff.1 hdir).1
  refine ⟨a, a', b, b', hcross, ht, hu, ?_⟩
  rw [meet?_eq hcross ht hu] at h
  dsimp only at h
  split at h
  next => cases h
  next hnot => exact not_lt.1 fun hlt => hnot (.inl hlt)

/-- What two triangles are found to have in common is what their slices share, if that is not too
short. -/
theorem meet?_eq_some_iff (hcross : crossingBound < (p.normal.cross q.normal).norm)
    (ht : t.crossing? q = some (a, a')) (hu : u.crossing? p = some (b, b'))
    (hf : p.Carries q ⟨a, a'⟩) :
    t.meet? p u q = some e ↔
      p.Shares q e ⟨a, a'⟩ ⟨b, b'⟩ ∧ tolerance ≤ p.along q e.stop - p.along q e.start := by
  have hne : (p.normal.cross q.normal).norm ≠ 0 := (crossingBound_pos.trans hcross).ne'
  rw [meet?_eq hcross ht hu]
  dsimp only
  set lo := p.sharedStart q ⟨a, a'⟩ ⟨b, b'⟩
  set hi := p.sharedStop q ⟨a, a'⟩ ⟨b, b'⟩
  have hspread : hi - lo ≤ |p.along q a' - p.along q a| :=
    p.sharedStop_sub_sharedStart_le q ⟨a, a'⟩ ⟨b, b'⟩
  have hpoint (hlong : tolerance ≤ hi - lo) (k : ℝ) :
      p.Common q (Vec.lerp a a' ((k - p.along q a) / (p.along q a' - p.along q a))) ∧
        p.along q (Vec.lerp a a' ((k - p.along q a) / (p.along q a' - p.along q a))) = k := by
    have hshared : lo < hi := sub_pos.1 (tolerance_pos.trans_le hlong)
    exact ⟨hf.1.pointAt hf.2 _, Plane.Carries.along_pointAt (Plane.along_ne_of_shared hshared) k⟩
  constructor
  · intro h
    split at h
    next => cases h
    next hnot =>
      obtain rfl := Option.some.inj h
      have hlong : tolerance ≤ hi - lo := not_lt.1 fun hlt => hnot (.inl hlt)
      obtain ⟨hlo, hlo'⟩ := hpoint hlong lo
      obtain ⟨hhi, hhi'⟩ := hpoint hlong hi
      refine ⟨⟨⟨hlo, hhi⟩, hlo', hhi'⟩, ?_⟩
      rw [hlo', hhi']
      exact hlong
  · rintro ⟨⟨⟨hstart, hstop⟩, hlo, hhi⟩, hlong⟩
    rw [hlo, hhi] at hlong
    rw [if_neg (not_or.2 ⟨not_lt.2 hlong, not_lt.2 (hlong.trans hspread)⟩)]
    have heq {k : ℝ} {x : Vec ℝ} (hx : p.Common q x) (hk : p.along q x = k) :
        Vec.lerp a a' ((k - p.along q a) / (p.along q a' - p.along q a)) = x :=
      (hpoint hlong k).1.eq_of_along hne hx ((hpoint hlong k).2.trans hk.symm)
    rw [heq hstart hlo, heq hstop hhi]

/-! ### Two triangles -/

variable {x y : Vec ℝ}

/-- The plane in which the triangle lies. -/
noncomputable def support (t : Triangle ℝ) : Plane ℝ := ⟨t.a, t.cross.normalize⟩

theorem plane?_eq_support (h : tolerance * tolerance ≤ t.area) : t.plane? = some t.support :=
  plane?_of_le_area h

/-- A triangle has a plane if it is no sliver: the one that supports it. -/
theorem plane?_eq_some_iff :
    t.plane? = some p ↔ tolerance * tolerance ≤ t.area ∧ t.support = p := by
  constructor
  · intro h
    have harea : tolerance * tolerance ≤ t.area := by
      unfold plane? at h
      split at h
      next => cases h
      next hsliver => exact not_lt.1 hsliver
    exact ⟨harea, Option.some.inj ((plane?_eq_support harea).symm.trans h)⟩
  · rintro ⟨harea, rfl⟩
    exact plane?_eq_support harea

theorem norm_support (h : tolerance * tolerance ≤ t.area) : t.support.normal.norm = 1 := by
  refine Vec.norm_normalize fun hzero => ?_
  rw [area, hzero, mul_zero] at h
  exact absurd (mul_pos tolerance_pos tolerance_pos) h.not_gt

theorem signedDistance_support (t : Triangle ℝ) (x : Vec ℝ) :
    t.support.signedDistance x = (x - t.a).dot t.cross / t.cross.norm := by
  simp only [Plane.signedDistance, support, Vec.normalize, Vec.dot, Vec.div_x, Vec.div_y, Vec.div_z]
  ring

theorem Holds.signedDistance_support (h : t.Holds x) : t.support.signedDistance x = 0 := by
  obtain ⟨v, -, rfl⟩ := h
  exact t.signedDistance_point v

/-- A triangle whose vertices lie in a plane faces as the plane does. -/
theorem cross_cross_eq_zero {plane : Plane ℝ} (h : ∀ v ∈ t.vertices, plane.signedDistance v = 0) :
    t.cross.cross plane.normal = 0 := by
  simp only [vertices, List.forall_mem_cons] at h
  obtain ⟨ha, hb, hc, -⟩ := h
  have hb' : (t.b - t.a).dot plane.normal = 0 := by rw [plane.sub_dot_normal, hb, ha, sub_self]
  have hc' : (t.c - t.a).dot plane.normal = 0 := by rw [plane.sub_dot_normal, hc, ha, sub_self]
  have hturn : t.cross.cross plane.normal =
      (t.b - t.a).dot plane.normal • (t.c - t.a) - (t.c - t.a).dot plane.normal • (t.b - t.a) := by
    ext <;> simp only [cross, Vec.cross, Vec.dot, Vec.sub_x, Vec.sub_y, Vec.sub_z, Vec.smul_x,
      Vec.smul_y, Vec.smul_z] <;> ring
  rw [hturn, hb', hc', zero_smul, zero_smul, sub_zero]

/-- The triangles are no slivers, their planes cross, and each vertex of one is in the plane of the
other or away from it. -/
structure Transverse (t u : Triangle ℝ) : Prop where
  /-- The first triangle has some area. -/
  area_left : tolerance * tolerance ≤ t.area
  /-- The second triangle has some area. -/
  area_right : tolerance * tolerance ≤ u.area
  /-- The normals are not parallel. -/
  crossing : crossingBound < (t.support.normal.cross u.support.normal).norm
  /-- The vertices of the first triangle are not almost in the plane of the second one. -/
  clear_left : ∀ v ∈ t.vertices, u.support.Clear v
  /-- The vertices of the second triangle are not almost in the plane of the first one. -/
  clear_right : ∀ v ∈ u.vertices, t.support.Clear v

namespace Transverse

theorem symm (h : t.Transverse u) : u.Transverse t := by
  refine ⟨h.area_right, h.area_left, ?_, h.clear_right, h.clear_left⟩
  rw [Vec.cross_comm, Vec.norm_neg]
  exact h.crossing

theorem norm_ne_zero (h : t.Transverse u) :
    (t.support.normal.cross u.support.normal).norm ≠ 0 := (crossingBound_pos.trans h.crossing).ne'

theorem intersect?_eq (h : t.Transverse u) :
    t.intersect? u = t.meet? t.support u u.support := by
  rw [intersect?, plane?_eq_support h.area_left, plane?_eq_support h.area_right]
  rfl

theorem common (hx : t.Holds x) (hx' : u.Holds x) : t.support.Common u.support x :=
  ⟨hx.signedDistance_support, hx'.signedDistance_support⟩

/-- What is found of the first triangle in the plane of the second one is what is there; if nothing
is found, there is one point at most. -/
theorem slice_cases (h : t.Transverse u) :
    (∃ a a', t.crossing? u.support = some (a, a') ∧
      ∀ x, Edge.Holds ⟨a, a'⟩ x ↔ t.Holds x ∧ u.support.signedDistance x = 0) ∨
    (t.crossing? u.support = none ∧ ∀ x y, t.Holds x → u.support.signedDistance x = 0 →
      t.Holds y → u.support.signedDistance y = 0 → x = y) := by
  have hunmoved := unmoved_of_clear h.clear_left
  rcases t.crossing?_cases u.support with ⟨a, a', hsome, hslice⟩ | ⟨hnone, htouched | hflat⟩
  · exact .inl ⟨a, a', hsome, hslice.holds_iff hunmoved⟩
  · exact .inr ⟨hnone, fun x y hx hx' hy hy' => htouched.eq hunmoved hx hx' hy hy'⟩
  · -- a triangle in the plane of the other one would face as that does
    have hzero := cross_cross_eq_zero fun v hv => (hunmoved v hv).symm.trans (hflat v hv)
    refine absurd ?_ h.norm_ne_zero
    have hcross : t.support.normal.cross u.support.normal =
        t.cross.norm⁻¹ • t.cross.cross u.support.normal := by
      ext <;> simp only [support, Vec.normalize, Vec.cross, Vec.div_x, Vec.div_y, Vec.div_z,
        Vec.smul_x, Vec.smul_y, Vec.smul_z] <;> ring
    rw [hcross, hzero, smul_zero, Vec.norm_zero]

/-- Two triangles of which slices are found share what the slices share. -/
theorem shared_of_slices
    (ht : ∀ x, Edge.Holds ⟨a, a'⟩ x ↔ t.Holds x ∧ u.support.signedDistance x = 0)
    (hu : ∀ x, Edge.Holds ⟨b, b'⟩ x ↔ u.Holds x ∧ t.support.signedDistance x = 0) :
    t.support.Carries u.support ⟨a, a'⟩ ∧ t.support.Carries u.support ⟨b, b'⟩ ∧
      ∀ x, t.Holds x ∧ u.Holds x ↔ Edge.Holds ⟨a, a'⟩ x ∧ Edge.Holds ⟨b, b'⟩ x := by
  have hcommon {x : Vec ℝ} (hx : Edge.Holds ⟨a, a'⟩ x) : t.support.Common u.support x :=
    ⟨((ht x).1 hx).1.signedDistance_support, ((ht x).1 hx).2⟩
  have hcommon' {x : Vec ℝ} (hx : Edge.Holds ⟨b, b'⟩ x) : t.support.Common u.support x :=
    ⟨((hu x).1 hx).2, ((hu x).1 hx).1.signedDistance_support⟩
  refine ⟨⟨hcommon (Edge.holds_start _), hcommon (Edge.holds_stop _)⟩,
    ⟨hcommon' (Edge.holds_start _), hcommon' (Edge.holds_stop _)⟩, fun x => ?_⟩
  rw [ht, hu]
  exact ⟨fun ⟨hx, hx'⟩ => ⟨⟨hx, hx'.signedDistance_support⟩, hx', hx.signedDistance_support⟩,
    fun ⟨hx, hx'⟩ => ⟨hx.1, hx'.1⟩⟩

/-- Points that are far enough apart are found. -/
theorem isSome_intersect? (h : t.Transverse u) (hx : t.Holds x) (hx' : u.Holds x) (hy : t.Holds y)
    (hy' : u.Holds y) (hfar : tolerance ≤ x.distance y) : (t.intersect? u).isSome := by
  have hne : x ≠ y := by
    rintro rfl
    rw [Vec.distance_self] at hfar
    exact absurd tolerance_pos hfar.not_gt
  rcases h.slice_cases with ⟨a, a', ha, ht⟩ | ⟨-, heq⟩
  case inr => exact absurd (heq x y hx hx'.signedDistance_support hy hy'.signedDistance_support) hne
  rcases h.symm.slice_cases with ⟨b, b', hb, hu⟩ | ⟨-, heq⟩
  case inr => exact absurd (heq x y hx' hx.signedDistance_support hy' hy.signedDistance_support) hne
  obtain ⟨hf, hg, hall⟩ := shared_of_slices ht hu
  have hplace {z : Vec ℝ} (hz : t.Holds z) (hz' : u.Holds z) :=
    (Plane.holds_both_iff h.norm_ne_zero hf hg).1 ((hall z).1 ⟨hz, hz'⟩)
  obtain ⟨hxline, hxlo, hxhi⟩ := hplace hx hx'
  obtain ⟨hyline, hylo, hyhi⟩ := hplace hy hy'
  have hlong : tolerance ≤ t.support.sharedStop u.support ⟨a, a'⟩ ⟨b, b'⟩ -
      t.support.sharedStart u.support ⟨a, a'⟩ ⟨b, b'⟩ := by
    rw [hxline.distance_eq h.norm_ne_zero hyline] at hfar
    exact hfar.trans (abs_sub_le_iff.2 ⟨by linarith, by linarith⟩)
  obtain ⟨e, he⟩ := Plane.exists_shares hf (sub_pos.1 (tolerance_pos.trans_le hlong))
  rw [h.intersect?_eq, (meet?_eq_some_iff h.crossing ha hb hf).2 ⟨he, by rwa [he.2.1, he.2.2]⟩]
  rfl

/-- What is found of two triangles is what they have in common, followed in the direction of their
planes. -/
theorem intersect?_eq_some_iff (h : t.Transverse u) :
    t.intersect? u = some e ↔ (∀ x, e.Holds x ↔ t.Holds x ∧ u.Holds x) ∧
      tolerance ≤ t.support.along u.support e.stop - t.support.along u.support e.start := by
  have hpoint (heq : ∀ x y, t.Holds x → u.Holds x → t.Holds y → u.Holds y → x = y)
      (hall : ∀ x, e.Holds x ↔ t.Holds x ∧ u.Holds x) :
      ¬ tolerance ≤ t.support.along u.support e.stop - t.support.along u.support e.start := by
    obtain ⟨hstart, hstart'⟩ := (hall _).1 e.holds_start
    obtain ⟨hstop, hstop'⟩ := (hall _).1 e.holds_stop
    rw [heq _ _ hstart hstart' hstop hstop', sub_self]
    exact tolerance_pos.not_ge
  rw [h.intersect?_eq]
  rcases h.slice_cases with ⟨a, a', ha, ht⟩ | ⟨hnone, heq⟩
  case inr =>
    refine iff_of_false (by simp [meet?, hnone]) fun ⟨hall, hlong⟩ => hpoint ?_ hall hlong
    exact fun x y hx hx' hy hy' =>
      heq x y hx hx'.signedDistance_support hy hy'.signedDistance_support
  rcases h.symm.slice_cases with ⟨b, b', hb, hu⟩ | ⟨hnone, heq⟩
  case inr =>
    refine iff_of_false (by simp [meet?, hnone]) fun ⟨hall, hlong⟩ => hpoint ?_ hall hlong
    exact fun x y hx hx' hy hy' =>
      heq x y hx' hx.signedDistance_support hy' hy.signedDistance_support
  obtain ⟨hf, hg, hall⟩ := shared_of_slices ht hu
  rw [meet?_eq_some_iff h.crossing ha hb hf]
  refine and_congr_left fun hlong => ?_
  have hlt := sub_pos.1 (tolerance_pos.trans_le hlong)
  rw [Plane.shares_iff h.norm_ne_zero hf hg hlt]
  exact forall_congr' fun x => by rw [hall]

/-- Nothing is found of triangles that have no point in common. -/
theorem intersect?_eq_none (h : t.Transverse u) (hapart : ∀ x, t.Holds x → ¬ u.Holds x) :
    t.intersect? u = none := by
  refine Option.eq_none_iff_forall_ne_some.2 fun e he => ?_
  obtain ⟨ht, hu⟩ := ((h.intersect?_eq_some_iff.1 he).1 _).1 e.holds_start
  exact hapart _ ht hu

end Transverse

/-- **The segment in which two triangles cross is exactly what they have in common.**  Let the
triangles be no slivers, their normals not parallel, and each vertex of one either in the plane of
the other or away from it.  Then a segment is found if and only if the triangles meet in one that
is not too short, it is the one that is found, and the triangles taken the other way round give the
same one in reverse. -/
theorem intersect?_exact (h : t.Transverse u) :
    ((t.intersect? u).isSome ↔
      ∃ e : Edge ℝ, tolerance ≤ e.length ∧ ∀ x, e.Holds x ↔ t.Holds x ∧ u.Holds x) ∧
    (∀ e, t.intersect? u = some e →
      tolerance ≤ e.length ∧ ∀ x, e.Holds x ↔ t.Holds x ∧ u.Holds x) ∧
    u.intersect? t = (t.intersect? u).map Edge.reversed := by
  have hfound (e : Edge ℝ) (he : t.intersect? u = some e) :
      tolerance ≤ e.length ∧ ∀ x, e.Holds x ↔ t.Holds x ∧ u.Holds x := by
    obtain ⟨hall, hlong⟩ := h.intersect?_eq_some_iff.1 he
    obtain ⟨hstart, hstart'⟩ := (hall _).1 e.holds_start
    obtain ⟨hstop, hstop'⟩ := (hall _).1 e.holds_stop
    refine ⟨hlong.trans ?_, hall⟩
    change _ ≤ Vec.distance _ _
    rw [(Transverse.common hstop hstop').distance_eq h.norm_ne_zero
      (Transverse.common hstart hstart')]
    exact le_abs_self _
  refine ⟨⟨fun hsome => ?_, ?_⟩, hfound, ?_⟩
  · obtain ⟨e, he⟩ := Option.isSome_iff_exists.1 hsome
    exact ⟨e, hfound e he⟩
  · rintro ⟨e, hlong, hall⟩
    obtain ⟨hstart, hstart'⟩ := (hall _).1 e.holds_start
    obtain ⟨hstop, hstop'⟩ := (hall _).1 e.holds_stop
    exact h.isSome_intersect? hstop hstop' hstart hstart' hlong
  · -- the planes taken the other way round have the opposite direction
    refine Option.ext fun e => ?_
    have hreversed : (t.intersect? u).map Edge.reversed = some e ↔
        t.intersect? u = some e.reversed := by
      cases t.intersect? u with
      | none => simp
      | some f => exact ⟨fun he => by rw [← Option.some.inj he]; rfl,
          fun he => by rw [Option.some.inj he]; rfl⟩
    rw [hreversed, h.intersect?_eq_some_iff, h.symm.intersect?_eq_some_iff,
      Plane.along_swap t.support, Plane.along_swap t.support, neg_sub_neg]
    refine and_congr_left fun _ => forall_congr' fun x => ?_
    rw [Edge.holds_reversed_iff, and_comm]

theorem cross_wall : wall.cross = ⟨36, 0, 0⟩ := by
  ext <;> norm_num [wall, cross, Vec.cross]

theorem norm_cross_corner : corner.cross.norm = 4 := by
  rw [cross_corner]
  exact Vec.norm_eq (by norm_num) (by norm_num [Vec.normSq, Vec.dot])

theorem norm_cross_wall : wall.cross.norm = 36 := by
  rw [cross_wall]
  exact Vec.norm_eq (by norm_num) (by norm_num [Vec.normSq, Vec.dot])

theorem support_corner : corner.support = ⟨⟨0, 0, 0⟩, ⟨0, 0, 1⟩⟩ := by
  rw [support, Vec.normalize, norm_cross_corner, cross_corner]
  exact congrArg (Plane.mk _) (by ext <;> norm_num)

theorem support_wall : wall.support = ⟨⟨0.5, -1, -1⟩, ⟨1, 0, 0⟩⟩ := by
  rw [support, Vec.normalize, norm_cross_wall, cross_wall]
  exact congrArg (Plane.mk _) (by ext <;> norm_num)

theorem transverse_corner_wall : corner.Transverse wall := by
  have hcross : ((⟨0, 0, 1⟩ : Vec ℝ).cross ⟨1, 0, 0⟩).norm = 1 :=
    Vec.norm_eq zero_le_one (by norm_num [Vec.normSq, Vec.dot, Vec.cross])
  refine ⟨?_, ?_, ?_, ?_, ?_⟩
  · norm_num [area, norm_cross_corner, tolerance]
  · norm_num [area, norm_cross_wall, tolerance]
  · rw [support_corner, support_wall, hcross]
    norm_num [crossingBound]
  · rw [support_wall]
    norm_num [corner, vertices, Plane.Clear, Plane.signedDistance, Vec.dot, tolerance, abs_le]
  · rw [support_corner]
    norm_num [wall, vertices, Plane.Clear, Plane.signedDistance, Vec.dot, tolerance, abs_le]

theorem isSome_intersect?_corner : (corner.intersect? wall).isSome := by
  have hcorner (y : ℝ) (hy : 0 ≤ y) (hy' : y ≤ 1) : corner.Holds ⟨0.5, y, 0⟩ := by
    refine ⟨(0.25, y / 2), ⟨by norm_num, ?_, ?_⟩, ?_⟩
    · dsimp only
      linarith
    · dsimp only
      linarith
    · ext <;> simp [corner, point] <;> ring
  have hwall (y : ℝ) (hy : 0 ≤ y) (hy' : y ≤ 1) : wall.Holds ⟨0.5, y, 0⟩ := by
    refine ⟨(y / 6 + 1 / 12, 1 / 6), ⟨?_, by norm_num, ?_⟩, ?_⟩
    · dsimp only
      linarith
    · dsimp only
      linarith
    · ext <;> simp [wall, point] <;> ring
  refine transverse_corner_wall.isSome_intersect? (hcorner 0 le_rfl zero_le_one)
    (hwall 0 le_rfl zero_le_one) (hcorner 1 zero_le_one le_rfl) (hwall 1 zero_le_one le_rfl) ?_
  refine le_trans ?_ (Vec.abs_y_le_norm _)
  norm_num [tolerance]

/-- The corner and the wall share a segment. -/
theorem intersect?_exact_corner :
    (corner.intersect? wall).isSome ∧
      (∀ e, corner.intersect? wall = some e → ∀ x, e.Holds x ↔ corner.Holds x ∧ wall.Holds x) ∧
      wall.intersect? corner = (corner.intersect? wall).map Edge.reversed := by
  obtain ⟨-, hfound, hreversed⟩ := intersect?_exact transverse_corner_wall
  exact ⟨isSome_intersect?_corner, fun e he => (hfound e he).2, hreversed⟩

end Triangle

end WingBox
