import Mathlib.Topology.Order.IntermediateValue
import WingBox.Proofs.Cut.Meeting

/-!
# Distances of points from triangles with exact numbers

`Triangle.infDist` is the distance of a point from a triangle as a set of points.
`Triangle.distance` compares with it as follows (`Triangle.distance_within`).

* `Edge.exists_holds_distance_eq`, `Edge.distance_le_add`: the distance from an edge is right, but
  for edges shorter than the tolerance;
* `Triangle.covers_iff_holds_stretched`: the points of its plane that a triangle covers are those of
  the triangle stretched by its slack, which is the larger the smaller the triangle is;
* `Triangle.exists_edge_lerp`: a way out of the triangle within its plane crosses an edge, so
  elsewhere the edges tell the distance (`Triangle.distance_le_infDist_add`);
* `Triangle.infDist_le_of_holds`: no point of the stretched triangle is farther from the triangle
  than its corners, so the distance that is found is too small by `Triangle.overshoot` at most
  (`Triangle.infDist_le_distance_add`).
-/

namespace WingBox

open Scalar

namespace Vec

/-- The distance is convex along a line. -/
theorem distance_lerp_le (p a b : Vec ℝ) {s : ℝ} (hs : 0 ≤ s) (hs' : s ≤ 1) :
    p.distance (lerp a b s) ≤ (1 - s) * p.distance a + s * p.distance b := by
  have hsum : p - lerp a b s = (1 - s) • (p - a) + s • (p - b) := by
    unfold lerp
    module
  calc p.distance (lerp a b s) ≤ ((1 - s) • (p - a)).norm + (s • (p - b)).norm := by
        rw [distance, hsum]
        exact norm_add_le _ _
    _ = (1 - s) * p.distance a + s * p.distance b := by
        rw [norm_smul, norm_smul, abs_of_nonneg (sub_nonneg.2 hs'), abs_of_nonneg hs]
        rfl

end Vec

/-! ### Edges -/

namespace Edge

variable {e : Edge ℝ} {p y : Vec ℝ}

/-- The distance from an edge is the distance from one of its points. -/
theorem exists_holds_distance_eq (e : Edge ℝ) (p : Vec ℝ) :
    ∃ y, e.Holds y ∧ e.distance p = p.distance y := by
  unfold distance
  dsimp only
  split
  · exact ⟨e.start, e.holds_start, rfl⟩
  · obtain ⟨hnonneg, hle⟩ := clamp_mem ((p - e.start).dot e.span / e.span.normSq)
    exact ⟨_, ⟨_, hnonneg, hle, rfl⟩, rfl⟩

/-- No point of an edge is nearer, but for an edge that is too short to have a direction. -/
theorem distance_le_add (hy : e.Holds y) : e.distance p ≤ p.distance y + tolerance := by
  obtain ⟨s, hs, hs', rfl⟩ := hy
  unfold distance
  dsimp only
  split
  next hshort =>
    have hspan : e.span.norm < tolerance := by
      refine lt_of_pow_lt_pow_left₀ 2 tolerance_pos.le ?_
      rw [Vec.norm_sq, sq]
      exact hshort
    have hstart : (e.pointAt s).distance e.start ≤ tolerance := by
      have hlerp := Vec.distance_lerp e.start e.stop s 0
      have hzero : Vec.lerp e.start e.stop 0 = e.start := Wire.pointAt_zero e
      rw [hzero, sub_zero, abs_of_nonneg hs] at hlerp
      calc (e.pointAt s).distance e.start = s * e.span.norm := hlerp
        _ ≤ 1 * e.span.norm := mul_le_mul_of_nonneg_right hs' e.span.norm_nonneg
        _ ≤ tolerance := by rw [one_mul]; exact hspan.le
    exact (Vec.distance_triangle _ _ _).trans (add_le_add_right hstart _)
  next hlong =>
    have hpos : 0 < e.span.normSq := (mul_pos tolerance_pos tolerance_pos).trans_le (not_lt.1 hlong)
    exact (distance_foot_le hpos p hs hs').trans (le_add_of_nonneg_right tolerance_pos.le)

end Edge

/-! ### Triangles as sets of points -/

namespace Triangle

variable {t u : Triangle ℝ} {p q x : Vec ℝ} {v : ℝ × ℝ} {c : ℝ}

/-- The distance of a point from the points of a triangle. -/
noncomputable def infDist (t : Triangle ℝ) (p : Vec ℝ) : ℝ := sInf (p.distance '' {x | t.Holds x})

theorem holds_a (t : Triangle ℝ) : t.Holds t.a := ⟨_, .a, t.a_eq_point⟩

theorem infDist_le (hx : t.Holds x) : t.infDist p ≤ p.distance x := by
  refine csInf_le ⟨0, ?_⟩ ⟨x, hx, rfl⟩
  rintro _ ⟨y, -, rfl⟩
  exact Vec.norm_nonneg _

theorem le_infDist (h : ∀ x, t.Holds x → c ≤ p.distance x) : c ≤ t.infDist p := by
  refine le_csInf ⟨_, t.a, t.holds_a, rfl⟩ ?_
  rintro _ ⟨x, hx, rfl⟩
  exact h x hx

theorem exists_distance_lt (h : t.infDist p < c) : ∃ x, t.Holds x ∧ p.distance x < c := by
  have hne : (p.distance '' {x | t.Holds x}).Nonempty := ⟨_, t.a, t.holds_a, rfl⟩
  obtain ⟨_, ⟨x, hx, rfl⟩, hlt⟩ := exists_lt_of_csInf_lt hne h
  exact ⟨x, hx, hlt⟩

/-- Points of a triangle are no farther than its vertices. -/
theorem infDist_le_of_holds (hu : ∀ v ∈ u.vertices, t.infDist v ≤ c) (hx : u.Holds x) :
    t.infDist x ≤ c := by
  refine le_of_forall_pos_le_add fun gap hgap => ?_
  have hnear : ∀ v ∈ u.vertices, ∃ y, t.Holds y ∧ v.distance y < c + gap := fun v hv =>
    exists_distance_lt ((hu v hv).trans_lt (lt_add_of_pos_right c hgap))
  simp only [vertices, List.forall_mem_cons] at hnear
  obtain ⟨⟨a, ha, hua⟩, ⟨b, hb, hub⟩, ⟨d, hd, hud⟩, -⟩ := hnear
  obtain ⟨r, hr, rfl⟩ := hx
  have hmean : t.Holds (Triangle.point ⟨a, b, d⟩ r) := by
    refine holds_of_vertices (p := ⟨a, b, d⟩) ?_ ⟨r, hr, rfl⟩
    simp only [vertices, List.forall_mem_cons]
    exact ⟨ha, hb, hd, List.forall_mem_nil _⟩
  obtain ⟨hr₁, hr₂, hr₃⟩ := hr
  have hr₀ : 0 ≤ 1 - r.1 - r.2 := by linarith
  have hdiff : u.point r - Triangle.point ⟨a, b, d⟩ r =
      (1 - r.1 - r.2) • (u.a - a) + r.1 • (u.b - b) + r.2 • (u.c - d) := by
    unfold point
    module
  refine (infDist_le hmean).trans ?_
  calc (u.point r).distance (Triangle.point ⟨a, b, d⟩ r)
      ≤ ((1 - r.1 - r.2) • (u.a - a)).norm + (r.1 • (u.b - b)).norm + (r.2 • (u.c - d)).norm := by
        rw [Vec.distance, hdiff]
        exact (Vec.norm_add_le _ _).trans (add_le_add_left (Vec.norm_add_le _ _) _)
    _ = (1 - r.1 - r.2) * u.a.distance a + r.1 * u.b.distance b + r.2 * u.c.distance d := by
        rw [Vec.norm_smul, Vec.norm_smul, Vec.norm_smul, abs_of_nonneg hr₀, abs_of_nonneg hr₁,
          abs_of_nonneg hr₂]
        rfl
    _ ≤ (1 - r.1 - r.2) * (c + gap) + r.1 * (c + gap) + r.2 * (c + gap) := by gcongr
    _ = c + gap := by ring

/-! ### The points that count as covered -/

/-- How far a coordinate of a covered point may be below zero. -/
noncomputable def slack (t : Triangle ℝ) : ℝ := tolerance / t.cross.norm

/-- The triangle stretched by the slack on all sides. -/
noncomputable def stretched (t : Triangle ℝ) : Triangle ℝ :=
  t.inset ⟨(-t.slack, -t.slack), (1 + t.slack + t.slack, -t.slack),
    (-t.slack, 1 + t.slack + t.slack)⟩

theorem point_stretched (t : Triangle ℝ) (v : ℝ × ℝ) : t.stretched.point v =
    t.point ((1 + 3 * t.slack) * v.1 - t.slack, (1 + 3 * t.slack) * v.2 - t.slack) := by
  unfold stretched inset point
  module

section Area

variable (h : tolerance * tolerance ≤ t.area)

include h

theorem norm_cross_pos : 0 < t.cross.norm := by
  have harea : t.area = 0.5 * t.cross.norm := rfl
  have hpos := mul_pos tolerance_pos tolerance_pos
  rw [harea] at h
  linarith

theorem slack_pos : 0 < t.slack := div_pos tolerance_pos (norm_cross_pos h)

/-- A point is covered if no coordinate is below zero by more than the slack. -/
theorem covers_point_iff :
    t.Covers (t.point v) ↔ -t.slack ≤ v.1 ∧ -t.slack ≤ v.2 ∧ v.1 + v.2 ≤ 1 + t.slack := by
  have hpos := norm_cross_pos h
  have hside (x : ℝ) : -tolerance * t.cross.norm ≤ x * t.cross.normSq ↔ -t.slack ≤ x := by
    rw [← Vec.norm_sq, sq, ← mul_assoc, mul_le_mul_iff_left₀ hpos, slack, ← neg_div,
      div_le_iff₀ hpos]
  obtain ⟨hab, hbc, hca⟩ := t.dot_cross_sides v
  unfold Covers Inside
  rw [hab, hbc, hca, hside, hside, hside]
  constructor
  · rintro ⟨hc, ha, hb⟩
    exact ⟨hb, hc, by linarith⟩
  · rintro ⟨hb, hc, ha⟩
    exact ⟨hc, by linarith, hb⟩

/-- A point of the plane has coordinates. -/
theorem exists_point (hq : t.support.signedDistance q = 0) : ∃ v, q = t.point v := by
  have hpos := Vec.norm_pos_iff.1 (norm_cross_pos h)
  have hplane : (q - t.a).dot t.cross = 0 := by
    rw [signedDistance_support, div_eq_zero_iff] at hq
    exact hq.resolve_right (norm_cross_pos h).ne'
  refine ⟨(((q - t.a).cross (t.c - t.a)).dot t.cross / t.cross.normSq,
    ((t.b - t.a).cross (q - t.a)).dot t.cross / t.cross.normSq), ?_⟩
  have hsum : t.cross.normSq • (q - t.a) =
      ((q - t.a).cross (t.c - t.a)).dot t.cross • (t.b - t.a) +
        ((t.b - t.a).cross (q - t.a)).dot t.cross • (t.c - t.a) +
        (q - t.a).dot t.cross • t.cross := by
    generalize q - t.a = d
    unfold cross
    generalize t.b - t.a = e, t.c - t.a = f
    ext <;> simp only [Vec.normSq, Vec.dot, Vec.cross, Vec.add_x, Vec.add_y, Vec.add_z, Vec.smul_x,
      Vec.smul_y, Vec.smul_z] <;> ring
  rw [hplane, zero_smul, add_zero] at hsum
  calc q = t.a + t.cross.normSq⁻¹ • t.cross.normSq • (q - t.a) := by
        rw [inv_smul_smul₀ hpos.ne', add_sub_cancel]
    _ = t.point _ := by
        rw [hsum]
        simp only [point, div_eq_inv_mul, mul_smul, smul_add, add_assoc]

/-- The covered points of the plane are those of the stretched triangle. -/
theorem covers_iff_holds_stretched (hq : t.support.signedDistance q = 0) :
    t.Covers q ↔ t.stretched.Holds q := by
  obtain ⟨v, rfl⟩ := exists_point h hq
  have hslack := slack_pos h
  have hscale : 0 < 1 + 3 * t.slack := by linarith
  constructor
  · intro hcovers
    obtain ⟨hb, hc, ha⟩ := (covers_point_iff h).1 hcovers
    refine ⟨((v.1 + t.slack) / (1 + 3 * t.slack), (v.2 + t.slack) / (1 + 3 * t.slack)),
      ⟨div_nonneg (by linarith) hscale.le, div_nonneg (by linarith) hscale.le, ?_⟩, ?_⟩
    · rw [← add_div, div_le_one hscale]
      linarith
    · rw [point_stretched, mul_div_cancel₀ _ hscale.ne', mul_div_cancel₀ _ hscale.ne',
        add_sub_cancel_right, add_sub_cancel_right]
  · rintro ⟨w, ⟨hb, hc, ha⟩, heq⟩
    have hb' := mul_nonneg hscale.le hb
    have hc' := mul_nonneg hscale.le hc
    have ha' := mul_le_mul_of_nonneg_left ha hscale.le
    rw [heq, point_stretched, covers_point_iff h]
    refine ⟨by linarith, by linarith, by linarith⟩

/-! ### The distance that is found -/

/-- The point of the plane that is nearest to a point. -/
noncomputable def foot (t : Triangle ℝ) (p : Vec ℝ) : Vec ℝ :=
  p - t.support.signedDistance p • t.support.normal

theorem distance_eq (p : Vec ℝ) : t.distance p =
    if t.Covers (t.foot p) then |t.support.signedDistance p| else t.edgeDistance p := by
  unfold distance
  rw [plane?_eq_support h]
  rfl

theorem signedDistance_foot (p : Vec ℝ) : t.support.signedDistance (t.foot p) = 0 := by
  have hunit : t.support.normal.dot t.support.normal = 1 := Vec.dot_self (norm_support h)
  have hsub : t.support.signedDistance (t.foot p) = t.support.signedDistance p -
      t.support.signedDistance p * t.support.normal.dot t.support.normal := by
    unfold foot Plane.signedDistance
    simp only [Vec.dot, Vec.sub_x, Vec.sub_y, Vec.sub_z, Vec.smul_x, Vec.smul_y, Vec.smul_z]
    ring
  rw [hsub, hunit, mul_one, sub_self]

theorem distance_foot (p : Vec ℝ) : p.distance (t.foot p) = |t.support.signedDistance p| := by
  rw [Vec.distance, foot, sub_sub_cancel, Vec.norm_smul, norm_support h, mul_one]

/-- No point of the triangle is nearer than the plane. -/
theorem abs_signedDistance_le (hx : t.Holds x) : |t.support.signedDistance p| ≤ p.distance x := by
  have hdot := t.support.sub_dot_normal p x
  rw [hx.signedDistance_support, sub_zero] at hdot
  have hle := (p - x).abs_dot_le t.support.normal
  rwa [hdot, norm_support h, mul_one] at hle

end Area

theorem edgeDistance_le {e : Edge ℝ} (he : e ∈ t.edges) : t.edgeDistance p ≤ e.distance p := by
  rw [edgeDistance_eq]
  simp only [edges, List.mem_cons, List.not_mem_nil, or_false] at he
  rcases he with rfl | rfl | rfl
  · exact (min_le_left _ _).trans (min_le_left _ _)
  · exact (min_le_left _ _).trans (min_le_right _ _)
  · exact min_le_right _ _

/-- The points of the edges are points of the triangle. -/
theorem holds_of_mem_edges {e : Edge ℝ} (he : e ∈ t.edges) (hx : e.Holds x) : t.Holds x := by
  obtain ⟨s, hs, hs', rfl⟩ := hx
  simp only [edges, List.mem_cons, List.not_mem_nil, or_false] at he
  rcases he with rfl | rfl | rfl
  · exact ⟨(s, 0), ⟨hs, le_rfl, by simpa using hs'⟩, t.lerp_a_b s⟩
  · exact ⟨(1 - s, s), ⟨sub_nonneg.2 hs', hs, by simp⟩, t.lerp_b_c s⟩
  · exact ⟨(0, 1 - s), ⟨le_rfl, sub_nonneg.2 hs', by simpa using hs⟩, t.lerp_c_a s⟩

theorem infDist_le_edgeDistance (t : Triangle ℝ) (p : Vec ℝ) : t.infDist p ≤ t.edgeDistance p := by
  have hle {e : Edge ℝ} (he : e ∈ t.edges) : t.infDist p ≤ e.distance p := by
    obtain ⟨y, hy, heq⟩ := e.exists_holds_distance_eq p
    rw [heq]
    exact infDist_le (holds_of_mem_edges he hy)
  rw [edgeDistance_eq]
  refine le_min (le_min (hle ?_) (hle ?_)) (hle ?_) <;> simp [edges]

/-- The least of the three coordinates of a point. -/
def margin (v : ℝ × ℝ) : ℝ := min (min v.1 v.2) (1 - v.1 - v.2)

theorem inSimplex_iff_margin : InSimplex v ↔ 0 ≤ margin v := by
  rw [margin, le_min_iff, le_min_iff, InSimplex, and_assoc]
  refine and_congr_right fun _ => and_congr_right fun _ => ?_
  rw [sub_sub, sub_nonneg]

/-- A point without margin lies on an edge. -/
theorem exists_edge_of_margin (h : margin v = 0) : ∃ e ∈ t.edges, e.Holds (t.point v) := by
  obtain ⟨hb, hc, ha⟩ := inSimplex_iff_margin.2 h.ge
  obtain ⟨b, c⟩ := v
  have hzero : b = 0 ∨ c = 0 ∨ b = 1 - c := by
    unfold margin at h
    dsimp only at h hb hc ha
    grind
  rcases hzero with rfl | rfl | rfl
  · refine ⟨⟨t.c, t.a⟩, by simp [edges], 1 - c, ?_, ?_, ?_⟩
    · dsimp only at ha
      linarith
    · exact sub_le_self 1 hc
    · rw [Edge.pointAt, lerp_c_a, sub_sub_cancel]
  · refine ⟨⟨t.a, t.b⟩, by simp [edges], b, hb, ?_, (t.lerp_a_b b).symm⟩
    dsimp only at ha
    linarith
  · refine ⟨⟨t.b, t.c⟩, by simp [edges], c, hc, ?_, (t.lerp_b_c c).symm⟩
    dsimp only at hb
    linarith

/-- On the way from a point of the triangle to a point of its plane that is none there is a point of
an edge. -/
theorem exists_edge_lerp (hx : t.Holds x) (hv : ¬ InSimplex v) :
    ∃ s, 0 ≤ s ∧ s ≤ 1 ∧ ∃ e ∈ t.edges, e.Holds (Vec.lerp x (t.point v) s) := by
  obtain ⟨w, hw, rfl⟩ := hx
  set way : ℝ → ℝ × ℝ := fun s => (w.1 + s * (v.1 - w.1), w.2 + s * (v.2 - w.2)) with hway
  have hcontinuous : Continuous fun s => margin (way s) := by
    unfold margin
    fun_prop
  have hstart : 0 ≤ margin (way 0) := by
    rw [← inSimplex_iff_margin]
    simpa [hway] using hw
  have hstop : margin (way 1) ≤ 0 := by
    rw [inSimplex_iff_margin, not_le] at hv
    simpa [hway] using hv.le
  obtain ⟨s, ⟨hs, hs'⟩, hzero⟩ :=
    intermediate_value_Icc' zero_le_one hcontinuous.continuousOn ⟨hstop, hstart⟩
  have hpoint : Vec.lerp (t.point w) (t.point v) s = t.point (way s) := by
    unfold Vec.lerp point
    module
  refine ⟨s, hs, hs', ?_⟩
  rw [hpoint]
  exact exists_edge_of_margin hzero

section Area

variable (h : tolerance * tolerance ≤ t.area)

include h

/-- What is found exceeds the distance by no more than the tolerance. -/
theorem distance_le_infDist_add (p : Vec ℝ) : t.distance p ≤ t.infDist p + tolerance := by
  rw [← sub_le_iff_le_add]
  refine le_infDist fun x hx => sub_le_iff_le_add.2 ?_
  have hplane : |t.support.signedDistance p| ≤ p.distance x := abs_signedDistance_le h hx
  rw [distance_eq h]
  split
  next => exact hplane.trans (le_add_of_nonneg_right tolerance_pos.le)
  next huncovered =>
    obtain ⟨v, hv⟩ := exists_point h (signedDistance_foot h p)
    have hout : ¬ InSimplex v := fun hin => huncovered (hv ▸ covers_point hin)
    obtain ⟨s, hs, hs', e, he, hy⟩ := exists_edge_lerp hx hout
    rw [← hv] at hy
    -- on the way to the foot the distance does not grow
    have hway : p.distance (Vec.lerp x (t.foot p) s) ≤ p.distance x := by
      have hfoot : p.distance (t.foot p) ≤ p.distance x := (distance_foot h p).trans_le hplane
      calc p.distance (Vec.lerp x (t.foot p) s)
          ≤ (1 - s) * p.distance x + s * p.distance (t.foot p) := p.distance_lerp_le _ _ hs hs'
        _ ≤ (1 - s) * p.distance x + s * p.distance x := by gcongr
        _ = p.distance x := by ring
    calc t.edgeDistance p ≤ e.distance p := edgeDistance_le he
      _ ≤ p.distance (Vec.lerp x (t.foot p) s) + tolerance := Edge.distance_le_add hy
      _ ≤ p.distance x + tolerance := add_le_add_left hway _

/-- The points of the stretched triangle count as points of the triangle. -/
theorem distance_of_holds_stretched (hx : t.stretched.Holds x) : t.distance x = 0 := by
  have hzero : t.support.signedDistance x = 0 := by
    obtain ⟨w, -, rfl⟩ := hx
    rw [point_stretched]
    exact t.signedDistance_point _
  have hfoot : t.foot x = x := by rw [foot, hzero, zero_smul, sub_zero]
  rw [distance_eq h, hfoot, if_pos ((covers_iff_holds_stretched h hzero).2 hx), hzero, abs_zero]

end Area

/-- How far a corner of the stretched triangle is from the triangle. -/
noncomputable def overshoot (t : Triangle ℝ) : ℝ :=
  max (max (t.infDist t.stretched.a) (t.infDist t.stretched.b)) (t.infDist t.stretched.c)

theorem overshoot_le_iff : t.overshoot ≤ c ↔ ∀ v ∈ t.stretched.vertices, t.infDist v ≤ c := by
  rw [overshoot, max_le_iff, max_le_iff, and_assoc]
  simp [vertices]

section Area

variable (h : tolerance * tolerance ≤ t.area)

include h

/-- The distance exceeds what is found by no more than the overshoot. -/
theorem infDist_le_distance_add (p : Vec ℝ) : t.infDist p ≤ t.distance p + t.overshoot := by
  have hovershoot : 0 ≤ t.overshoot := by
    refine le_max_of_le_right (le_infDist fun x _ => ?_)
    exact Vec.norm_nonneg _
  rw [distance_eq h]
  split
  next hcovers =>
    have hholds := (covers_iff_holds_stretched h (signedDistance_foot h p)).1 hcovers
    have hfoot := infDist_le_of_holds (overshoot_le_iff.1 le_rfl) hholds
    rw [← distance_foot h p, ← sub_le_iff_le_add']
    refine le_trans (sub_le_iff_le_add'.2 ?_) hfoot
    rw [← sub_le_iff_le_add']
    refine le_infDist fun x hx => sub_le_iff_le_add'.2 ?_
    exact (infDist_le hx).trans (Vec.distance_triangle p (t.foot p) x)
  next => exact (t.infDist_le_edgeDistance p).trans (le_add_of_nonneg_right hovershoot)

/-- What is found is right up to the tolerance if and only if the corners of the stretched triangle
are within the tolerance. -/
theorem forall_abs_distance_sub_le_iff :
    (∀ p, |t.distance p - t.infDist p| ≤ tolerance) ↔ t.overshoot ≤ tolerance := by
  constructor
  · intro hall
    refine overshoot_le_iff.2 fun v hv => ?_
    have hcorner : t.stretched.Holds v := (PartOf.refl _).vertices v hv
    have hle := hall v
    rw [distance_of_holds_stretched h hcorner, zero_sub, abs_neg] at hle
    exact (le_abs_self _).trans hle
  · intro hle p
    have habove := distance_le_infDist_add h p
    have hbelow := infDist_le_distance_add h p
    exact abs_sub_le_iff.2 ⟨by linarith, by linarith⟩

end Area

theorem le_area_of_pierce? {e : Edge ℝ} {s : ℝ} (h : e.pierce? t = some s) :
    tolerance * tolerance ≤ t.area := by
  obtain ⟨plane, hplane, -⟩ := Option.bind_eq_some_iff.1 h
  exact (plane?_eq_some_iff.1 hplane).1

/-- The length of the longest median. -/
noncomputable def longestMedian (t : Triangle ℝ) : ℝ :=
  max (max (t.a.distance (Vec.center t.b t.c)) (t.b.distance (Vec.center t.c t.a)))
    (t.c.distance (Vec.center t.a t.b))

/-- The corners lie beyond the vertices, in the direction of the medians. -/
theorem overshoot_le_longestMedian (h : tolerance * tolerance ≤ t.area) :
    t.overshoot ≤ tolerance / t.area * t.longestMedian := by
  have hpos := norm_cross_pos h
  have hslack : 2 * t.slack = tolerance / t.area := by
    have harea : t.cross.norm = 2 * t.area := by
      rw [area]
      ring
    rw [slack, harea]
    field_simp
  have hnonneg : 0 ≤ tolerance / t.area := by
    rw [← hslack]
    exact mul_nonneg zero_le_two (slack_pos h).le
  have hcorner {v v' m : Vec ℝ} (hv : t.Holds v) (hm : v.distance m ≤ t.longestMedian)
      (hdiff : v' - v = (2 * t.slack) • (v - m)) :
      t.infDist v' ≤ tolerance / t.area * t.longestMedian := by
    calc t.infDist v' ≤ v'.distance v := infDist_le hv
      _ = tolerance / t.area * v.distance m := by
          rw [Vec.distance, hdiff, Vec.norm_smul, hslack, abs_of_nonneg hnonneg]
          rfl
      _ ≤ tolerance / t.area * t.longestMedian := mul_le_mul_of_nonneg_left hm hnonneg
  refine max_le (max_le ?_ ?_) ?_
  · refine hcorner t.holds_a (le_max_of_le_left (le_max_left _ _)) ?_
    unfold stretched inset point Vec.center
    module
  · refine hcorner ⟨_, .b, t.b_eq_point⟩ (le_max_of_le_left (le_max_right _ _)) ?_
    unfold stretched inset point Vec.center
    module
  · refine hcorner ⟨_, .c, t.c_eq_point⟩ (le_max_right _ _) ?_
    unfold stretched inset point Vec.center
    module

/-- **Distances from small triangles are found too short.**  The distance that is found is too large
by the tolerance at most, and too small by the overshoot of the triangle at most, which is at most
the tolerance times the longest median divided by the area.  It is right up to the tolerance
everywhere if and only if the overshoot is no more than that.  A point where a wire is found to meet
a face is within the tolerance and the overshoot of a facet of it. -/
theorem distance_within (h : tolerance * tolerance ≤ t.area) :
    (∀ p, t.distance p ≤ t.infDist p + tolerance ∧ t.infDist p ≤ t.distance p + t.overshoot) ∧
      ((∀ p, |t.distance p - t.infDist p| ≤ tolerance) ↔ t.overshoot ≤ tolerance) ∧
      t.overshoot ≤ tolerance / t.area * t.longestMedian ∧
      ∀ (f : Face ℝ) (w : Wire ℝ) (q : Vec ℝ), f.firstHit? w = some q →
        ∃ u ∈ f.facets, u.infDist q ≤ tolerance + u.overshoot := by
  refine ⟨fun p => ⟨distance_le_infDist_add h p, infDist_le_distance_add h p⟩,
    forall_abs_distance_sub_le_iff h, overshoot_le_longestMedian h, fun f w q hq => ?_⟩
  obtain ⟨e, -, u, hu, s, hpierce, rfl⟩ := Face.exists_pierce?_of_firstHit? hq
  have hdistance := (Edge.of_pierce? hpierce).2.2
  have hbelow := infDist_le_distance_add (le_area_of_pierce? hpierce) (e.pointAt s)
  exact ⟨u, hu, hbelow.trans (add_le_add_left hdistance _)⟩

/-! The corners of a small triangle lie far outside. -/

/-- A triangle with sides of a thousandth. -/
noncomputable def chip : Triangle ℝ := ⟨⟨0, 0, 0⟩, ⟨0.001, 0, 0⟩, ⟨0, 0.001, 0⟩⟩

theorem norm_cross_chip : chip.cross.norm = 1 / 1000000 := by
  refine Vec.norm_eq (by norm_num) ?_
  norm_num [cross, chip, Vec.cross, Vec.normSq, Vec.dot]

theorem tolerance_lt_overshoot_chip : tolerance < chip.overshoot := by
  have hfar : 1 / 10000 ≤ chip.infDist chip.stretched.a := by
    have hslack : chip.slack = 1 / 10 := by
      rw [slack, norm_cross_chip, tolerance]
      norm_num
    refine le_infDist fun x hx => ?_
    obtain ⟨v, ⟨hv, -, -⟩, rfl⟩ := hx
    refine le_trans ?_ (Vec.abs_x_le_norm _)
    have hcorner : chip.stretched.a = chip.point (-(1 / 10), -(1 / 10)) := by
      rw [← hslack]
      rfl
    have hdiff : (chip.stretched.a - chip.point v).x = -(1 / 10000 + v.1 / 1000) := by
      rw [hcorner]
      simp only [point, chip, Vec.sub_x, Vec.add_x, Vec.smul_x]
      ring
    rw [hdiff, abs_neg, abs_of_nonneg (by positivity)]
    linarith [div_nonneg hv (by norm_num : (0 : ℝ) ≤ 1000)]
  have hcorner : chip.infDist chip.stretched.a ≤ chip.overshoot :=
    le_max_of_le_left (le_max_left _ _)
  refine lt_of_lt_of_le ?_ (hfar.trans hcorner)
  unfold tolerance
  norm_num

theorem distance_within_chip : tolerance * tolerance ≤ chip.area ∧
    ∃ p, tolerance < |chip.distance p - chip.infDist p| := by
  have harea : tolerance * tolerance ≤ chip.area := by
    rw [area, norm_cross_chip, tolerance]
    norm_num
  have hiff := (distance_within harea).2.1
  refine ⟨harea, ?_⟩
  by_contra hnone
  push Not at hnone
  exact (hiff.1 hnone).not_gt tolerance_lt_overshoot_chip

end Triangle

end WingBox
