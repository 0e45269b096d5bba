import WingBox.Proofs.Cut.Meeting
import WingBox.Proofs.Cut.Pruning

/-!
# The box test before two facets are intersected

`Shape.crossings` does not look at facets whose boxes are apart, one of them enlarged by the
tolerance.  With exact numbers no segment is lost by that as long as no vertex is moved far when
its distance from the plane of the other facet is snapped (`Shape.intersection_eq_distinct`): where
a segment is found, the facets have points that are no farther apart than these shifts tell,
divided by the sine of the angle between the planes (`Triangle.exists_near_of_meet?`).

Shifts alone are less than the tolerance, which is not enough at small angles: a segment may be
found of facets that are far apart, if each nearly reaches the plane of the other, and it is lost
(`Triangle.intersection_ramp`).
-/

namespace WingBox

open Scalar

/-- Boxes with points near each other overlap if one of them is enlarged. -/
theorem Box.overlaps_of_near {a b : Box ℝ} {x y : Vec ℝ} {gap : ℝ} (hx : a.Contains x)
    (hy : b.Contains y) (h : x.distance y ≤ gap) : (b.enlarged gap).Overlaps a := by
  have hgapx := abs_sub_le_iff.1 ((Vec.abs_x_le_norm (x - y)).trans h)
  have hgapy := abs_sub_le_iff.1 ((Vec.abs_y_le_norm (x - y)).trans h)
  have hgapz := abs_sub_le_iff.1 ((Vec.abs_z_le_norm (x - y)).trans h)
  obtain ⟨hxx, hxy, hxz⟩ := hx
  obtain ⟨hyx, hyy, hyz⟩ := hy
  unfold Overlaps Box.enlarged
  simp only [Vec.sub_x, Vec.sub_y, Vec.sub_z, Vec.add_x, Vec.add_y, Vec.add_z]
  refine ⟨⟨?_, ?_⟩, ⟨?_, ?_⟩, ?_, ?_⟩ <;> linarith

namespace Plane

variable {plane : Plane ℝ}

/-- Distances from a plane are no larger between two points than at one of them. -/
theorem abs_signedDistance_le {e : Edge ℝ} {x : Vec ℝ} (hx : e.Holds x) :
    |plane.signedDistance x| ≤ |plane.signedDistance e.start| ∨
      |plane.signedDistance x| ≤ |plane.signedDistance e.stop| := by
  obtain ⟨s, hs, hs', rfl⟩ := hx
  rw [← le_max_iff, signedDistance_pointAt]
  calc |(1 - s) * plane.signedDistance e.start + s * plane.signedDistance e.stop|
      ≤ (1 - s) * |plane.signedDistance e.start| + s * |plane.signedDistance e.stop| := by
        refine (abs_add_le _ _).trans_eq ?_
        rw [abs_mul, abs_mul, abs_of_nonneg hs, abs_of_nonneg (sub_nonneg.2 hs')]
    _ ≤ (1 - s) * max |plane.signedDistance e.start| |plane.signedDistance e.stop| +
          s * max |plane.signedDistance e.start| |plane.signedDistance e.stop| := by
        have hrest := sub_nonneg.2 hs'
        gcongr
        · exact le_max_left _ _
        · exact le_max_right _ _
    _ = max |plane.signedDistance e.start| |plane.signedDistance e.stop| := by ring

end Plane

namespace Triangle

variable {t u : Triangle ℝ} {p q : Plane ℝ} {a a' x : Vec ℝ} {e : Edge ℝ}

theorem Holds.of_edge (ha : t.Holds a) (ha' : t.Holds a') (hx : Edge.Holds ⟨a, a'⟩ x) :
    t.Holds x := by
  obtain ⟨u, ⟨hu₁, hu₂, hu₃⟩, rfl⟩ := ha
  obtain ⟨v, ⟨hv₁, hv₂, hv₃⟩, rfl⟩ := ha'
  obtain ⟨s, hs, hs', rfl⟩ := hx
  have hr := sub_nonneg.2 hs'
  refine ⟨((1 - s) * u.1 + s * v.1, (1 - s) * u.2 + s * v.2), ⟨?_, ?_, ?_⟩, ?_⟩
  · exact add_nonneg (mul_nonneg hr hu₁) (mul_nonneg hs hv₁)
  · exact add_nonneg (mul_nonneg hr hu₂) (mul_nonneg hs hv₂)
  · nlinarith
  · unfold Edge.pointAt Vec.lerp point
    module

/-- What is found of a triangle in a plane lies in the triangle, and no farther from the plane than
some vertex was moved. -/
theorem holds_of_crossing? (h : t.crossing? q = some (a, a')) (hx : Edge.Holds ⟨a, a'⟩ x) :
    t.Holds x ∧ ∃ v ∈ t.vertices, |q.signedDistance x| ≤ q.shift v := by
  rcases t.crossing?_cases q with ⟨b, b', hsome, hslice⟩ | ⟨hnone, -⟩
  case inr => exact absurd (hnone.symm.trans h) (by simp)
  obtain ⟨rfl, rfl⟩ := Prod.mk.inj (Option.some.inj (hsome.symm.trans h))
  refine ⟨hslice.holds.1.of_edge hslice.holds.2 hx, ?_⟩
  obtain ⟨⟨v, hv, hle⟩, w, hw, hle'⟩ := hslice.exists_shift
  have hends : |q.signedDistance x| ≤ |q.signedDistance b| ∨
      |q.signedDistance x| ≤ |q.signedDistance b'| := Plane.abs_signedDistance_le hx
  rcases hends with hstart | hstop
  · exact ⟨v, hv, hstart.trans hle⟩
  · exact ⟨w, hw, hstop.trans hle'⟩

/-- Where a segment is found, the triangles are near each other, measured by the shifts of two
vertices. -/
theorem exists_near_of_meet? (h : t.meet? p u q = some e)
    (hp : ∀ x, t.Holds x → p.signedDistance x = 0) (hq : ∀ x, u.Holds x → q.signedDistance x = 0)
    (hpunit : p.normal.norm = 1) (hqunit : q.normal.norm = 1) :
    ∃ x y, t.Holds x ∧ u.Holds y ∧ ∃ v ∈ t.vertices, ∃ w ∈ u.vertices,
      x.distance y * (p.normal.cross q.normal).norm ≤ q.shift v + p.shift w := by
  obtain ⟨a, a', b, b', hcross, ht, hu, hlong⟩ := exists_slices_of_meet? h
  have hle := sub_nonneg.1 (tolerance_pos.le.trans hlong)
  -- where the shared part begins there is a point of either slice
  obtain ⟨x, hx, hxat⟩ := Plane.exists_holds_along (e := ⟨a, a'⟩) (le_max_left _ _)
    (hle.trans (min_le_left _ _))
  obtain ⟨y, hy, hyat⟩ := Plane.exists_holds_along (e := ⟨b, b'⟩) (le_max_right _ _)
    (hle.trans (min_le_right _ _))
  obtain ⟨hxt, v, hv, hxv⟩ := holds_of_crossing? ht hx
  obtain ⟨hyu, w, hw, hyw⟩ := holds_of_crossing? hu hy
  refine ⟨x, y, hxt, hyu, v, hv, w, hw, ?_⟩
  have hcross₀ : (p.normal.cross q.normal).norm ≠ 0 := (crossingBound_pos.trans hcross).ne'
  have hdirection : (x - y).dot (p.normal.cross q.normal) = 0 := by
    refine Plane.dot_cross_eq_zero hcross₀ ?_
    rw [Vec.sub_dot]
    exact sub_eq_zero.2 (hxat.trans hyat.symm)
  have hle := Vec.norm_mul_norm_cross_le hdirection
  rw [Plane.sub_dot_normal, Plane.sub_dot_normal, hp x hxt, hq y hyu, hpunit, hqunit, mul_one,
    mul_one, zero_sub, sub_zero, abs_neg, add_comm] at hle
  exact hle.trans (add_le_add hxv hyw)

/-- Vertices of one triangle are moved to the plane of the other by no more than the angle between
the planes allows. -/
def Steady (t u : Triangle ℝ) : Prop :=
  ∀ p q, t.plane? = some p → u.plane? = some q → ∀ v ∈ t.vertices, ∀ w ∈ u.vertices,
    q.shift v + p.shift w ≤ tolerance * (p.normal.cross q.normal).norm

/-- No vertex is moved at all if each is in the plane of the other triangle or away from it. -/
theorem Transverse.steady (h : t.Transverse u) : t.Steady u := by
  intro p q hp hq v hv w hw
  obtain rfl := (plane?_eq_some_iff.1 hp).2
  obtain rfl := (plane?_eq_some_iff.1 hq).2
  rw [(h.clear_left v hv).shift, (h.clear_right w hw).shift, add_zero]
  exact mul_nonneg tolerance_pos.le (Vec.norm_nonneg _)

/-- The box test keeps triangles of which a segment is found. -/
theorem Steady.overlaps (h : t.Steady u) (hp : t.plane? = some p) (hq : u.plane? = some q)
    (hmeet : t.meet? p u q = some e) : (u.box.enlarged tolerance).Overlaps t.box := by
  have hsteady := h p q hp hq
  obtain ⟨ht, rfl⟩ := plane?_eq_some_iff.1 hp
  obtain ⟨hu, rfl⟩ := plane?_eq_some_iff.1 hq
  obtain ⟨x, y, hx, hy, v, hv, w, hw, hle⟩ := exists_near_of_meet? hmeet
    (fun _ hx => hx.signedDistance_support) (fun _ hx => hx.signedDistance_support)
    (norm_support ht) (norm_support hu)
  obtain ⟨-, -, -, -, hcross, -⟩ := exists_slices_of_meet? hmeet
  refine Box.overlaps_of_near (hx.contains (.refl _)) (hy.contains (.refl _)) ?_
  exact le_of_mul_le_mul_right (hle.trans (hsteady v hv w hw)) (crossingBound_pos.trans hcross)

/-- So the blades find the segments that the facets have. -/
theorem segments_eq {us : List (Triangle ℝ)} (h : ∀ u ∈ us, t.Steady u) :
    Shape.segments (us.filterMap Blade.of?) t = us.filterMap t.intersect? := by
  unfold Shape.segments
  cases hp : t.plane? with
  | none => simp [intersect?, hp]
  | some p =>
    dsimp only
    rw [List.filterMap_filterMap]
    refine List.filterMap_congr fun u hu => ?_
    cases hq : u.plane? with
    | none => simp [Blade.of?, intersect?, hp, hq]
    | some q =>
      simp only [Blade.of?, intersect?, hp, hq, Option.map_some, Option.bind_eq_bind,
        Option.bind_some, Blade.meet?]
      cases hmeet : t.meet? p u q with
      | none => exact ite_self _
      | some e => exact if_pos ((h u hu).overlaps hp hq hmeet)

/-- Blades are tried one after the other. -/
theorem segments_append (bs cs : List (Blade ℝ)) :
    Shape.segments (bs ++ cs) t = Shape.segments bs t ++ Shape.segments cs t := by
  unfold Shape.segments
  cases t.plane? with
  | none => rfl
  | some plane => exact List.filterMap_append

/-- The blades of facets whose boxes are apart find nothing. -/
theorem segments_eq_nil {us : List (Triangle ℝ)}
    (h : ∀ u ∈ us, ¬ (u.box.enlarged tolerance).Overlaps t.box) :
    Shape.segments (us.filterMap Blade.of?) t = [] := by
  unfold Shape.segments
  cases t.plane? with
  | none => rfl
  | some plane =>
    refine List.filterMap_eq_nil_iff.2 fun b hb => ?_
    obtain ⟨u, hu, hblade⟩ := List.mem_filterMap.1 hb
    obtain ⟨plane', -, rfl⟩ := Option.map_eq_some_iff.1 hblade
    exact if_neg (h u hu)

end Triangle

namespace Shape

/-- **The box test only saves work.**  If no vertex of a facet is moved far to the plane of a facet
of the other shape, the edges in which two shapes meet are all segments of pairs of facets, in the
order of the facets and without repeats. -/
theorem intersection_eq_distinct {s t : Shape ℝ}
    (h : ∀ a ∈ s.triangles, ∀ b ∈ t.triangles, a.Steady b) :
    s.intersection t =
      Edge.distinct (s.triangles.flatMap fun a => t.triangles.filterMap a.intersect?) := by
  rw [intersection, crossings, blades]
  exact congrArg Edge.distinct (List.flatMap_congr fun a ha => Triangle.segments_eq (h a ha))

/-- The wall meets the corner in the segment of these two facets. -/
theorem intersection_eq_distinct_corner :
    (Triangle.corner.intersect? Triangle.wall).isSome ∧
      (Shape.ofFace ⟨[Triangle.corner]⟩).intersection (Shape.ofFace ⟨[Triangle.wall]⟩) =
        Edge.distinct (Triangle.corner.intersect? Triangle.wall).toList := by
  refine ⟨Triangle.isSome_intersect?_corner, ?_⟩
  rw [intersection_eq_distinct]
  · obtain ⟨e, he⟩ := Option.isSome_iff_exists.1 Triangle.isSome_intersect?_corner
    simp [ofFace, triangles, he]
  · simpa [ofFace, triangles] using Triangle.transverse_corner_wall.steady

end Shape

/-! ### Facets that are far apart -/

namespace Triangle

/-- A level triangle. -/
noncomputable def shelf : Triangle ℝ := ⟨⟨0, 5.0, 0⟩, ⟨1, 5.0, 0⟩, ⟨0, 100.0, 0⟩⟩

/-- A triangle that is almost level and starts where the other one ends, ten units away. -/
noncomputable def ramp : Triangle ℝ := ⟨⟨0, -5.0, -5e-8⟩, ⟨1, -5.0, -5e-8⟩, ⟨0, -100.0, -1e-6⟩⟩

theorem crossing?_of_base {t : Triangle ℝ} {plane : Plane ℝ} (ha : plane.snappedDistance t.a = 0)
    (hb : plane.snappedDistance t.b = 0) (hc : plane.snappedDistance t.c ≠ 0) :
    t.crossing? plane = some (t.a, t.b) := by
  simp [crossing?, sides, Side.contacts, Side.startIf, Side.crossing, ha, hb, hc]

theorem cross_shelf : shelf.cross = ⟨0, 0, 95⟩ := by
  ext <;> norm_num [shelf, cross, Vec.cross]

theorem cross_ramp : ramp.cross = ⟨0, 9.5e-7, -95⟩ := by
  ext <;> norm_num [ramp, cross, Vec.cross]

theorem norm_cross_shelf : shelf.cross.norm = 95 := by
  rw [cross_shelf]
  exact Vec.norm_eq (by norm_num) (by norm_num [Vec.normSq, Vec.dot])

theorem norm_cross_ramp : 95 ≤ ramp.cross.norm ∧ ramp.cross.norm ≤ 96 := by
  rw [cross_ramp]
  change 95 ≤ Real.sqrt _ ∧ Real.sqrt _ ≤ 96
  refine ⟨Real.le_sqrt_of_sq_le ?_, Real.sqrt_le_iff.2 ⟨by norm_num, ?_⟩⟩
  · norm_num [Vec.normSq, Vec.dot]
  · norm_num [Vec.normSq, Vec.dot]

theorem area_shelf_ramp :
    tolerance * tolerance ≤ shelf.area ∧ tolerance * tolerance ≤ ramp.area := by
  have hramp := norm_cross_ramp.1
  rw [area, area, norm_cross_shelf]
  constructor
  · norm_num [tolerance]
  · norm_num [tolerance]
    linarith

theorem crossing?_shelf : shelf.crossing? ramp.support = some (shelf.a, shelf.b) := by
  obtain ⟨hlo, hhi⟩ := norm_cross_ramp
  have hpos : 0 < ramp.cross.norm := by linarith
  have hdistance (x y : ℝ) : ramp.support.signedDistance ⟨x, y, 0⟩ =
      9.5e-7 * y / ramp.cross.norm := by
    rw [signedDistance_support, cross_ramp]
    norm_num [ramp, Vec.dot]
    ring
  have hnear (x : ℝ) : ramp.support.snappedDistance ⟨x, 5.0, 0⟩ = 0 := by
    refine if_pos ?_
    change |ramp.support.signedDistance _| < _
    rw [hdistance, abs_of_nonneg (by positivity), div_lt_iff₀ hpos]
    norm_num [tolerance]
    linarith
  refine crossing?_of_base (hnear 0) (hnear 1) ?_
  have hfar : tolerance < 9.5e-7 * 100.0 / ramp.cross.norm := by
    rw [lt_div_iff₀ hpos]
    norm_num [tolerance]
    linarith
  have hclear : ramp.support.Clear shelf.c :=
    .inr ((hdistance 0 100.0).symm ▸ hfar.le.trans (le_abs_self _))
  rw [hclear.snappedDistance]
  exact (hdistance 0 100.0).symm ▸ (tolerance_pos.trans hfar).ne'

theorem crossing?_ramp : ramp.crossing? shelf.support = some (ramp.a, ramp.b) := by
  have hdistance (v : Vec ℝ) : shelf.support.signedDistance v = v.z := by
    rw [signedDistance_support, norm_cross_shelf, cross_shelf]
    norm_num [shelf, Vec.dot]
  have hsnapped (v : Vec ℝ) :
      shelf.support.snappedDistance v = if |v.z| < tolerance then 0 else v.z := by
    rw [Plane.snappedDistance, hdistance]
    rfl
  refine crossing?_of_base ?_ ?_ ?_ <;> norm_num [hsnapped, ramp, tolerance, abs_lt]

/-- A segment is found, since either triangle nearly reaches the plane of the other. -/
theorem isSome_intersect?_ramp : (shelf.intersect? ramp).isSome := by
  obtain ⟨hlo, hhi⟩ := norm_cross_ramp
  have hpos : 0 < ramp.cross.norm := by linarith
  have hcross : shelf.support.normal.cross ramp.support.normal =
      ⟨-(9.5e-7 / ramp.cross.norm), 0, 0⟩ := by
    rw [support, support, Vec.normalize, Vec.normalize, norm_cross_shelf, cross_shelf]
    ext <;> norm_num [cross_ramp, Vec.cross]
  have hnorm : (shelf.support.normal.cross ramp.support.normal).norm =
      9.5e-7 / ramp.cross.norm := by
    rw [hcross]
    exact Vec.norm_eq (by positivity) (by simp [Vec.normSq, Vec.dot])
  have hbound : crossingBound < (shelf.support.normal.cross ramp.support.normal).norm := by
    rw [hnorm, lt_div_iff₀ hpos]
    norm_num [crossingBound]
    linarith
  have halong (v : Vec ℝ) : shelf.support.along ramp.support v = -v.x := by
    have hdirection : shelf.support.direction ramp.support = ⟨-1, 0, 0⟩ := by
      rw [Plane.direction, Vec.normalize, hnorm, hcross]
      ext
      · rw [Vec.div_x, neg_div, div_self (by positivity)]
      · exact zero_div _
      · exact zero_div _
    rw [Plane.along, hdirection]
    simp [Vec.dot]
  rw [intersect?, plane?_eq_support area_shelf_ramp.1, plane?_eq_support area_shelf_ramp.2]
  simp only [Option.bind_eq_bind, Option.bind_some]
  rw [meet?_eq hbound crossing?_shelf crossing?_ramp]
  simp only [Plane.sharedStart, Plane.sharedStop, halong]
  norm_num [shelf, ramp, tolerance]

/-- Their boxes are apart all the same, and the segment is lost. -/
theorem intersection_ramp :
    (shelf.intersect? ramp).isSome ∧
      (Shape.ofFace ⟨[shelf]⟩).intersection (Shape.ofFace ⟨[ramp]⟩) = [] := by
  have hapart : ¬ (ramp.box.enlarged tolerance).Overlaps shelf.box := by
    norm_num [Box.Overlaps, Box.enlarged, box, Box.point, Box.including, ramp, shelf, tolerance]
  have hsegments : Shape.segments (Shape.ofFace ⟨[ramp]⟩).blades shelf = [] := by
    simp [Shape.segments, Shape.blades, Shape.ofFace, Shape.triangles, Blade.of?, Blade.meet?,
      plane?_eq_support area_shelf_ramp.1, plane?_eq_support area_shelf_ramp.2, hapart]
  refine ⟨isSome_intersect?_ramp, ?_⟩
  change Edge.distinct (Shape.segments _ shelf ++ []) = []
  rw [hsegments]
  rfl

end Triangle

end WingBox
