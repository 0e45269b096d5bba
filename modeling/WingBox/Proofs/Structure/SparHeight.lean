import WingBox.Proofs.Exact.Normal
import WingBox.Proofs.Structure.RibFace

/-!
# The height of a spar

The height of a spar at a point is that of the part of it on a square across the span.  The sides of
the square lead across its normal, and the first of them is found by the product of the normal with
an axis.  There is no such product along the axis, and a short vector along the chords is given the
axis that it runs along.  A normal is long enough to be given another one.

* `Vec.cross_seed_eq_zero_iff`, `Vec.parallel_seed_iff`: when there is nothing left of the product;
* `Vec.orthonormal_perpendicular`: two directions across a vector of length one;
* `Face.isSquare_of_facets`: the points of a square between two such directions, and its area;
* `Query.parallel_sparHeight_measured`: the height is measured on a face across the normal;
* `Vec.perpendicular_across`: which vectors have one across them, and that the face is a square.
-/

namespace WingBox

open Scalar

/-! ### Vectors across a vector -/

namespace Vec

/-- The axis from which a vector across `v` is found. -/
def seed {K : Type} [Scalar K] (v : Vec K) : Vec K := if abs v.x < 0.9 then xAxis else yAxis

theorem perpendicular_eq {K : Type} [Scalar K] (v : Vec K) :
    v.perpendicular = (v.cross v.seed).normalize := rfl

section Seed

variable {v : Vec ℝ}

theorem norm_seed (v : Vec ℝ) : v.seed.norm = 1 := by
  unfold seed
  split
  · exact norm_xAxis
  · exact norm_yAxis

theorem cross_seed_eq_zero_iff : (v.cross v.seed).norm = 0 ↔ ∃ c : ℝ, v = c • v.seed :=
  norm_eq_zero_iff.trans (cross_eq_zero_iff v.norm_seed)

/-- Only short vectors along the chords are parallel to the axis that they are given. -/
theorem parallel_seed_iff : (∃ c : ℝ, v = c • v.seed) ↔ |v.x| < 0.9 ∧ v.y = 0 ∧ v.z = 0 := by
  by_cases hx : |v.x| < 0.9
  · have hseed : v.seed = xAxis := if_pos hx
    rw [hseed]
    constructor
    · rintro ⟨c, rfl⟩
      exact ⟨hx, by simp [xAxis], by simp [xAxis]⟩
    · rintro ⟨-, hy, hz⟩
      exact ⟨v.x, by ext <;> simp [xAxis, hy, hz]⟩
  · have hseed : v.seed = yAxis := if_neg hx
    rw [hseed]
    constructor
    · rintro ⟨c, rfl⟩
      -- a vector along the span has nothing along the chords
      refine absurd ?_ hx
      norm_num [yAxis]
    · exact fun h => absurd h.1 hx

/-- Long vectors never are. -/
theorem cross_seed_ne_zero (h : 0.9 ≤ v.norm) : (v.cross v.seed).norm ≠ 0 := by
  intro hzero
  obtain ⟨hx, hy, hz⟩ := parallel_seed_iff.1 (cross_seed_eq_zero_iff.1 hzero)
  have hlength : v.norm = |v.x| := by
    refine norm_eq (abs_nonneg _) ?_
    rw [abs_mul_abs_self, normSq, dot, hy, hz]
    ring
  rw [hlength] at h
  exact hx.not_ge h

theorem perpendicular_dot (v : Vec ℝ) : v.perpendicular.dot v = 0 := by
  rw [perpendicular_eq, normalize, div_eq_smul, smul_dot, cross_dot_left, mul_zero]

theorem orthonormal_perpendicular (h : v.norm = 1) :
    Orthonormal v.perpendicular (v.cross v.perpendicular) := by
  have hnorm : v.perpendicular.norm = 1 :=
    norm_normalize (cross_seed_ne_zero (by rw [h]; norm_num))
  refine ⟨hnorm, ?_, (dot_comm _ _).trans (cross_dot_right _ _)⟩
  rw [norm_cross_of_dot ((dot_comm _ _).trans v.perpendicular_dot), h, hnorm, one_mul]

end Seed

end Vec

/-! ### The points of a square -/

/-- The face is a square around `p`, with sides of length `2 * r` along two directions. -/
structure Face.IsSquare (f : Face ℝ) (p dir up : Vec ℝ) (r : ℝ) : Prop where
  /-- The sides are at right angles. -/
  frame : Vec.Orthonormal dir up
  /-- They have some length. -/
  large : tolerance < r
  /-- It is plane and not folded. -/
  flat : f.Flat p dir up
  /-- No facet of it is a sliver. -/
  ample : ∀ t ∈ f.facets, t.Ample
  /-- No part of it is counted twice. -/
  area : f.area = (2 * r) ^ 2
  /-- It has the points of the square and no others. -/
  covers : ∀ q, (∃ t ∈ f.facets, t.Holds q) ↔
    ∃ α β : ℝ, |α| ≤ r ∧ |β| ≤ r ∧ q = p + α • dir + β • up

section Square

variable {p dir up : Vec ℝ} {r : ℝ} (h : Vec.Orthonormal dir up) (hr : tolerance < r)
include h hr

namespace Patch

/-- Both halves of the square have half its area. -/
theorem area_of_mem_around {t : Triangle ℝ} (ht : t ∈ (around p dir up r).facets) :
    t.area = 2 * r ^ 2 := by
  rw [facets_around h hr, List.mem_cons, List.mem_singleton] at ht
  change 0.5 * t.cross.norm = _
  rw [(isParallelogram_around p dir up r).cross_halves ht, cross_around, Vec.norm_smul,
    h.norm_cross, mul_one, abs_of_nonneg (by positivity)]
  ring

/-- The points of the square lie within its sides. -/
theorem abs_le_of_holds_around {t : Triangle ℝ} (ht : t ∈ (around p dir up r).facets) {q : Vec ℝ}
    (hq : t.Holds q) : ∃ α β : ℝ, |α| ≤ r ∧ |β| ≤ r ∧ q = p + α • dir + β • up := by
  have hpos : 0 < r := tolerance_pos.trans hr
  have hshare {x : ℝ} (hx : 0 ≤ x) (hx' : x ≤ 1) : |x * (2 * r) - r| ≤ r :=
    abs_le.2 ⟨by nlinarith, by nlinarith⟩
  obtain ⟨⟨x, y⟩, ⟨hx, hy, hxy⟩, rfl⟩ := hq
  dsimp only at hx hy hxy
  rw [facets_around h hr, List.mem_cons, List.mem_singleton] at ht
  obtain rfl | rfl := ht
  · refine ⟨y * (2 * r) - r, (x + y) * (2 * r) - r, hshare hy (by linarith),
      hshare (add_nonneg hx hy) hxy, ?_⟩
    unfold around Triangle.point
    module
  · refine ⟨(x + y) * (2 * r) - r, x * (2 * r) - r, hshare (add_nonneg hx hy) hxy,
      hshare hx (by linarith), ?_⟩
    unfold around Triangle.point
    module

end Patch

theorem Face.isSquare_of_facets {f : Face ℝ} (hf : f.facets = (Patch.around p dir up r).facets) :
    f.IsSquare p dir up r where
  frame := h
  large := hr
  flat := flat_of_facets h hr hf
  ample t ht := by
    have hsq := mul_self_lt_mul_self tolerance_pos.le hr
    change tolerance * tolerance < t.area
    rw [Patch.area_of_mem_around h hr (hf ▸ ht)]
    linarith [mul_self_nonneg r]
  area := by
    have harea := fun t => Patch.area_of_mem_around h hr (p := p) (t := t)
    rw [Patch.facets_around h hr, List.forall_mem_cons, List.forall_mem_singleton] at harea
    rw [Face.area, hf, Patch.facets_around h hr, sum_eq, List.map_cons, List.map_cons,
      List.map_nil, harea.1, harea.2]
    norm_num
    ring
  covers q := by
    rw [hf]
    constructor
    · rintro ⟨t, ht, hq⟩
      exact Patch.abs_le_of_holds_around h hr ht hq
    · rintro ⟨α, β, hα, hβ, rfl⟩
      exact Patch.exists_holds_around h hr hα hβ

end Square

/-! ### Heights -/

section Height

variable {K : Type} [Scalar K]

/-- The square around `p` across a vector. -/
def Face.squareAcross (p normal : Vec K) (r : K) : Face K :=
  let a := r • normal.perpendicular
  let b := normal.cross a
  Face.quad (p - a - b) (p - a + b) (p + a - b) (p + a + b)

/-- How far upward the part of a shape on a face leads. -/
def Shape.heightOn (s : Shape K) (f : Face K) : Vec K :=
  ((Shape.ofEdges (s.intersection (.ofFace f))).extremes? Vec.zAxis).elim 0 fun e => e.2 - e.1

/-- Where the midplane has a normal the height of a spar is measured on a square across it and
across the chords. -/
theorem Query.parallel_sparHeight_measured {d : Design K} (h : d.LookupsMatch .same d) {r : K}
    (hsize : Yields d size (.ok r)) (name : String) {p up normal : Vec K}
    (hup : d.wing.midplaneNormal (d.wing.etaXsi p).1 = .ok up)
    (hnormal : (up.cross Vec.xAxis).normalize? tolerance = some normal) :
    Parallel .same d d Eq (sparHeight name p) (do
      return (← sparGeometry (← spar name)).heightOn (Face.squareAcross p normal r)) := by
  have hname : Naming.same.spar name name := rfl
  refine (parallel_spar h hname).bind fun s s' hs => ?_
  refine (parallel_sparGeometry h hs).bind_eq fun geometry => ?_
  refine ⟨_, _, .bind_wing ((Yields.ofExcept_ok hup).bind_ok ?_), .pure _, .ok rfl⟩
  rw [hnormal]
  refine hsize.bind_ok ?_
  dsimp only [Shape.heightOn, Face.squareAcross]
  split
  next lo hi hends =>
    rw [hends]
    exact .pure _
  next hends =>
    rw [hends]
    exact .pure _

end Height

/-- The square across a unit vector is one. -/
theorem Face.isSquare_squareAcross {v : Vec ℝ} (hv : v.norm = 1) {r : ℝ} (hr : tolerance < r)
    (p : Vec ℝ) :
    (squareAcross p v r).IsSquare p v.perpendicular (v.cross v.perpendicular) r := by
  refine isSquare_of_facets (Vec.orthonormal_perpendicular hv) hr ?_
  unfold squareAcross
  dsimp only
  rw [Vec.cross_smul]
  rfl

/-- **A unit vector across another is found unless that is a short one along the chords.**  The
product by whose length is divided vanishes exactly if the vector is parallel to its axis, which
happens to vectors along the chords that are shorter than 0.9, and to no others.  The normal of the
span is a unit vector, so the face that a spar is cut with to find its height is a square, as large
as the wing, whatever was asked before. -/
theorem Vec.perpendicular_across (v : Vec ℝ) :
    ((v.cross v.seed).norm = 0 ↔ ∃ c : ℝ, v = c • v.seed) ∧
    ((∃ c : ℝ, v = c • v.seed) ↔ |v.x| < 0.9 ∧ v.y = 0 ∧ v.z = 0) ∧
    (0.9 ≤ v.norm → (v.cross v.seed).norm ≠ 0) ∧
    ((v.cross v.seed).norm ≠ 0 → v.perpendicular.norm = 1 ∧ v.perpendicular.dot v = 0) ∧
    ∀ {s : Structure ℝ}, s.Reachable → ∀ {g}, s.answer .wingGeometry = .ok g → ∀ name p up,
      s.design.wing.midplaneNormal (s.design.wing.etaXsi p).1 = .ok up →
      (up.cross Vec.xAxis).normalize? tolerance = some v →
        (Face.squareAcross p v g.loft.diagonal).IsSquare p v.perpendicular
          (v.cross v.perpendicular) g.loft.diagonal ∧
        ((Query.sparHeight name p).answer s.design s.store).1 = Query.fresh (do
          return (← Query.sparGeometry (← Query.spar name)).heightOn
            (Face.squareAcross p v g.loft.diagonal)) s.design := by
  refine ⟨cross_seed_eq_zero_iff, parallel_seed_iff, cross_seed_ne_zero,
    fun hne => ⟨norm_normalize hne, v.perpendicular_dot⟩, ?_⟩
  intro s hreachable g hg name p up hup hnormal
  have hs := Structure.sound_of_reachable hreachable
  have hbuilt : s.design.wing.geometry = .ok g :=
    Query.ensures_wingGeometry.holds (Structure.yields_of_answer hs hg)
  have hunit : v.norm = 1 := by
    obtain ⟨hlong, rfl⟩ := normalize?_eq_some_iff.1 hnormal
    exact norm_normalize (tolerance_pos.trans (not_le.1 hlong)).ne'
  refine ⟨Face.isSquare_squareAcross hunit (Wing.tolerance_lt_diagonal hbuilt) p, ?_⟩
  have hlookups := (Design.match_same hs.valid hs.valid rfl rfl).lookupsMatch
  exact ((Query.parallel_sparHeight_measured hlookups (Structure.yields_size hs hg) name hup
    hnormal).answers hs.coherent Store.coherent_empty).eq Naming.keeps_same

/-- A short vector along the chords has none. -/
example : (⟨0.5, 0, 0⟩ : Vec Float).perpendicular.x.isNaN = true := by decide +kernel

namespace Structure

/-- The midplane of the straight wing is level. -/
theorem midplaneNormal_exactWing (eta : ℝ) : exactWing.midplaneNormal eta = .ok Vec.zAxis := by
  have hsegment : (exactWing.locate eta).1 = exactWing.firstSegment := by
    unfold Wing.locate
    dsimp only
    cases hfind : exactWing.segments.reverse.find? (·.lo ≤ eta * exactWing.totalSpan) with
    | none => rfl
    | some g => exact List.mem_singleton.1 (List.mem_of_find?_eq_some hfind)
  have hlocate : exactWing.locate eta = (exactWing.firstSegment, (exactWing.locate eta).2) :=
    Prod.ext hsegment rfl
  have hspan : exactWing.firstSegment.inner.spanDistance exactWing.firstSegment.outer = 10 := by
    refine (Real.sqrt_eq_iff_mul_self_eq_of_pos (by norm_num)).2 ?_
    dsimp only [exactWing, Wing.firstSegment, Wing.segments, Wing.segmentsFrom, List.head_cons,
      Vec.sub_y, Vec.sub_z]
    norm_num
  have hsize : exactWing.firstSegment.size = 10 := by
    rw [← hspan]
    exact add_sub_cancel_left _ _
  have hlength : exactWing.firstSegment.leading.norm = 10 := by
    refine Vec.norm_eq (by norm_num) ?_
    dsimp only [Vec.normSq, Vec.dot, Wing.Segment.leading, exactWing, Wing.firstSegment,
      Wing.segments, Wing.segmentsFrom, List.head_cons, Vec.sub_x, Vec.sub_y, Vec.sub_z]
    norm_num
  have hlevel : exactWing.firstSegment.turned = Vec.zAxis := by
    rw [Wing.Segment.turned, hsize]
    ext <;> norm_num [Wing.Segment.leading, exactWing, Wing.firstSegment, Wing.segments,
      Wing.segmentsFrom, Vec.zAxis]
  have hchord : tolerance <
      exactWing.firstSegment.chordAt (exactWing.locate eta).2 := by
    norm_num [Wing.Segment.chordAt, exactWing, Wing.firstSegment, Wing.segments,
      Wing.segmentsFrom, tolerance]
  have hpos : 0 < exactWing.firstSegment.size := by
    rw [hsize]
    norm_num
  rw [Wing.midplaneNormal_eq_ok_iff hlocate hchord (hsize.trans hspan.symm) hpos, hlength, hsize]
  exact ⟨by norm_num [tolerance], by norm_num [Wing.normalBound], hlevel.symm⟩

/-- Two parallel spars, and ribs that end at the first of them. -/
noncomputable def parallelSpars : Description ℝ where
  sparPositions := [⟨"frontRoot", .eta 0, 0.2⟩, ⟨"frontTip", .eta 1, 0.2⟩,
    ⟨"rearRoot", .eta 0, 0.8⟩, ⟨"rearTip", .eta 1, 0.8⟩]
  sparSegments := [⟨"front", ["frontRoot", "frontTip"], .plain⟩,
    ⟨"rear", ["rearRoot", "rearTip"], .plain⟩]
  ribsDefinitions := [{
    uid := "ribs"
    ribsPositioning := some {
      ribReference := .spar "front"
      start := .eta 0
      stop := .eta 1
      ribStart := .leadingEdge
      ribEnd := .spar "front"
      count := .numberOfRibs 4
      crossing := .cross
      rotation := ⟨90, some (.line (.spar "front"))⟩ }
    explicitPositioning := none
    crossSection := .plain }]

/-- The height of a spar of the straight wing is measured on a square along the chords. -/
theorem perpendicular_across_straight :
    ∃ s g, ofDescription exactWing parallelSpars = .ok s ∧ s.answer .wingGeometry = .ok g ∧
      s.design.wing.midplaneNormal (s.design.wing.etaXsi 0).1 = .ok Vec.zAxis ∧
      (Vec.zAxis.cross Vec.xAxis).normalize? tolerance = some (Vec.yAxis : Vec ℝ) ∧
      (0.9 : ℝ) ≤ Vec.yAxis.norm ∧ (Vec.yAxis.cross Vec.yAxis.seed : Vec ℝ).norm ≠ 0 ∧
      (Vec.yAxis : Vec ℝ).perpendicular.norm = 1 ∧
      (Face.squareAcross 0 Vec.yAxis g.loft.diagonal).IsSquare 0 Vec.yAxis.perpendicular
        (Vec.yAxis.cross Vec.yAxis.perpendicular) g.loft.diagonal ∧
      ((Query.sparHeight "front" 0).answer s.design s.store).1 = Query.fresh (do
        return (← Query.sparGeometry (← Query.spar "front")).heightOn
          (Face.squareAcross 0 Vec.yAxis g.loft.diagonal)) s.design := by
  have hvalid : parallelSpars.Valid := by decide
  obtain ⟨s, hs⟩ := exists_ofDescription exactWing (Description.loadable_iff_valid.2 hvalid)
  obtain ⟨-, hwing, -, -⟩ := ofDescription_ok hs
  obtain ⟨g, hg, -⟩ := exists_wingGeometry hwing
  have hg : s.answer .wingGeometry = .ok g := answer_of_yields (Sound.load hs) hg
  have hup : s.design.wing.midplaneNormal (s.design.wing.etaXsi 0).1 = .ok Vec.zAxis := by
    rw [hwing]
    exact midplaneNormal_exactWing _
  have hnormal : (Vec.zAxis.cross Vec.xAxis).normalize? tolerance = some (Vec.yAxis : Vec ℝ) := by
    have hproduct : Vec.zAxis.cross Vec.xAxis = (1 : ℝ) • (Vec.yAxis : Vec ℝ) := by
      ext <;> norm_num [Vec.cross, Vec.zAxis, Vec.xAxis, Vec.yAxis]
    rw [hproduct, Vec.normalize?_smul_eq_some_iff Vec.norm_yAxis one_pos]
    exact ⟨by norm_num [tolerance], rfl⟩
  have hlong : (0.9 : ℝ) ≤ Vec.yAxis.norm := by
    rw [Vec.norm_yAxis]
    norm_num
  obtain ⟨-, -, hdefined, hunit, hmeasured⟩ := Vec.perpendicular_across Vec.yAxis
  obtain ⟨hsquare, hheight⟩ := hmeasured (.load hs) hg "front" 0 Vec.zAxis hup hnormal
  exact ⟨s, g, hs, hg, hup, hnormal, hlong, hdefined hlong, (hunit (hdefined hlong)).1, hsquare,
    hheight⟩

end Structure

end WingBox
