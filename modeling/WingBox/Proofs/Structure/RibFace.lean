import WingBox.Proofs.Exact.Box
import WingBox.Proofs.Structure.RibPoint

/-!
# Oversized faces

A rib that is not in the plane of a section is cut from a face that is large enough for the whole
wing.  Its two sides are run in opposite ways; they are put in order, ruled and divided.  Where the
rib stands upright on its direction this gives a square around the reference point, with sides
twice as long as the wing is large.

* `Wing.tolerance_lt_diagonal`: a wing that has all its surfaces has some size;
* `Face.Flat`: the face is neither bent nor folded;
* `Patch.facets_around`, `Patch.exists_holds_around`: the square has two facets, and all of its
  points lie on them;
* `Structure.cutFace_covers`: so the face has all that its plane has in the box around the wing.
-/

namespace WingBox

open Scalar

/-! ### How large a wing is -/

/-- A shape with a facet has some size. -/
theorem Shape.tolerance_lt_diagonal {s : Shape ℝ} {t : Triangle ℝ} (ht : t ∈ s.triangles)
    (hample : t.Ample) : tolerance < s.diagonal := by
  obtain ⟨b, hb, hwithin⟩ := encloses_of_mem ht
  have hdiagonal : s.diagonal = b.diagonal := by rw [diagonal, hb]
  have harea : tolerance * tolerance < 0.5 * t.cross.norm := hample
  have hle := Triangle.norm_cross_le hwithin
  have hpos := mul_pos tolerance_pos tolerance_pos
  rw [hdiagonal]
  exact lt_of_mul_self_lt_mul_self₀ (Vec.norm_nonneg _) (by linarith)

theorem Wing.tolerance_lt_diagonal {w : Wing ℝ} {g : WingGeometry ℝ} (hg : w.geometry = .ok g) :
    tolerance < g.loft.diagonal := by
  obtain ⟨t, ht, hample⟩ := exists_ample_of_geometry hg
  exact Shape.tolerance_lt_diagonal ht hample

/-! ### Squares -/

/-- Two directions of length one across each other. -/
structure Vec.Orthonormal (dir up : Vec ℝ) : Prop where
  norm_dir : dir.norm = 1
  norm_up : up.norm = 1
  dot_eq_zero : dir.dot up = 0

/-- The face is a piece of the plane through `p` along two directions, and nowhere folded. -/
structure Face.Flat (f : Face ℝ) (p dir up : Vec ℝ) : Prop where
  /-- There is something of it. -/
  facets_ne_nil : f.facets ≠ []
  /-- All corners lie in the plane. -/
  inPlane : ∀ t ∈ f.facets, ∀ v ∈ t.vertices, ∃ α β : ℝ, v = p + α • dir + β • up
  /-- All facets face the same way. -/
  unfolded : ∀ t ∈ f.facets, ∃ k : ℝ, 0 < k ∧ t.cross = k • up.cross dir

namespace Vec.Orthonormal

variable {dir up : Vec ℝ} (h : Orthonormal dir up)
include h

theorem norm_cross : (up.cross dir).norm = 1 := by
  rw [norm_cross_of_dot ((dot_comm up dir).trans h.dot_eq_zero), h.norm_up, h.norm_dir, one_mul]

/-- The coordinates in a plane are no longer than the way to the point. -/
theorem abs_le_norm (α β : ℝ) :
    |α| ≤ (α • dir + β • up).norm ∧ |β| ≤ (α • dir + β • up).norm := by
  have hdot (v : Vec ℝ) : (α • dir + β • up).dot v = α * dir.dot v + β * up.dot v := by
    simp only [dot, add_x, add_y, add_z, smul_x, smul_y, smul_z]
    ring
  have hα : (α • dir + β • up).dot dir = α := by
    rw [hdot, dot_self h.norm_dir, dot_comm up, h.dot_eq_zero, mul_one, mul_zero, add_zero]
  have hβ : (α • dir + β • up).dot up = β := by
    rw [hdot, dot_self h.norm_up, h.dot_eq_zero, mul_one, mul_zero, zero_add]
  constructor
  · simpa only [hα, h.norm_dir, mul_one] using abs_dot_le (α • dir + β • up) dir
  · simpa only [hβ, h.norm_up, mul_one] using abs_dot_le (α • dir + β • up) up

end Vec.Orthonormal

section Square

variable {p dir up : Vec ℝ} {r : ℝ}

namespace Patch

theorem sides_around : (around p dir up r).b - (around p dir up r).a = (2 * r) • up ∧
    (around p dir up r).c - (around p dir up r).a = (2 * r) • dir := by
  unfold around
  exact ⟨by module, by module⟩

theorem cross_around : ((around p dir up r).b - (around p dir up r).a).cross
    ((around p dir up r).c - (around p dir up r).a) = (4 * r ^ 2) • up.cross dir := by
  rw [sides_around.1, sides_around.2, Vec.smul_cross, Vec.cross_smul, smul_smul]
  congr 1
  ring

variable (h : Vec.Orthonormal dir up) (hr : tolerance < r)
include h hr

/-- The square is large enough to have both its halves as facets. -/
theorem facets_around : (around p dir up r).facets =
    [⟨(around p dir up r).a, (around p dir up r).b, (around p dir up r).d⟩,
      ⟨(around p dir up r).a, (around p dir up r).d, (around p dir up r).c⟩] := by
  refine (isParallelogram_around p dir up r).facets_eq ?_
  rw [cross_around, Vec.norm_smul, h.norm_cross, mul_one, abs_of_nonneg (by positivity)]
  have hsq := mul_self_lt_mul_self tolerance_pos.le hr
  linarith [mul_self_nonneg r]

/-- The points of the plane that are near enough lie on the square. -/
theorem exists_holds_around {α β : ℝ} (hα : |α| ≤ r) (hβ : |β| ≤ r) :
    ∃ t ∈ (around p dir up r).facets, t.Holds (p + α • dir + β • up) := by
  have hpos : 0 < r := tolerance_pos.trans hr
  have hshare {x : ℝ} (hx : |x| ≤ r) : 0 ≤ (x / r + 1) / 2 ∧ (x / r + 1) / 2 ≤ 1 := by
    obtain ⟨hlo, hhi⟩ := abs_le.1 hx
    have hlo : -1 ≤ x / r := (le_div_iff₀ hpos).2 (by linarith)
    have hhi : x / r ≤ 1 := (div_le_one hpos).2 hhi
    constructor <;> linarith
  have hscale (x : ℝ) : (x / r + 1) / 2 * (2 * r) = x + r := by
    field_simp
  obtain ⟨t, ht, hholds⟩ :=
    (isParallelogram_around p dir up r).exists_holds (hshare hβ) (hshare hα)
  rw [sides_around.1, sides_around.2, smul_smul, smul_smul, hscale, hscale] at hholds
  have hplace : (around p dir up r).a + (β + r) • up + (α + r) • dir = p + α • dir + β • up := by
    unfold around
    module
  exact ⟨t, by rwa [facets_around h hr], hplace ▸ hholds⟩

end Patch

namespace Face

variable (h : Vec.Orthonormal dir up) (hr : tolerance < r)
include h hr

theorem flat_of_facets {f : Face ℝ} (hf : f.facets = (Patch.around p dir up r).facets) :
    f.Flat p dir up := by
  have hparallelogram := Patch.isParallelogram_around p dir up r
  rw [Patch.facets_around h hr] at hf
  constructor
  case facets_ne_nil => simp [hf]
  case inPlane =>
    intro t ht v hv
    have hcorner : ∀ v ∈ [(Patch.around p dir up r).a, (Patch.around p dir up r).b,
        (Patch.around p dir up r).c, (Patch.around p dir up r).d],
        ∃ α β : ℝ, v = p + α • dir + β • up := by
      unfold Patch.around
      simp only [List.forall_mem_cons]
      exact ⟨⟨-r, -r, by module⟩, ⟨-r, r, by module⟩, ⟨r, -r, by module⟩, ⟨r, r, by module⟩,
        List.forall_mem_nil _⟩
    refine hcorner v ?_
    simp only [hf, List.mem_cons, List.not_mem_nil, or_false] at ht
    obtain rfl | rfl := ht
    · simp only [Triangle.vertices, List.mem_cons, List.not_mem_nil, or_false] at hv ⊢
      tauto
    · simp only [Triangle.vertices, List.mem_cons, List.not_mem_nil, or_false] at hv ⊢
      tauto
  case unfolded =>
    intro t ht
    have hpos : 0 < r := tolerance_pos.trans hr
    simp only [hf, List.mem_cons, List.not_mem_nil, or_false] at ht
    exact ⟨4 * r ^ 2, by positivity, (hparallelogram.cross_halves ht).trans Patch.cross_around⟩

/-- The sides that are made for the square are long enough, and the square is ruled between
them. -/
theorem exists_ruledAlong_sides : ∃ w v f,
    Wire.segment? (p - r • dir + r • up) (p - r • dir - r • up) = some w ∧
      Wire.segment? (p + r • dir - r • up) (p + r • dir + r • up) = some v ∧
      ruledAlong up w v = .ok f ∧ f.facets = (Patch.around p dir up r).facets := by
  have hpos : 0 < r := tolerance_pos.trans hr
  have hlong : tolerance ≤ ((2 * r) • up).norm := by
    rw [Vec.norm_smul, h.norm_up, mul_one, abs_of_pos (by positivity)]
    linarith
  obtain ⟨hdown, hup⟩ := sides_eq p dir up r
  have hne : (Patch.around p dir up r).facets ≠ [] := by simp [Patch.facets_around h hr]
  refine ⟨_, _, ⟨(Patch.around p dir up r).facets⟩, Wire.segment?_eq ?_, Wire.segment?_eq ?_,
    (ruledAlong_sides_eq_ok_iff hpos.le hlong).2 ⟨rfl, hne⟩, rfl⟩
  · rwa [hdown, Vec.norm_neg]
  · rwa [hup]

end Face

end Square

/-! ### The face of a rib -/

/-- The face of a rib between edges is the square around its reference point. -/
theorem Query.exists_cutFace {d : Design ℝ} {r : ℝ} (hsize : Yields d size (.ok r))
    (hr : tolerance < r) {p dir up : Vec ℝ} (h : Vec.Orthonormal dir up)
    {ribStart ribEnd : NamedLine} (hstart : ribStart.sparUid? = none)
    (hend : ribEnd.sparUid? = none) (uid : String) :
    ∃ f, Yields d (cutFace uid p dir up up ribStart ribEnd) (.ok f) ∧
      f.facets = (Patch.around p dir up r).facets := by
  obtain ⟨w, v, f, hw, hv, hf, hfacets⟩ := Face.exists_ruledAlong_sides (p := p) h hr
  exact ⟨f, yields_cutFace hsize hstart hend hw hv hf, hfacets⟩

namespace Structure

/-- **Oversized faces are large enough.**  The face for a rib between edges that stands upright on
its direction, at any point in the box around the wing, is flat and not folded, and has every point
of its plane in that box.  It is built if the wing is, whatever was built before. -/
theorem cutFace_covers {s : Structure ℝ} (h : s.Reachable) {g : WingGeometry ℝ}
    (hg : s.answer .wingGeometry = .ok g) :
    ∃ b, g.loft.box? = some b ∧
      ∀ (uid : String) (p dir up : Vec ℝ) (ribStart ribEnd : NamedLine), b.Contains p →
        Vec.Orthonormal dir up → ribStart.isEdge → ribEnd.isEdge →
          ∃ f, ((Query.cutFace uid p dir up up ribStart ribEnd).answer s.design s.store).1 = .ok f ∧
            f.Flat p dir up ∧ ∀ α β : ℝ, b.Contains (p + α • dir + β • up) →
              ∃ t ∈ f.facets, t.Holds (p + α • dir + β • up) := by
  have hs := sound_of_reachable h
  have hbuilt : s.design.wing.geometry = .ok g :=
    Query.ensures_wingGeometry.holds (yields_of_answer hs hg)
  have hlarge := Wing.tolerance_lt_diagonal hbuilt
  obtain ⟨t, ht, -⟩ := Wing.exists_ample_of_geometry hbuilt
  obtain ⟨b, hb, -⟩ := Shape.encloses_of_mem ht
  refine ⟨b, hb, fun uid p dir up ribStart ribEnd hp hframe hstart hend => ?_⟩
  obtain ⟨f, hf, hfacets⟩ := Query.exists_cutFace (yields_size hs hg) hlarge hframe
    (sparUid?_of_isEdge hstart) (sparUid?_of_isEdge hend) uid
  refine ⟨f, (hf s.store hs.coherent).1, Face.flat_of_facets hframe hlarge hfacets, ?_⟩
  intro α β hin
  -- no point of the box is farther away than its corners are from each other
  have hnear : (α • dir + β • up).norm ≤ g.loft.diagonal := by
    have hdistance := hin.distance_le hp
    have hway : p + α • dir + β • up - p = α • dir + β • up := by module
    rw [Vec.distance, hway] at hdistance
    rwa [Shape.diagonal, hb]
  obtain ⟨hα, hβ⟩ := hframe.abs_le_norm α β
  rw [hfacets]
  exact Patch.exists_holds_around hframe hlarge (hα.trans hnear) (hβ.trans hnear)

/-- A rib across the span through the middle of the inner chord reaches the leading edge. -/
theorem cutFace_covers_leadingEdge :
    ∃ s g b f, ofDescription exactWing ⟨[], [], []⟩ = .ok s ∧ s.answer .wingGeometry = .ok g ∧
      g.loft.box? = some b ∧
      ((Query.cutFace "ribs" ((WingEnd.inner.sectionOf exactWing).chordPoint 0.5) Vec.xAxis
        Vec.zAxis Vec.zAxis .leadingEdge .trailingEdge).answer s.design s.store).1 = .ok f ∧
      f.Flat ((WingEnd.inner.sectionOf exactWing).chordPoint 0.5) Vec.xAxis Vec.zAxis ∧
      ∃ t ∈ f.facets, t.Holds ((WingEnd.inner.sectionOf exactWing).chordPoint 0) := by
  have hvalid : (⟨[], [], []⟩ : Description ℝ).Valid := by decide
  obtain ⟨s, hs⟩ := exists_ofDescription exactWing (Description.loadable_iff_valid.2 hvalid)
  obtain ⟨-, hwing, -, -⟩ := ofDescription_ok hs
  obtain ⟨g, hg, hinner⟩ := exists_wingGeometry hwing
  have hg : s.answer .wingGeometry = .ok g := answer_of_yields (Sound.load hs) hg
  obtain ⟨b, hb, hcovers⟩ := cutFace_covers (.load hs) hg
  -- the first facet of the inner face joins the middle of the chord with the leading edge
  have hfacet := Wing.mem_sectionFan (solid_exactWing _ (WingEnd.sectionOf_mem .inner))
    (p := ⟨0, 0⟩) [] _ rfl (by norm_num)
  rw [Wing.place_eq_chordPoint] at hfacet
  have hclosing : (WingEnd.inner.faceOf g).facets =
      Wing.sectionFan (WingEnd.inner.sectionOf exactWing) := congrArg Face.facets hinner
  have hloft := Wing.mem_triangles_loft .inner (hclosing ▸ hfacet)
  have hmiddle := Shape.contains_of_mem hb hloft List.mem_cons_self
  have hleading := Shape.contains_of_mem hb hloft (List.mem_cons_of_mem _ List.mem_cons_self)
  have hframe : Vec.Orthonormal Vec.xAxis Vec.zAxis :=
    ⟨Vec.norm_xAxis, Vec.norm_zAxis, by norm_num [Vec.dot, Vec.xAxis, Vec.zAxis]⟩
  obtain ⟨f, hf, hflat, hall⟩ :=
    hcovers "ribs" _ _ _ .leadingEdge .trailingEdge hmiddle hframe rfl rfl
  refine ⟨s, g, b, f, hs, hg, hb, hf, hflat, ?_⟩
  have hplace : (WingEnd.inner.sectionOf exactWing).chordPoint 0.5 + (-0.5 : ℝ) • Vec.xAxis +
      (0 : ℝ) • Vec.zAxis = (WingEnd.inner.sectionOf exactWing).chordPoint 0 := by
    have hinner : WingEnd.inner.sectionOf exactWing = ⟨"inner", ⟨0, 0, 0⟩, 1, 0.1⟩ := rfl
    rw [hinner]
    ext <;> norm_num [WingSection.chordPoint, WingSection.trailingEdge, Vec.lerp, Vec.xAxis,
      Vec.zAxis]
  have hreached := hall (-0.5) 0
  rw [hplace] at hreached
  exact hreached hleading

end Structure

end WingBox
