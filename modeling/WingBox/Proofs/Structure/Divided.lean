import WingBox.Proofs.Build.Chain
import WingBox.Proofs.Cut.BoxTest
import WingBox.Proofs.Cut.Distinct
import WingBox.Proofs.Structure.SparPositions

/-!
# Split faces without a look at boxes

Spars whose boxes are apart from that of a part are left out when the part is split.
`Query.sparSplitByAll` and `Query.ribsSplitByAll` leave out none, and with exact numbers they give
the same faces (`Structure.divided_eq_splitByAll`).

A part is split if all by which it is split is built (`Query.exists_sparDivided`,
`Query.exists_ribsDivided`).  An example is a spar that leaves the wing at its trailing edge: four
facets of the wing are near its panel, and two of them meet it (`Structure.crossings_panel`).
-/

namespace WingBox

open Scalar

namespace Query

section All

variable {K : Type} [Scalar K]

/-- The surfaces from which all ribs are cut, one definition after the other. -/
def allRibFaces (ribs : List (RibsDefinition K)) : Query K (Shape K) := do
  let all ← ribs.mapM cuts
  return .ofFaces (all.flatMap fun cs => cs.map RibCut.face)

/-- The panels of spars, wherever these are. -/
def allPanels (spars : List (SparSegment K)) : Query K (Shape K) := do
  let cutShapes ← spars.mapM fun spar => return (← panels spar).cutShape
  return cutShapes.foldl (· ++ ·) .empty

/-- The faces of a spar split by all ribs and then by all other spars. -/
def sparSplitByAll (s : SparSegment K) : Query K (Shape K) := do
  let geometry ← sparGeometry s
  let ribs ← allRibFaces (← read).ribs.items
  let spars ← allPanels ((← read).spars.items.filter fun other => other.uid != s.uid)
  return geometry.split (ribs ++ spars)

/-- The faces of ribs split by all spars. -/
def ribsSplitByAll (r : RibsDefinition K) : Query K (Shape K) := do
  let geometry ← ribsGeometry r
  let spars ← allPanels (← read).spars.items
  return geometry.split spars

/-! ### Parts that are split -/

variable {d : Design K}

theorem exists_sparTool (shape : Shape K) {spars : List (SparSegment K)}
    (h : ∀ t ∈ spars, ∃ p, Yields d (panels t) (.ok p)) :
    ∃ tool, Yields d (sparTool shape spars) (.ok tool) := by
  have hshape : ∀ t ∈ spars, ∃ c, Yields d (do return (← panels t).cutShape) (.ok c) := by
    intro t ht
    obtain ⟨p, hp⟩ := h t ht
    exact ⟨p.cutShape, hp.bind_ok (.pure _)⟩
  obtain ⟨cutShapes, hcutShapes⟩ := Yields.exists_mapM hshape
  exact ⟨_, hcutShapes.bind_ok (.pure _)⟩

/-- A spar that has faces is split if all ribs can be cut and all spars have panels. -/
theorem exists_sparDivided {s : SparSegment K} (hs : d.HasSpar s) {geometry : Shape K}
    (hgeometry : Yields d (sparGeometry s) (.ok geometry))
    (hribs : ∀ r ∈ d.ribs.items, ∃ cs, Yields d (cuts r) (.ok cs))
    (hspars : ∀ t ∈ d.spars.items, ∃ p, Yields d (panels t) (.ok p)) :
    ∃ shape, Yields d (sparDivided s) (.ok shape) := by
  have hface : ∀ r ∈ d.ribs.items, ∃ fs,
      Yields d (do return (← cuts r).map (·.face)) (.ok fs) := by
    intro r hr
    obtain ⟨cs, hcs⟩ := hribs r hr
    exact ⟨_, hcs.bind_ok (.pure _)⟩
  obtain ⟨faces, hfaces⟩ := Yields.exists_mapM hface
  have hribTool : Yields d (ribTool d.ribs.items) (.ok (.ofFaces faces.flatten)) :=
    hfaces.bind_ok (.pure _)
  have hothers : ∀ t ∈ d.spars.items.filter fun other => other.uid != s.uid,
      ∃ p, Yields d (panels t) (.ok p) := fun t ht => hspars t (List.mem_filter.1 ht).1
  obtain ⟨tool, htool⟩ := exists_sparTool geometry hothers
  refine ⟨geometry.split (.ofFaces faces.flatten ++ tool),
    .cached (Store.filledBy_sparDivided hs) (hgeometry.bind_ok ?_)⟩
  exact Yields.read.bind_ok (hribTool.bind_ok (Yields.read.bind_ok (htool.bind_ok (.pure _))))

/-- Ribs that have faces are split if all spars have panels. -/
theorem exists_ribsDivided {r : RibsDefinition K} (hr : d.HasRibs r) {geometry : Shape K}
    (hgeometry : Yields d (ribsGeometry r) (.ok geometry))
    (hspars : ∀ t ∈ d.spars.items, ∃ p, Yields d (panels t) (.ok p)) :
    ∃ shape, Yields d (ribsDivided r) (.ok shape) := by
  obtain ⟨tool, htool⟩ := exists_sparTool geometry hspars
  refine ⟨geometry.split tool,
    .cached (Store.filledBy_ribsDivided hr) (hgeometry.bind_ok ?_)⟩
  exact Yields.read.bind_ok (htool.bind_ok (.pure _))

end All

/-! ### Side by side -/

variable {N : Naming} {d d' : Design ℝ} (h : d.Match N d')
include h

/-- What ribs are cut from splits a shape face by face, in the order of the ribs. -/
theorem parallel_ribTool_allRibFaces {rs rs' : List (RibsDefinition ℝ)}
    (hrs : List.Forall₂ (d.RibsMatch N d') rs rs') :
    Parallel N d d' Eq (ribTool rs) (allRibFaces rs') := by
  have hfaces {r r' : RibsDefinition ℝ} (hr : d.RibsMatch N d' r r') :
      Parallel N d d' (fun fs cs => fs = cs.map RibCut.face)
        (do return (← cuts r).map RibCut.face) (cuts r') := by
    rw [← bind_pure (cuts r')]
    exact (parallel_cuts h.lookupsMatch hr).bind fun cs cs' hcs => .pure (congrArg _ hcs)
  have hall := Parallel.mapM hrs fun r r' hr => hfaces hr
  refine hall.bind fun fss css hfss => .pure (congrArg Shape.ofFaces ?_)
  induction hfss with
  | nil => rfl
  | cons hfs _ ih => rw [List.flatten_cons, List.flatMap_cons, ih, hfs]

/-- The panels of the spars that may meet a shape split it as those of all spars do. -/
theorem parallel_sparTool_allPanels (shape : Shape ℝ) {ss ss' : List (SparSegment ℝ)}
    (hss : List.Forall₂ (d.SparsMatch N d') ss ss') :
    Parallel N d d'
      (fun tool tool' => ∀ pre, shape.split (pre ++ tool) = shape.split (pre ++ tool'))
      (sparTool shape ss) (allPanels ss') :=
  (parallel_cutShapes h hss).bind_eq fun shapes =>
    .pure fun pre => shape.split_append_filter pre shapes

theorem parallel_sparDivided_splitByAll {s s' : SparSegment ℝ} (hs : d.SparsMatch N d' s s') :
    Parallel N d d' Eq (sparDivided s) (sparSplitByAll s') := by
  refine .cached_left (Store.filledBy_sparDivided hs.here) ?_
  refine (parallel_sparGeometry h.lookupsMatch hs).bind_eq fun geometry => ?_
  refine Parallel.bind_read ?_
  refine (parallel_ribTool_allRibFaces h h.ribsMatch).bind_eq fun ribs => ?_
  refine Parallel.bind_read ?_
  have hothers := others_match h hs
  refine (parallel_sparTool_allPanels h geometry hothers).bind fun tool tool' htool => ?_
  exact .pure (htool ribs)

theorem parallel_ribsDivided_splitByAll {r r' : RibsDefinition ℝ} (hr : d.RibsMatch N d' r r') :
    Parallel N d d' Eq (ribsDivided r) (ribsSplitByAll r') := by
  refine .cached_left (Store.filledBy_ribsDivided hr.here) ?_
  refine (parallel_ribsGeometry h.lookupsMatch hr).bind_eq fun geometry => ?_
  refine Parallel.bind_read ?_
  refine (parallel_sparTool_allPanels h geometry h.sparsMatch).bind fun tool tool' htool => ?_
  exact .pure (htool .empty)

end Query

/-! ### Structures -/

namespace Structure

/-- **Looking at boxes first does not change split faces.**  With exact numbers, a structure answers
the question for the split faces of a spar by the faces split by all ribs and all other spars, and
the question for those of ribs by the faces split by all spars, or with the same refusal. -/
theorem divided_eq_splitByAll {s : Structure ℝ} (h : s.Reachable) (uid : String) (frame : Frame) :
    s.answer (.spar uid (.divided frame)) =
        Query.fresh (do Query.shapeIn frame (← Query.sparSplitByAll (← Query.spar uid))) s.design ∧
      s.answer (.ribs uid (.divided frame)) =
        Query.fresh (do Query.shapeIn frame (← Query.ribsSplitByAll (← Query.ribs uid)))
          s.design := by
  have hs := sound_of_reachable h
  have hmatch := Design.match_same hs.valid hs.valid rfl rfl
  have hlookups := hmatch.lookupsMatch
  constructor
  · have huid : Naming.same.spar uid uid := rfl
    have hspar := (Query.parallel_spar hlookups huid).bind fun x x' hx =>
      (Query.parallel_sparDivided_splitByAll hmatch hx).bind_eq
        (Query.parallel_shapeIn hlookups frame)
    exact (hspar.answers hs.coherent Store.coherent_empty).eq Naming.keeps_same
  · have huid : Naming.same.ribs uid uid := rfl
    have hribs := (Query.parallel_ribs hlookups huid).bind fun x x' hx =>
      (Query.parallel_ribsDivided_splitByAll hmatch hx).bind_eq
        (Query.parallel_shapeIn hlookups frame)
    exact (hribs.answers hs.coherent Store.coherent_empty).eq Naming.keeps_same

/-! ### A panel across the trailing edge -/

section Panel

-- Whole coordinates are casts of naturals, since a real literal carries a proof of its own.

open Triangle

/-- The half of a panel across the trailing edge that meets the wing, for panels of height `2 * r`.
-/
noncomputable def nearHalf (r : ℝ) : Triangle ℝ :=
  ⟨⟨0.98, (5 : ℕ), r⟩, ⟨0.98, (5 : ℕ), -r⟩, ⟨(2 : ℕ), (5 : ℕ), -r⟩⟩

/-- The half of the panel behind the wing. -/
noncomputable def farHalf (r : ℝ) : Triangle ℝ :=
  ⟨⟨0.98, (5 : ℕ), r⟩, ⟨(2 : ℕ), (5 : ℕ), -r⟩, ⟨(2 : ℕ), (5 : ℕ), r⟩⟩

/-- A facet of the upper skin along the trailing edge, starting at the inner end. -/
noncomputable def upperInner : Triangle ℝ := ⟨⟨0.9, 0, 0.05⟩, ⟨1, 0, 0⟩, ⟨1, (10 : ℕ), 0⟩⟩

/-- The facet of the upper skin next to it. -/
noncomputable def upperOuter : Triangle ℝ :=
  ⟨⟨0.9, 0, 0.05⟩, ⟨1, (10 : ℕ), 0⟩, ⟨0.9, (10 : ℕ), 0.05⟩⟩

/-- A facet of the lower skin along the trailing edge, starting at the inner end. -/
noncomputable def lowerInner : Triangle ℝ :=
  ⟨⟨1, 0, 0⟩, ⟨0.9, 0, -0.05⟩, ⟨0.9, (10 : ℕ), -0.05⟩⟩

/-- The facet of the lower skin next to it. -/
noncomputable def lowerOuter : Triangle ℝ :=
  ⟨⟨1, 0, 0⟩, ⟨0.9, (10 : ℕ), -0.05⟩, ⟨1, (10 : ℕ), 0⟩⟩

/-- The facets along the trailing edge, in the order of the shell. -/
noncomputable def trailing : List (Triangle ℝ) := [upperInner, upperOuter, lowerInner, lowerOuter]

/-- Where the panel meets the upper skin. -/
noncomputable def upperEdge : Edge ℝ := ⟨⟨1, (5 : ℕ), 0⟩, ⟨0.98, (5 : ℕ), 0.01⟩⟩

/-- Where it meets the lower skin. -/
noncomputable def lowerEdge : Edge ℝ := ⟨⟨0.98, (5 : ℕ), -0.01⟩, ⟨1, (5 : ℕ), 0⟩⟩

/-- What the halves of the panel have in common. -/
structure PanelFacet (r : ℝ) (t : Triangle ℝ) : Prop where
  cross : t.cross = (2.04 * r) • ⟨0, -1, 0⟩
  y : ∀ v ∈ t.vertices, v.y = 5
  x : ∀ v ∈ t.vertices, v.x = 0.98 ∨ v.x = 2
  z : ∀ v ∈ t.vertices, v.z = r ∨ v.z = -r

/-- What the facets along the trailing edge have in common, with `k = 1` above the chord and
`k = -1` below it. -/
structure TrailingFacet (k : ℝ) (u : Triangle ℝ) : Prop where
  cross : u.cross = ⟨0.5, 0, k⟩
  plane : 0.5 * u.a.x + k * u.a.z = 0.5
  y : ∀ v ∈ u.vertices, v.y = 0 ∨ v.y = 10

theorem panelFacets (r : ℝ) : PanelFacet r (nearHalf r) ∧ PanelFacet r (farHalf r) := by
  constructor <;> constructor
  case left.cross | right.cross =>
    ext <;> simp [nearHalf, farHalf, cross, Vec.cross]
    ring
  all_goals simp [nearHalf, farHalf, vertices]

theorem trailingFacets : TrailingFacet 1 upperInner ∧ TrailingFacet 1 upperOuter ∧
    TrailingFacet (-1) lowerInner ∧ TrailingFacet (-1) lowerOuter := by
  refine ⟨⟨?_, ?_, ?_⟩, ⟨?_, ?_, ?_⟩, ⟨?_, ?_, ?_⟩, ?_, ?_, ?_⟩
  all_goals norm_num [upperInner, upperOuter, lowerInner, lowerOuter, vertices, cross, Vec.cross]

variable {r k : ℝ} {t u : Triangle ℝ} {x : Vec ℝ}

/-- The factor that makes a normal of these facets a unit vector. -/
noncomputable def slope (k : ℝ) : ℝ := (⟨0.5, 0, k⟩ : Vec ℝ).norm⁻¹

theorem slope_bounds (hk : k * k = 1) :
    0.5 ≤ slope k ∧ slope k * (⟨0.5, 0, k⟩ : Vec ℝ).norm = 1 := by
  have hsq : (⟨0.5, 0, k⟩ : Vec ℝ).norm * (⟨0.5, 0, k⟩ : Vec ℝ).norm = 1.25 := by
    rw [← pow_two, Vec.norm_sq, Vec.normSq, Vec.dot]
    linarith
  have hpos : 0 < (⟨0.5, 0, k⟩ : Vec ℝ).norm := by
    rcases (Vec.norm_nonneg ⟨0.5, 0, k⟩).eq_or_lt with h | h
    · rw [← h] at hsq
      norm_num at hsq
    · exact h
  have hle : (⟨0.5, 0, k⟩ : Vec ℝ).norm ≤ 2 := by nlinarith
  constructor
  · unfold slope
    exact le_trans (by norm_num) (inv_anti₀ hpos hle)
  · exact inv_mul_cancel₀ hpos.ne'

theorem norm_neg_yAxis : (⟨0, -1, 0⟩ : Vec ℝ).norm = 1 :=
  Vec.norm_eq zero_le_one (by norm_num [Vec.normSq, Vec.dot])

theorem PanelFacet.support (ht : PanelFacet r t) (hr : 0 < r) : t.support = ⟨t.a, ⟨0, -1, 0⟩⟩ := by
  rw [Triangle.support, ht.cross, Vec.normalize_smul (by positivity), Vec.normalize,
    norm_neg_yAxis]
  exact congrArg (Plane.mk _) (by ext <;> norm_num)

theorem TrailingFacet.support (hu : TrailingFacet k u) :
    u.support = ⟨u.a, slope k • ⟨0.5, 0, k⟩⟩ := by
  rw [Triangle.support, hu.cross, Vec.normalize, Vec.div_eq_smul, slope]

/-- The planes of these facets meet at the trailing edge. -/
theorem TrailingFacet.signedDistance (hu : TrailingFacet k u) (v : Vec ℝ) :
    u.support.signedDistance v = slope k * (0.5 * v.x + k * v.z - 0.5) := by
  rw [hu.support, Plane.signedDistance]
  simp only [Vec.dot, Vec.sub_x, Vec.sub_y, Vec.sub_z, Vec.smul_x, Vec.smul_y, Vec.smul_z]
  linear_combination -slope k * hu.plane

/-- The panel is higher than the wing is thick, so its corners are far from these planes. -/
theorem TrailingFacet.transverse (ht : PanelFacet r t) (hr : 1 ≤ r) (hu : TrailingFacet k u)
    (hk : k * k = 1) : t.Transverse u := by
  have htol : (tolerance : ℝ) ≤ 0.1 := by norm_num [tolerance]
  have htol' := tolerance_pos
  have hr₀ : 0 < r := by linarith
  obtain ⟨hslope, hunit⟩ := slope_bounds hk
  constructor
  case area_left =>
    rw [Triangle.area, ht.cross, Vec.norm_smul, norm_neg_yAxis, abs_of_pos (by positivity)]
    nlinarith
  case area_right =>
    rw [Triangle.area, hu.cross]
    have hz := Vec.abs_x_le_norm (⟨0.5, 0, k⟩ : Vec ℝ)
    norm_num at hz
    nlinarith
  case crossing =>
    have hnorm : ((⟨0, -1, 0⟩ : Vec ℝ).cross (slope k • ⟨0.5, 0, k⟩)).norm = 1 := by
      rw [Vec.norm_cross_of_dot, norm_neg_yAxis, one_mul, Vec.norm_smul,
        abs_of_nonneg (by linarith), hunit]
      simp [Vec.dot]
    rw [ht.support hr₀, hu.support, hnorm]
    norm_num [crossingBound]
  case clear_left =>
    refine fun v hv => .inr ?_
    have hfar : (0.5 : ℝ) ≤ |0.5 * v.x + k * v.z - 0.5| := by
      have hx : 0.98 ≤ v.x ∧ v.x ≤ 2 := by rcases ht.x v hv with hx | hx <;> rw [hx] <;> norm_num
      have hz : k * v.z = r ∨ k * v.z = -r := by
        rcases mul_self_eq_one_iff.1 hk with rfl | rfl <;>
          rcases ht.z v hv with hz | hz <;> simp [hz]
      rcases hz with hz | hz <;> rw [hz]
      · exact le_abs.2 (.inl (by linarith))
      · exact le_abs.2 (.inr (by linarith))
    rw [hu.signedDistance, abs_mul, abs_of_nonneg (by linarith : 0 ≤ slope k)]
    nlinarith
  case clear_right =>
    refine fun v hv => .inr ?_
    have hdist : t.support.signedDistance v = 5 - v.y := by
      rw [ht.support hr₀, Plane.signedDistance, ← ht.y t.a List.mem_cons_self]
      simp only [Vec.dot, Vec.sub_x, Vec.sub_y, Vec.sub_z]
      ring
    rw [hdist]
    rcases hu.y v hv with hv | hv <;> rw [hv] <;> norm_num [tolerance]

/-- How far along the line in which the planes meet a point lies. -/
theorem TrailingFacet.along (ht : PanelFacet r t) (hr : 1 ≤ r) (hu : TrailingFacet k u)
    (hk : k * k = 1) (x : Vec ℝ) :
    t.support.along u.support x = slope k * (0.5 * x.z - k * x.x) := by
  obtain ⟨hslope, hunit⟩ := slope_bounds hk
  have hpos : 0 < slope k := by linarith
  have hcross : (⟨0, -1, 0⟩ : Vec ℝ).cross (slope k • ⟨0.5, 0, k⟩) = slope k • ⟨-k, 0, 0.5⟩ := by
    ext <;> simp only [Vec.cross, Vec.smul_x, Vec.smul_y, Vec.smul_z] <;> ring
  have hnorm : (⟨-k, 0, 0.5⟩ : Vec ℝ).norm = (⟨0.5, 0, k⟩ : Vec ℝ).norm := by
    refine congrArg Real.sqrt ?_
    simp only [Vec.normSq, Vec.dot]
    ring
  rw [Plane.along, Plane.direction, ht.support (by linarith), hu.support]
  dsimp only
  rw [hcross, Vec.normalize_smul hpos, Vec.normalize, Vec.div_eq_smul, hnorm, ← slope]
  simp only [Vec.dot, Vec.smul_x, Vec.smul_y, Vec.smul_z]
  ring

theorem holds_nearHalf (hr : 1 ≤ r) {a z : ℝ} (ha : 0.98 ≤ a) (ha' : a ≤ 1) (hz : |z| ≤ 0.01) :
    (nearHalf r).Holds ⟨a, 5, z⟩ := by
  obtain ⟨hlo, hhi⟩ := abs_le.1 hz
  have hpos : 0 < r := by linarith
  have hshare : |z / r| ≤ 0.01 := by
    rw [abs_div, abs_of_pos hpos]
    exact (div_le_self (abs_nonneg z) hr).trans hz
  obtain ⟨hlo', hhi'⟩ := abs_le.1 hshare
  refine ⟨((1 - z / r) / 2 - (a - 0.98) / 1.02, (a - 0.98) / 1.02), ⟨?_, ?_, ?_⟩, ?_⟩
  · dsimp only
    rw [sub_nonneg, div_le_iff₀ (by norm_num)]
    linarith
  · dsimp only
    exact div_nonneg (by linarith) (by norm_num)
  · dsimp only
    linarith
  · ext <;> simp only [nearHalf, Triangle.point, Vec.add_x, Vec.add_y, Vec.add_z, Vec.smul_x,
      Vec.smul_y, Vec.smul_z, Vec.sub_x, Vec.sub_y, Vec.sub_z] <;> field_simp <;> ring

/-- The panel is in the plane of a chord and starts in front of the trailing edge. -/
theorem of_holds_nearHalf (hx : (nearHalf r).Holds x) : x.y = 5 ∧ 0.98 ≤ x.x := by
  obtain ⟨v, ⟨h₁, h₂, h₃⟩, rfl⟩ := hx
  simp only [nearHalf, Triangle.point, Vec.add_x, Vec.add_y, Vec.smul_x, Vec.smul_y, Vec.sub_x,
    Vec.sub_y, Nat.cast_ofNat]
  constructor <;> linarith

/-- The other half is below the height of the wing behind the trailing edge only. -/
theorem of_holds_farHalf (hr : 1 ≤ r) (hx : (farHalf r).Holds x) (hz : x.z ≤ 0.05) :
    1 < x.x := by
  obtain ⟨v, ⟨h₁, h₂, h₃⟩, rfl⟩ := hx
  simp only [farHalf, Triangle.point, Vec.add_x, Vec.add_z, Vec.smul_x, Vec.smul_z, Vec.sub_x,
    Vec.sub_z] at hz ⊢
  nlinarith

theorem holds_upperEdge_iff (hr : 1 ≤ r) :
    upperEdge.Holds x ↔ (nearHalf r).Holds x ∧ upperInner.Holds x := by
  constructor
  · rintro ⟨s, hs, hs', rfl⟩
    have hpoint : upperEdge.pointAt s = ⟨1 - 0.02 * s, 5, 0.01 * s⟩ := by
      ext <;> simp only [upperEdge, Edge.pointAt, Vec.lerp, Vec.add_x, Vec.add_y, Vec.add_z,
        Vec.smul_x, Vec.smul_y, Vec.smul_z, Vec.sub_x, Vec.sub_y, Vec.sub_z] <;> ring
    rw [hpoint]
    refine ⟨holds_nearHalf hr (by linarith) (by linarith) (abs_le.2 ⟨by linarith, by linarith⟩),
      (0.5 - 0.2 * s, 0.5), ⟨?_, by norm_num, ?_⟩, ?_⟩
    · dsimp only
      linarith
    · dsimp only
      linarith
    · ext <;> simp only [upperInner, Triangle.point, Vec.add_x, Vec.add_y, Vec.add_z, Vec.smul_x,
        Vec.smul_y, Vec.smul_z, Vec.sub_x, Vec.sub_y, Vec.sub_z] <;> ring
  · rintro ⟨ht, v, ⟨h₁, h₂, h₃⟩, rfl⟩
    obtain ⟨hy, hx⟩ := of_holds_nearHalf ht
    simp only [upperInner, Triangle.point, Vec.add_x, Vec.add_y, Vec.smul_x, Vec.smul_y, Vec.sub_x,
      Vec.sub_y, Nat.cast_ofNat] at hy hx
    refine ⟨2.5 - 5 * v.1, by linarith, by linarith, ?_⟩
    ext <;> simp only [upperInner, upperEdge, Triangle.point, Edge.pointAt, Vec.lerp, Vec.add_x,
      Vec.add_y, Vec.add_z, Vec.smul_x, Vec.smul_y, Vec.smul_z, Vec.sub_x, Vec.sub_y,
      Vec.sub_z, Nat.cast_ofNat] <;> linarith

theorem holds_lowerEdge_iff (hr : 1 ≤ r) :
    lowerEdge.Holds x ↔ (nearHalf r).Holds x ∧ lowerOuter.Holds x := by
  constructor
  · rintro ⟨s, hs, hs', rfl⟩
    have hpoint : lowerEdge.pointAt s = ⟨0.98 + 0.02 * s, 5, -0.01 * (1 - s)⟩ := by
      ext <;> simp only [lowerEdge, Edge.pointAt, Vec.lerp, Vec.add_x, Vec.add_y, Vec.add_z,
        Vec.smul_x, Vec.smul_y, Vec.smul_z, Vec.sub_x, Vec.sub_y, Vec.sub_z] <;> ring
    rw [hpoint]
    refine ⟨holds_nearHalf hr (by linarith) (by linarith) (abs_le.2 ⟨by linarith, by linarith⟩),
      (0.2 * (1 - s), 0.5 - 0.2 * (1 - s)), ⟨?_, ?_, ?_⟩, ?_⟩
    · dsimp only
      linarith
    · dsimp only
      linarith
    · dsimp only
      linarith
    · ext <;> simp only [lowerOuter, Triangle.point, Vec.add_x, Vec.add_y, Vec.add_z, Vec.smul_x,
        Vec.smul_y, Vec.smul_z, Vec.sub_x, Vec.sub_y, Vec.sub_z] <;> ring
  · rintro ⟨ht, v, ⟨h₁, h₂, h₃⟩, rfl⟩
    obtain ⟨hy, hx⟩ := of_holds_nearHalf ht
    simp only [lowerOuter, Triangle.point, Vec.add_x, Vec.add_y, Vec.smul_x, Vec.smul_y, Vec.sub_x,
      Vec.sub_y, Nat.cast_ofNat] at hy hx
    refine ⟨1 - 5 * v.1, by linarith, by linarith, ?_⟩
    ext <;> simp only [lowerOuter, lowerEdge, Triangle.point, Edge.pointAt, Vec.lerp, Vec.add_x,
      Vec.add_y, Vec.add_z, Vec.smul_x, Vec.smul_y, Vec.smul_z, Vec.sub_x, Vec.sub_y,
      Vec.sub_z, Nat.cast_ofNat] <;> linarith

theorem intersect?_upperInner (hr : 1 ≤ r) :
    (nearHalf r).intersect? upperInner = some upperEdge := by
  have hu := trailingFacets.1
  have ht := (panelFacets r).1
  have htransverse := hu.transverse ht hr (one_mul 1)
  refine htransverse.intersect?_eq_some_iff.2 ⟨fun x => holds_upperEdge_iff hr, ?_⟩
  rw [hu.along ht hr (one_mul 1), hu.along ht hr (one_mul 1), upperEdge]
  have hslope := (slope_bounds (one_mul 1)).1
  norm_num [tolerance]
  linarith

theorem intersect?_lowerOuter (hr : 1 ≤ r) :
    (nearHalf r).intersect? lowerOuter = some lowerEdge := by
  have hk : (-1 : ℝ) * -1 = 1 := by norm_num
  have hu := trailingFacets.2.2.2
  have ht := (panelFacets r).1
  have htransverse := hu.transverse ht hr hk
  refine htransverse.intersect?_eq_some_iff.2 ⟨fun x => holds_lowerEdge_iff hr, ?_⟩
  rw [hu.along ht hr hk, hu.along ht hr hk, lowerEdge]
  have hslope := (slope_bounds hk).1
  norm_num [tolerance]
  linarith

theorem intersect?_upperOuter (hr : 1 ≤ r) : (nearHalf r).intersect? upperOuter = none := by
  have htransverse := trailingFacets.2.1.transverse (panelFacets r).1 hr (one_mul 1)
  refine htransverse.intersect?_eq_none ?_
  rintro _ ht ⟨v, ⟨h₁, h₂, h₃⟩, rfl⟩
  obtain ⟨hy, hx⟩ := of_holds_nearHalf ht
  simp only [upperOuter, Triangle.point, Vec.add_x, Vec.add_y, Vec.smul_x, Vec.smul_y, Vec.sub_x,
    Vec.sub_y, Nat.cast_ofNat] at hy hx
  linarith

theorem intersect?_lowerInner (hr : 1 ≤ r) : (nearHalf r).intersect? lowerInner = none := by
  have htransverse := trailingFacets.2.2.1.transverse (panelFacets r).1 hr (by norm_num)
  refine htransverse.intersect?_eq_none ?_
  rintro _ ht ⟨v, ⟨h₁, h₂, h₃⟩, rfl⟩
  obtain ⟨hy, hx⟩ := of_holds_nearHalf ht
  simp only [lowerInner, Triangle.point, Vec.add_x, Vec.add_y, Vec.smul_x, Vec.smul_y, Vec.sub_x,
    Vec.sub_y, Nat.cast_ofNat] at hy hx
  linarith

/-- The box around the facets along the trailing edge. -/
noncomputable def trailingBox : Box ℝ := ⟨⟨0.9, 0, -0.05⟩, ⟨1, (10 : ℕ), 0.05⟩⟩

theorem of_mem_trailing {u : Triangle ℝ} (hu : u ∈ trailing) :
    (∃ k, k * k = 1 ∧ TrailingFacet k u) ∧ u.box.Within trailingBox := by
  have hk : (-1 : ℝ) * -1 = 1 := by norm_num
  revert u
  simp only [trailing, List.forall_mem_cons]
  refine ⟨⟨⟨1, one_mul 1, trailingFacets.1⟩, ?_⟩, ⟨⟨1, one_mul 1, trailingFacets.2.1⟩, ?_⟩,
    ⟨⟨-1, hk, trailingFacets.2.2.1⟩, ?_⟩, ⟨⟨-1, hk, trailingFacets.2.2.2⟩, ?_⟩, nofun⟩ <;>
  · refine Triangle.box_within_iff.2 ?_
    norm_num [upperInner, upperOuter, lowerInner, lowerOuter, vertices, Box.Contains, trailingBox]

theorem intersect?_farHalf (hr : 1 ≤ r) {u : Triangle ℝ} (hu : u ∈ trailing) :
    (farHalf r).intersect? u = none := by
  obtain ⟨⟨k, hk, htrailing⟩, hbox⟩ := of_mem_trailing hu
  refine (htrailing.transverse (panelFacets r).2 hr hk).intersect?_eq_none fun x ht hx => ?_
  obtain ⟨⟨-, hxhi⟩, -, -, hzhi⟩ := hx.contains hbox
  exact hxhi.not_gt (of_holds_farHalf hr ht hzhi)

theorem segments_trailing (hr : 1 ≤ r) :
    Shape.segments (trailing.filterMap Blade.of?) (nearHalf r) = [upperEdge, lowerEdge] ∧
      Shape.segments (trailing.filterMap Blade.of?) (farHalf r) = [] := by
  have hsteady {t : Triangle ℝ} (ht : PanelFacet r t) : ∀ u ∈ trailing, t.Steady u := by
    intro u hu
    obtain ⟨⟨k, hk, htrailing⟩, -⟩ := of_mem_trailing hu
    exact (htrailing.transverse ht hr hk).steady
  rw [segments_eq (hsteady (panelFacets r).1), segments_eq (hsteady (panelFacets r).2)]
  constructor
  · rw [trailing, List.filterMap_cons_some (intersect?_upperInner hr),
      List.filterMap_cons_none (intersect?_upperOuter hr),
      List.filterMap_cons_none (intersect?_lowerInner hr),
      List.filterMap_cons_some (intersect?_lowerOuter hr), List.filterMap_nil]
  · exact List.filterMap_eq_nil_iff.2 fun u hu => intersect?_farHalf hr hu

/-- A facet in front of the panel, or at an end of the wing. -/
def Away (u : Triangle ℝ) : Prop :=
  (∀ v ∈ u.vertices, v.x ≤ 0.9) ∨ (∀ v ∈ u.vertices, v.y = 0) ∨ ∀ v ∈ u.vertices, v.y = (10 : ℕ)

theorem Away.not_overlaps {u t : Triangle ℝ} (hu : Away u) (ht : PanelFacet r t) :
    ¬ (u.box.enlarged tolerance).Overlaps t.box := by
  have htol : (tolerance : ℝ) ≤ 0.01 := by norm_num [tolerance]
  have hxt : ∀ v ∈ t.vertices, 0.98 ≤ v.x := by
    intro v hv
    rcases ht.x v hv with hx | hx <;> rw [hx]
    norm_num
  have hyt := ht.y
  rintro ⟨⟨-, hx⟩, ⟨hy, hy'⟩, -⟩
  simp only [Triangle.box, Box.enlarged, Box.including, Box.point, Vec.inf_x, Vec.inf_y,
    Vec.sup_x, Vec.sup_y, Vec.add_x, Vec.add_y, Vec.sub_y] at hx hy hy'
  simp only [vertices, List.forall_mem_cons] at hxt hyt
  rcases hu with hu | hu | hu <;> simp only [vertices, List.forall_mem_cons] at hu
  · obtain ⟨ha, hb, hc, -⟩ := hu
    obtain ⟨ha', hb', hc', -⟩ := hxt
    have hlo : 0.98 ≤ min (min t.a.x t.b.x) t.c.x := le_min (le_min ha' hb') hc'
    have hhi : max (max u.a.x u.b.x) u.c.x ≤ 0.9 := max_le (max_le ha hb) hc
    linarith
  · obtain ⟨ha, hb, hc, -⟩ := hu
    obtain ⟨ha', hb', hc', -⟩ := hyt
    rw [ha, hb, hc, ha', hb', hc'] at hy'
    norm_num at hy'
    linarith
  · obtain ⟨ha, hb, hc, -⟩ := hu
    obtain ⟨ha', hb', hc', -⟩ := hyt
    rw [ha, hb, hc, ha', hb', hc'] at hy
    norm_num at hy
    linarith

/-- The panel meets the shell of a wing in two edges. -/
theorem crossings_panel (hr : 1 ≤ r) {shell : Shape ℝ} {front rest : List (Triangle ℝ)}
    (hshell : shell.triangles = front ++ trailing ++ rest) (hfront : ∀ u ∈ front, Away u)
    (hrest : ∀ u ∈ rest, Away u) :
    (Shape.ofFace ⟨[nearHalf r, farHalf r]⟩).crossings shell = [upperEdge, lowerEdge] := by
  have hnone {us : List (Triangle ℝ)} (hus : ∀ u ∈ us, Away u) {t : Triangle ℝ}
      (ht : PanelFacet r t) : Shape.segments (us.filterMap Blade.of?) t = [] :=
    segments_eq_nil fun u hu => (hus u hu).not_overlaps ht
  have hinner := (panelFacets r).1
  have houter := (panelFacets r).2
  have htriangles : (Shape.ofFace ⟨[nearHalf r, farHalf r]⟩).triangles =
      [nearHalf r, farHalf r] := rfl
  rw [Shape.crossings, Shape.blades, hshell, htriangles]
  simp only [List.filterMap_append, List.flatMap_cons, List.flatMap_nil, segments_append,
    hnone hfront hinner, hnone hfront houter, hnone hrest hinner, hnone hrest houter,
    (segments_trailing hr).1, (segments_trailing hr).2, List.nil_append, List.append_nil]

/-- These have one point in common, so their ends are joined to a face. -/
theorem exists_trim_panel {r : ℝ} (hr : 1 ≤ r) {shell : Shape ℝ} {front rest : List (Triangle ℝ)}
    (hshell : shell.triangles = front ++ trailing ++ rest) (hfront : ∀ u ∈ front, Away u)
    (hrest : ∀ u ∈ rest, Away u) :
    ∃ f, Query.trim "rear" ⟨[nearHalf r, farHalf r]⟩ shell = .ok f := by
  have hab : (tolerance : ℝ) ≤ ((⟨1, 5, 0⟩ : Vec ℝ) - ⟨0.98, 5, -0.01⟩).norm :=
    le_trans (by norm_num [tolerance]) (Vec.abs_x_le_norm _)
  have hbc : (tolerance : ℝ) ≤ ((⟨0.98, 5, 0.01⟩ : Vec ℝ) - ⟨1, 5, 0⟩).norm :=
    le_trans (by norm_num [tolerance]) (Vec.abs_x_le_norm _)
  have hac : (tolerance : ℝ) ≤ ((⟨0.98, 5, 0.01⟩ : Vec ℝ) - ⟨0.98, 5, -0.01⟩).norm :=
    le_trans (by norm_num [tolerance]) (Vec.abs_z_le_norm _)
  have hdistinct : Edge.distinct [upperEdge, lowerEdge] = [upperEdge, lowerEdge] :=
    Edge.distinct_pair (Wire.not_degenerate_of_le hbc) (Wire.not_degenerate_of_le hab)
      fun hcoincide => hcoincide.elim (fun h => (Vec.not_near_or_near_of_le hab).2 h.1)
        fun h => (Vec.not_near_or_near_of_le hac).2 h.2
  have hcenter : Face.sumOfPoints [(⟨0.98, 5, -0.01⟩ : Vec ℝ), ⟨1, 5, 0⟩, ⟨0.98, 5, 0.01⟩] /
      ((3 : ℕ) : ℝ) = ⟨2.96 / 3, 5, 0⟩ := by
    ext <;> norm_num [Face.sumOfPoints]
  have harea : (⟨⟨2.96 / 3, 5, 0⟩, ⟨0.98, 5, -0.01⟩, ⟨1, 5, 0⟩⟩ : Triangle ℝ).Ample := by
    refine lt_of_lt_of_le ?_ (mul_le_mul_of_nonneg_left (Vec.abs_y_le_norm _) (by norm_num))
    norm_num [Triangle.cross, Vec.cross, tolerance]
  obtain ⟨w, hw, hpoints⟩ := Wire.chain_pair (Vec.finite _).near_self hab hbc hac
  obtain ⟨f, hf⟩ :=
    Face.exists_ofBoundary_closed hpoints (hac.trans_eq (Vec.distance_comm _ _)) (hcenter ▸ harea)
  refine ⟨f, Query.trim_eq_ok_iff.2 ?_⟩
  rw [← hf]
  refine .filled ?_
  rw [Shape.intersection, crossings_panel hr hshell hfront hrest, hdistinct]
  exact hw

/-- A profile point of the straight wing at a span coordinate. -/
theorem place_exactWing (p : ProfilePoint ℝ) (uid : String) (y : ℝ) :
    p.place ⟨uid, ⟨0, y, 0⟩, 1, 0.1⟩ = ⟨p.x, y, 0.1 * p.y⟩ := by
  ext <;> simp only [ProfilePoint.place, Vec.add_x, Vec.add_y, Vec.add_z] <;> ring

/-- The facets between two profile points of the straight wing. -/
noncomputable def strip (p q : ProfilePoint ℝ) : List (Triangle ℝ) :=
  [⟨⟨p.x, 0, 0.1 * p.y⟩, ⟨q.x, 0, 0.1 * q.y⟩, ⟨q.x, (10 : ℕ), 0.1 * q.y⟩⟩,
    ⟨⟨p.x, 0, 0.1 * p.y⟩, ⟨q.x, (10 : ℕ), 0.1 * q.y⟩, ⟨p.x, (10 : ℕ), 0.1 * p.y⟩⟩]

/-- A panel of the wing between such points is cut along its diagonal. -/
theorem facets_quad_eq_strip {p q : ProfilePoint ℝ} (h : 1 / 10 ≤ |q.x - p.x|) :
    (Face.quad (p.place ⟨"inner", ⟨0, 0, 0⟩, 1, 0.1⟩) (q.place ⟨"inner", ⟨0, 0, 0⟩, 1, 0.1⟩)
      (p.place ⟨"outer", ⟨0, 10, 0⟩, 1, 0.1⟩) (q.place ⟨"outer", ⟨0, 10, 0⟩, 1, 0.1⟩)).facets =
        strip p q := by
  simp only [place_exactWing]
  refine Patch.IsParallelogram.facets_eq (p := ⟨_, _, _, _⟩) ?_ ?_
  · ext <;> simp only [Vec.sub_x, Vec.sub_y, Vec.sub_z]
    ring
  · refine lt_of_lt_of_le ?_ (mul_le_mul_of_nonneg_left (Vec.abs_z_le_norm _) (by norm_num))
    have hz : |(q.x - p.x) * 10| = 10 * |q.x - p.x| := by
      rw [abs_mul, mul_comm, abs_of_pos (by norm_num : (0 : ℝ) < 10)]
    simp only [Vec.cross, Vec.sub_x, Vec.sub_y, sub_self, zero_mul, sub_zero, hz]
    norm_num [tolerance]
    linarith

theorem away_of_mem_strip {p q : ProfilePoint ℝ} (hp : p.x ≤ 0.9) (hq : q.x ≤ 0.9) :
    ∀ u ∈ strip p q, Away u := by
  simp only [strip, List.forall_mem_cons]
  refine ⟨.inl ?_, .inl ?_, nofun⟩ <;> simp [Triangle.vertices, hp, hq]

/-- The skins of the wing, one strip after the other. -/
theorem triangles_paneled :
    (exactWing.paneled .upper).triangles =
        strip ⟨0, 0⟩ ⟨0.1, 0.5⟩ ++ strip ⟨0.1, 0.5⟩ ⟨0.9, 0.5⟩ ++ strip ⟨0.9, 0.5⟩ ⟨1, 0⟩ ∧
      (exactWing.paneled .lower).triangles =
        strip ⟨1, 0⟩ ⟨0.9, -0.5⟩ ++ strip ⟨0.9, -0.5⟩ ⟨0.1, -0.5⟩ ++
          strip ⟨0.1, -0.5⟩ ⟨0, 0⟩ := by
  constructor
  · rw [← facets_quad_eq_strip, ← facets_quad_eq_strip, ← facets_quad_eq_strip]
    · simp [Wing.paneled, Shape.triangles, Shape.ofFaces, exactWing, Wing.edgesOf,
        Loft.EdgeRange.places, List.range', Wing.panel, hexagon]
    all_goals norm_num
  · rw [← facets_quad_eq_strip, ← facets_quad_eq_strip, ← facets_quad_eq_strip]
    · simp [Wing.paneled, Shape.triangles, Shape.ofFaces, exactWing, Wing.edgesOf,
        Loft.EdgeRange.places, List.range', Wing.panel, hexagon]
    all_goals norm_num

theorem strip_trailing :
    strip ⟨0.9, 0.5⟩ ⟨1, 0⟩ ++ strip ⟨1, 0⟩ ⟨0.9, -0.5⟩ = trailing := by
  norm_num [strip, trailing, upperInner, upperOuter, lowerInner, lowerOuter]

/-- All facets of the wing but those along the trailing edge are away from the panel. -/
theorem triangles_exactWing {g : WingGeometry ℝ} (hg : exactWing.geometry = .ok g) :
    ∃ front rest, g.loft.triangles = front ++ trailing ++ rest ∧ (∀ u ∈ front, Away u) ∧
      ∀ u ∈ rest, Away u := by
  obtain ⟨hskin, -, hinner, houter⟩ := Wing.parts_of_geometry hg
  have htwo : exactWing.TwoSided :=
    ⟨Nat.le_of_ble_eq_true rfl, Nat.le_of_ble_eq_true rfl, Nat.le_of_ble_eq_true rfl⟩
  have hupper := Except.ok.inj ((hskin .upper).symm.trans (htwo.skinOf_edgesOf .upper))
  have hlower := Except.ok.inj ((hskin .lower).symm.trans (htwo.skinOf_edgesOf .lower))
  have htriangles : g.loft.triangles = (exactWing.paneled .upper).triangles ++
      (exactWing.paneled .lower).triangles ++ (g.innerFace.facets ++ g.outerFace.facets) := by
    rw [← hupper, ← hlower]
    simp [WingGeometry.loft, Shape.triangles, WingGeometry.skin]
  have hends (e : WingEnd) : (e.faceOf g).facets = Wing.sectionFan (e.sectionOf exactWing) := by
    have hface := (Wing.faces_of_geometry hg).2 e
    rw [Wing.sectionFace_eq rfl (solid_exactWing _ (WingEnd.sectionOf_mem e))] at hface
    exact congrArg Face.facets (Except.ok.inj hface).symm
  have hinner : ∀ u ∈ g.innerFace.facets, Away u := fun u hu =>
    .inr (.inl (Wing.of_mem_sectionFan ((hends .inner) ▸ hu)).2)
  have houter : ∀ u ∈ g.outerFace.facets, Away u := fun u hu =>
    .inr (.inr (Wing.of_mem_sectionFan ((hends .outer) ▸ hu)).2)
  refine ⟨strip ⟨0, 0⟩ ⟨0.1, 0.5⟩ ++ strip ⟨0.1, 0.5⟩ ⟨0.9, 0.5⟩,
    strip ⟨0.9, -0.5⟩ ⟨0.1, -0.5⟩ ++ strip ⟨0.1, -0.5⟩ ⟨0, 0⟩ ++
      (g.innerFace.facets ++ g.outerFace.facets), ?_, ?_, ?_⟩
  · rw [htriangles, triangles_paneled.1, triangles_paneled.2, ← strip_trailing]
    simp only [List.append_assoc]
  · rw [List.forall_mem_append]
    exact ⟨away_of_mem_strip (by norm_num) (by norm_num),
      away_of_mem_strip (by norm_num) (by norm_num)⟩
  · simp only [List.forall_mem_append]
    exact ⟨⟨away_of_mem_strip (by norm_num) (by norm_num),
      away_of_mem_strip (by norm_num) (by norm_num)⟩, hinner, houter⟩

/-- The panels of spars are higher than the wing is thick. -/
theorem one_le_diagonal {g : WingGeometry ℝ} (hg : exactWing.geometry = .ok g) :
    1 ≤ g.loft.diagonal := by
  obtain ⟨front, rest, htriangles, -, -⟩ := triangles_exactWing hg
  have hmem : upperInner ∈ g.loft.triangles := by
    rw [htriangles]
    exact List.mem_append_left _ (List.mem_append_right _ List.mem_cons_self)
  obtain ⟨b, hb, hwithin⟩ := Shape.encloses_of_mem hmem
  have hcontains := Triangle.box_within_iff.1 hwithin
  have hdiagonal : g.loft.diagonal = b.diagonal := by rw [Shape.diagonal, hb]
  have hle := (hcontains ⟨1, 10, 0⟩ (by simp [upperInner, Triangle.vertices])).distance_le
    (hcontains ⟨1, 0, 0⟩ (by simp [upperInner, Triangle.vertices]))
  rw [hdiagonal]
  refine le_trans ?_ ((Vec.abs_y_le_norm _).trans hle)
  norm_num

/-! ### A spar that leaves the wing -/

/-- A position in front of the trailing edge. -/
noncomputable def innerPosition : SparPosition ℝ := ⟨"inside", .eta 0.5, 0.98⟩

/-- A position behind the trailing edge. -/
noncomputable def outerPosition : SparPosition ℝ := ⟨"outside", .eta 0.5, (2 : ℕ)⟩

/-- A spar along a chord that leaves the wing at the trailing edge. -/
noncomputable def chordSpar : SparSegment ℝ := ⟨"rear", ["inside", "outside"], .plain⟩

/-- Its stations lie on the chord in the middle of the wing and behind it. -/
noncomputable def chordStations : List (Query.Station ℝ) :=
  [⟨innerPosition, ⟨0.98, (5 : ℕ), 0⟩, Vec.zAxis⟩,
    ⟨outerPosition, ⟨(2 : ℕ), (5 : ℕ), 0⟩, Vec.zAxis⟩]

/-- A design in which the spar is found. -/
structure HasChordSpar (d : Design ℝ) : Prop where
  wing : d.wing = exactWing
  spar : d.HasSpar chordSpar
  inside : d.positions.get? "inside" = some innerPosition
  outside : d.positions.get? "outside" = some outerPosition

section ChordSpar

variable {d : Design ℝ} (hd : HasChordSpar d)
include hd

theorem stands_chordSpar : List.Forall₂ (Query.Stands d) chordSpar.positionUids chordStations := by
  have hpoint (xsi : ℝ) (p : SparPosition ℝ) (hp : p.location = .eta 0.5) :
      Query.Yields d (Query.midplanePoint p) (.ok ⟨p.xsi, 5, 0⟩) := by
    refine .bind_wing ?_
    rw [hp, hd.wing]
    dsimp only
    rw [point_half]
    exact .pure _
  exact .cons ⟨hd.inside, hpoint 0.98 innerPosition rfl, .pure _⟩
    (.cons ⟨hd.outside, hpoint 2 outerPosition rfl, .pure _⟩ .nil)

omit hd in
theorem panel_chordStations {r : ℝ} (hr : 1 ≤ r) :
    Query.Station.panel r ⟨innerPosition, ⟨0.98, 5, 0⟩, Vec.zAxis⟩
      ⟨outerPosition, ⟨2, 5, 0⟩, Vec.zAxis⟩ = ⟨[nearHalf r, farHalf r]⟩ := by
  have hinner : innerPosition.isAtInnerBorder = false := by
    refine decide_eq_false ?_
    norm_num [tolerance]
  have houter : outerPosition.isAtOuterBorder = false := by
    refine decide_eq_false ?_
    norm_num [tolerance]
  have hcorner (x z : ℝ) : (⟨x, 5, 0⟩ : Vec ℝ) + z • Vec.zAxis = ⟨x, 5, z⟩ := by
    ext <;> simp [Vec.zAxis]
  have hcorner' (x z : ℝ) : (⟨x, 5, 0⟩ : Vec ℝ) - z • Vec.zAxis = ⟨x, 5, -z⟩ := by
    ext <;> simp [Vec.zAxis]
  unfold Query.Station.panel
  dsimp only
  rw [hinner, houter, if_neg Bool.false_ne_true, if_neg Bool.false_ne_true]
  simp only [hcorner, hcorner']
  refine congrArg Face.mk (Patch.IsParallelogram.facets_eq (p := ⟨_, _, _, _⟩) ?_ ?_)
  · ext <;> simp only [Vec.sub_x, Vec.sub_y, Vec.sub_z]
    ring
  · refine lt_of_lt_of_le ?_ (mul_le_mul_of_nonneg_left (Vec.abs_y_le_norm _) (by norm_num))
    simp only [Vec.cross, Vec.sub_x, Vec.sub_z, sub_self, zero_mul, sub_zero]
    rw [abs_mul, abs_of_nonpos (by linarith : -r - r ≤ 0)]
    norm_num [tolerance]
    linarith

theorem exists_panels_chordSpar : ∃ g p, exactWing.geometry = .ok g ∧
    Query.Yields d Query.loft (.ok g.loft) ∧ Query.Yields d (Query.panels chordSpar) (.ok p) ∧
      p.cutShape = .ofFaces [⟨[nearHalf g.loft.diagonal, farHalf g.loft.diagonal]⟩] := by
  obtain ⟨g, hg⟩ := exists_geometry_exactWing
  have hgeometry : Query.Yields d Query.wingGeometry (.ok g) :=
    .bind_wing (.cached Store.filledBy_wing (.ofExcept_ok (hd.wing ▸ hg)))
  have hloft : Query.Yields d Query.loft (.ok g.loft) := hgeometry.bind_ok (.pure _)
  have htwo : 2 ≤ chordStations.length := le_rfl
  have hapart : chordStations.IsChain Query.Station.Apart := by
    refine .cons_cons (Query.Station.apart_iff.2 ?_) (.singleton _)
    refine lt_of_lt_of_le ?_ (Vec.abs_x_le_norm _)
    norm_num [tolerance]
  have hpanels := Query.yields_panels hd.spar (stands_chordSpar hd) htwo (hloft.bind_ok (.pure _))
  rw [(Query.panelsOf_eq_ok_iff htwo (p := ⟨Wire.straight _ _, _⟩)).2 ⟨hapart, rfl, rfl⟩] at hpanels
  refine ⟨g, _, hg, hloft, hpanels, ?_⟩
  exact congrArg (fun f => Shape.ofFaces [f]) (panel_chordStations (one_le_diagonal hg))

/-- The part of its panel inside the wing is a face. -/
theorem exists_sparGeometry_chordSpar :
    ∃ shape, Query.Yields d (Query.sparGeometry chordSpar) (.ok shape) := by
  obtain ⟨g, p, hg, hloft, hp, hcut⟩ := exists_panels_chordSpar hd
  obtain ⟨front, rest, htriangles, hfront, hrest⟩ := triangles_exactWing hg
  obtain ⟨f, hf⟩ := exists_trim_panel (one_le_diagonal hg) htriangles hfront hrest
  have hfaces : p.cutShape.faces.mapM (fun f => Query.trim "rear" f g.loft) = .ok [f] := by
    rw [hcut, Shape.ofFaces, List.mapM_cons, hf]
    rfl
  exact ⟨.ofFaces [f], .cached (Store.filledBy_sparGeometry hd.spar)
    (hp.bind_ok (hloft.bind_ok ((Query.Yields.ofExcept_ok hfaces).bind_ok (.pure _))))⟩

end ChordSpar

end Panel

/-- The spar along a chord beside the one from the tip to the root with the rib at its start. -/
noncomputable def dividedDescription : Description ℝ :=
  ⟨[tipPosition, rootPosition, innerPosition, outerPosition], [inwardSpar, chordSpar],
    [firstRib.declaration]⟩

theorem hasChordSpar_of_ofDescription {s : Structure ℝ}
    (h : ofDescription exactWing dividedDescription = .ok s) : HasChordSpar s.design where
  wing := (ofDescription_ok h).2.1
  spar := hasSpar_of_ofDescription h (List.mem_cons_of_mem _ List.mem_cons_self)
  inside := position_of_ofDescription h (p := innerPosition)
    (List.mem_cons_of_mem _ (List.mem_cons_of_mem _ List.mem_cons_self))
  outside := position_of_ofDescription h (p := outerPosition)
    (List.mem_cons_of_mem _ (List.mem_cons_of_mem _ (List.mem_cons_of_mem _ List.mem_cons_self)))

/-- A spar is split by a rib and another spar, and the rib by both spars. -/
theorem divided_eq_splitByAll_chordSpar :
    ∃ s, ofDescription exactWing dividedDescription = .ok s ∧
      (∃ f, Query.fresh (Query.allRibFaces s.design.ribs.items) s.design = .ok (.ofFaces [f])) ∧
      (∃ shape, s.answer (.spar "rear" (.divided .wing)) = .ok shape ∧
        Query.fresh (do Query.shapeIn .wing (← Query.sparSplitByAll (← Query.spar "rear")))
          s.design = .ok shape) ∧
      ∃ shape, s.answer (.ribs "ribs" (.divided .wing)) = .ok shape ∧
        Query.fresh (do Query.shapeIn .wing (← Query.ribsSplitByAll (← Query.ribs "ribs")))
          s.design = .ok shape := by
  have hvalid : dividedDescription.Valid := by decide
  obtain ⟨s, hs⟩ := exists_ofDescription exactWing (Description.loadable_iff_valid.2 hvalid)
  obtain ⟨-, -, hdesc, -⟩ := ofDescription_ok hs
  have hsound := Sound.load hs
  have hinward := hasInward_of_ofDescription hs List.mem_cons_self List.mem_cons_self
    (List.mem_cons_of_mem _ List.mem_cons_self) List.mem_cons_self
  have hchord := hasChordSpar_of_ofDescription hs
  have hribs : s.design.ribs.items = [firstRib] :=
    declaration_injective.list_map (congrArg Description.ribsDefinitions hdesc)
  have hspars : s.design.spars.items = [inwardSpar, chordSpar] :=
    congrArg Description.sparSegments hdesc
  -- everything by which the parts are split is built
  obtain ⟨cut, hcuts, htarget, -⟩ := exists_cuts_firstRib hinward
  obtain ⟨p, hp, -⟩ := exists_panels_inwardSpar hinward.toHasInwardSpar
  obtain ⟨-, q, -, -, hq, -⟩ := exists_panels_chordSpar hchord
  have hallCuts : ∀ r ∈ s.design.ribs.items, ∃ cs,
      Query.Yields s.design (Query.cuts r) (.ok cs) := by
    rw [hribs, List.forall_mem_singleton]
    exact ⟨_, hcuts⟩
  have hallPanels : ∀ t ∈ s.design.spars.items, ∃ p,
      Query.Yields s.design (Query.panels t) (.ok p) := by
    rw [hspars]
    simp only [List.forall_mem_cons]
    exact ⟨⟨p, hp⟩, ⟨q, hq⟩, List.forall_mem_nil _⟩
  -- and so are the parts themselves
  obtain ⟨spar, hspar⟩ := exists_sparGeometry_chordSpar hchord
  obtain ⟨g, hg, -⟩ := exists_wingGeometry hinward.wing
  have hrib := Query.yields_ribsGeometry_of_final hinward.ribs hcuts htarget hg
  obtain ⟨sparShape, hsparShape⟩ := Query.exists_sparDivided hchord.spar hspar hallCuts hallPanels
  obtain ⟨ribShape, hribShape⟩ := Query.exists_ribsDivided hinward.ribs hrib hallPanels
  have hsparAnswer : s.answer (.spar "rear" (.divided .wing)) = .ok sparShape :=
    answer_spar hsound hchord.spar (q := .divided .wing) (hsparShape.bind_ok (.pure _))
  have hribAnswer : s.answer (.ribs "ribs" (.divided .wing)) = .ok ribShape :=
    answer_ribs hsound hinward.ribs (q := .divided .wing) (hribShape.bind_ok (.pure _))
  obtain ⟨hsparEq, -⟩ := divided_eq_splitByAll (.load hs) "rear" .wing
  obtain ⟨-, hribEq⟩ := divided_eq_splitByAll (.load hs) "ribs" .wing
  refine ⟨s, hs, ⟨cut.face, ?_⟩, ⟨sparShape, hsparAnswer, hsparEq.symm.trans hsparAnswer⟩,
    ribShape, hribAnswer, hribEq.symm.trans hribAnswer⟩
  have hall := Query.Yields.mapM (.cons hcuts .nil)
  have hfaces : Query.Yields s.design (Query.allRibFaces [firstRib]) (.ok (.ofFaces [cut.face])) :=
    hall.bind_ok (.pure _)
  rw [hribs]
  exact hfaces.fresh_eq

end Structure

end WingBox
