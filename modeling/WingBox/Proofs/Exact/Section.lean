import WingBox.Proofs.Build.Skin
import WingBox.Proofs.Exact.Face

/-!
# Section faces with exact numbers

The hexagon of a section that is `WingSection.Solid` keeps all its corners, and its triangles along
the chord have enough area to be facets.

* `Wing.sectionFace_eq`: so the section has a face, which is a fan from the middle of the chord;
* `Wing.has_chordPoint`: the chord lies on it;
* `Wing.exists_firstHit?_sectionFan`: a wire that leaves the section from the chord meets it.
-/

namespace WingBox

open Scalar

namespace Face

/-- A facet between two neighbours of a loop is kept if it has some area. -/
theorem mem_fanAround {center first p q : Vec ℝ} (h : (⟨center, p, q⟩ : Triangle ℝ).Ample)
    (ps qs : List (Vec ℝ)) :
    ⟨center, p, q⟩ ∈ fanAround center first (ps ++ p :: q :: qs) := by
  induction ps with
  | nil =>
    rw [List.nil_append, fanAround, Triangle.facet?_of_ample h]
    exact List.mem_cons_self
  | cons r ps ih =>
    cases ps with
    | nil => exact List.mem_append_right _ ih
    | cons r' ps => exact List.mem_append_right _ ih

/-- The facets of a fan have some area, and their corners are those of the fan. -/
theorem of_mem_fanAround {center first : Vec ℝ} {ps : List (Vec ℝ)} {t : Triangle ℝ}
    (h : t ∈ fanAround center first ps) {P : Vec ℝ → Prop} (hcenter : P center) (hfirst : P first)
    (hps : ∀ p ∈ ps, P p) : t.Ample ∧ ∀ v ∈ t.vertices, P v := by
  have hfacet (p q : Vec ℝ) (hp : P p) (hq : P q)
      (ht : t ∈ (Triangle.facet? ⟨center, p, q⟩).toList) : t.Ample ∧ ∀ v ∈ t.vertices, P v := by
    obtain ⟨rfl, hample⟩ := Triangle.ample_of_facet? (Option.mem_toList.1 ht)
    refine ⟨hample, ?_⟩
    unfold Triangle.vertices
    simp only [List.forall_mem_cons]
    exact ⟨hcenter, hp, hq, nofun⟩
  match ps with
  | [] => cases h
  | [p] => exact hfacet p first (hps p List.mem_cons_self) hfirst h
  | p :: q :: ps =>
    obtain ⟨hp, hps⟩ := List.forall_mem_cons.1 hps
    rcases List.mem_append.1 h with ht | ht
    · exact hfacet p q hp (hps q List.mem_cons_self) ht
    · exact of_mem_fanAround ht hcenter hfirst hps

/-- The face inside a wire is the fan over its loop. -/
theorem ofBoundary_eq {v : Wire ℝ} (hclosed : v.Closed) {loop : List (Vec ℝ)} {p : Vec ℝ}
    (hpoints : v.points = loop ++ [p]) (hlength : 3 ≤ loop.length)
    (hne : fanAround (sumOfPoints loop / ((loop.length : ℕ) : ℝ)) v.start loop ≠ []) :
    ofBoundary v =
      .ok ⟨fanAround (sumOfPoints loop / ((loop.length : ℕ) : ℝ)) v.start loop⟩ := by
  have hloop : v.points.dropLast = loop := by rw [hpoints, List.dropLast_concat]
  unfold ofBoundary
  rw [if_pos hclosed, hloop]
  dsimp only
  rw [if_neg hlength.not_gt]
  split
  next hnil => exact absurd hnil hne
  next => rfl

/-- A wire through the corners of a triangle is filled if that has some area. -/
theorem exists_ofBoundary_closed {w : Wire ℝ} {a b c : Vec ℝ} (hw : w.points = [a, b, c])
    (hac : tolerance ≤ a.distance c)
    (harea : (⟨sumOfPoints [a, b, c] / ((3 : ℕ) : ℝ), a, b⟩ : Triangle ℝ).Ample) :
    ∃ f, ofBoundary w.closed = .ok f := by
  have hstart : w.start = a := Wire.start_of_points hw
  have hstop : w.stop = c := Wire.stop_of_points (show w.points = [a, b] ++ [c] from hw)
  have hapart : tolerance ≤ (w.start - w.stop).norm := by
    rw [hstart, hstop]
    exact hac
  obtain ⟨hclosed, hfirst, hpoints⟩ := Wire.closed_of_apart hapart
  rw [hstart] at hfirst hpoints
  rw [hw] at hpoints
  exact ⟨_, ofBoundary_eq hclosed hpoints le_rfl (List.ne_nil_of_mem (mem_fanAround harea [] [c]))⟩

/-- What fills a wire is made of facets. -/
theorem ample_of_ofBoundary {v : Wire ℝ} {f : Face ℝ} (h : ofBoundary v = .ok f) :
    f.facets ≠ [] ∧ ∀ t ∈ f.facets, t.Ample := by
  unfold ofBoundary at h
  split at h
  · dsimp only at h
    split at h
    · cases h
    split at h
    · cases h
    next hne =>
      obtain rfl := Except.ok.inj h
      refine ⟨hne, fun t ht => ?_⟩
      exact (of_mem_fanAround (P := fun _ => True) ht trivial trivial fun _ _ => trivial).1
  · cases h

end Face

namespace WingSection

variable (s : WingSection ℝ) (xsi : ℝ)

@[simp] theorem chordPoint_x : (s.chordPoint xsi).x = s.leadingEdge.x + xsi * s.chord := by
  simp only [chordPoint, trailingEdge, Vec.lerp, Vec.xAxis, Vec.add_x, Vec.sub_x, Vec.smul_x]
  ring

@[simp] theorem chordPoint_y : (s.chordPoint xsi).y = s.leadingEdge.y := by
  simp only [chordPoint, trailingEdge, Vec.lerp, Vec.xAxis, Vec.add_y, Vec.sub_y, Vec.smul_y]
  ring

@[simp] theorem chordPoint_z : (s.chordPoint xsi).z = s.leadingEdge.z := by
  simp only [chordPoint, trailingEdge, Vec.lerp, Vec.xAxis, Vec.add_z, Vec.sub_z, Vec.smul_z]
  ring

/-- The section is large enough for its hexagon to have all its points and facets. -/
structure Solid (s : WingSection ℝ) : Prop where
  chord : 10 * tolerance ≤ s.chord
  area : 8 * (tolerance * tolerance) < s.thickness * s.chord ^ 2

end WingSection

namespace Wing

variable {w : Wing ℝ} {s : WingSection ℝ}

theorem norm_place_sub (p q : ProfilePoint ℝ) (s : WingSection ℝ) :
    |(q.x - p.x) * s.chord| ≤ (q.place s - p.place s).norm := by
  refine le_trans (le_of_eq ?_) (Vec.abs_x_le_norm _)
  congr 1
  simp only [ProfilePoint.place, Vec.sub_x, Vec.add_x]
  ring

/-- Profile points that are apart by a tenth of the chord are not near in a solid section. -/
theorem apart_place (hs : s.Solid) {p q : ProfilePoint ℝ} (h : 1 / 10 ≤ |q.x - p.x|) :
    tolerance ≤ (q.place s - p.place s).norm := by
  have hchord := hs.chord
  have htolerance := tolerance_pos
  refine le_trans ?_ (norm_place_sub p q s)
  rw [abs_mul, abs_of_nonneg (show 0 ≤ s.chord by linarith)]
  nlinarith

theorem isChain_hexagon (hs : s.Solid) :
    (hexagon.map (·.place s)).IsChain fun p q => tolerance ≤ (q - p).norm := by
  unfold hexagon
  simp only [List.map_cons, List.map_nil, List.isChain_cons_cons, List.isChain_singleton, and_true]
  refine ⟨?_, ?_, ?_, ?_, ?_⟩ <;> exact apart_place hs (by norm_num)

/-- A profile point without height lies on the chord. -/
theorem place_eq_chordPoint (x : ℝ) (s : WingSection ℝ) :
    ProfilePoint.place ⟨x, 0⟩ s = s.chordPoint x := by
  ext <;> simp only [ProfilePoint.place, WingSection.chordPoint_x, WingSection.chordPoint_y,
    WingSection.chordPoint_z, Vec.add_x, Vec.add_y, Vec.add_z, add_zero, zero_mul]

/-- The mean of the corners is the middle of the chord. -/
theorem center_hexagon (s : WingSection ℝ) :
    Face.sumOfPoints (hexagon.map (·.place s)) / ((6 : ℕ) : ℝ) = s.chordPoint 0.5 := by
  have hsix : ((6 : ℕ) : ℝ) = 6 := Nat.cast_ofNat
  rw [hsix]
  ext <;> simp only [hexagon, Face.sumOfPoints, List.map_cons, List.map_nil, List.foldl_cons,
    List.foldl_nil, ProfilePoint.place, WingSection.chordPoint_x, WingSection.chordPoint_y,
    WingSection.chordPoint_z, Vec.add_x, Vec.add_y, Vec.add_z, Vec.div_x, Vec.div_y, Vec.div_z,
    Vec.zero_x, Vec.zero_y, Vec.zero_z] <;> ring

/-- A facet between the chord and a corner of a solid section has some area. -/
theorem ample_facet (hs : s.Solid) {p q : ProfilePoint ℝ}
    (h : |(p.x - 1 / 2) * q.y - (q.x - 1 / 2) * p.y| = 1 / 4) :
    (⟨s.chordPoint 0.5, p.place s, q.place s⟩ : Triangle ℝ).Ample := by
  have hcross : |(⟨s.chordPoint 0.5, p.place s, q.place s⟩ : Triangle ℝ).cross.y| =
      1 / 4 * |s.thickness * s.chord ^ 2| := by
    rw [← h, ← abs_mul, ← abs_neg]
    congr 1
    simp only [Triangle.cross, Vec.cross, ProfilePoint.place, WingSection.chordPoint,
      WingSection.trailingEdge, Vec.lerp, Vec.xAxis, Vec.add_x, Vec.add_z, Vec.sub_x,
      Vec.sub_z, Vec.smul_x, Vec.smul_z]
    ring
  have harea := hs.area
  have hnorm := (hcross ▸ Vec.abs_y_le_norm _ :
    1 / 4 * |s.thickness * s.chord ^ 2| ≤ Vec.norm _)
  have habs := le_abs_self (s.thickness * s.chord ^ 2)
  change tolerance * tolerance < 0.5 * Vec.norm _
  linarith

/-- The facets of a section, fanned out from the middle of the chord over the hexagon. -/
noncomputable def sectionFan (s : WingSection ℝ) : List (Triangle ℝ) :=
  Face.fanAround (s.chordPoint 0.5) (s.chordPoint 0) (hexagon.map (·.place s))

/-- One of the facets, on the upper side. -/
theorem mem_sectionFan (hs : s.Solid) {p q : ProfilePoint ℝ} (ps qs : List (ProfilePoint ℝ))
    (hloop : hexagon = ps ++ p :: q :: qs)
    (h : |(p.x - 1 / 2) * q.y - (q.x - 1 / 2) * p.y| = 1 / 4) :
    ⟨s.chordPoint 0.5, p.place s, q.place s⟩ ∈ sectionFan s := by
  unfold sectionFan
  rw [hloop, List.map_append]
  exact Face.mem_fanAround (ample_facet hs h) _ _

/-- A solid section has a face. -/
theorem sectionFace_eq (hprofile : w.profile = hexagon) (hs : s.Solid) :
    w.sectionFace s = .ok ⟨sectionFan s⟩ := by
  have hdistinct := Wire.distinct_of_isChain (isChain_hexagon hs)
  have hboundary : ∃ b : Wire ℝ, Wire.ofPoints? (hexagon.map (·.place s)) = some b ∧
      b.points = hexagon.map (·.place s) := by
    have hlength : 2 ≤ (Wire.distinct (hexagon.map (·.place s))).length := by
      rw [hdistinct]
      exact Nat.le_of_ble_eq_true rfl
    exact ⟨⟨_, hlength⟩, dif_pos hlength, hdistinct⟩
  obtain ⟨b, hb, hpoints⟩ := hboundary
  have hstart : b.start = ProfilePoint.place ⟨0, 0⟩ s := Wire.start_of_points hpoints
  have hstop : b.stop = ProfilePoint.place ⟨0.1, -0.5⟩ s :=
    Wire.stop_of_points (show b.points = hexagon.dropLast.map (·.place s) ++ [_] from hpoints)
  have hapart : tolerance ≤ (b.start - b.stop).norm := by
    rw [hstart, hstop]
    exact apart_place hs (by norm_num)
  obtain ⟨hclosed, hfirst, hloop⟩ := Wire.closed_of_apart hapart
  have hfan : Face.fanAround (Face.sumOfPoints b.points / ((b.points.length : ℕ) : ℝ))
      b.closed.start b.points = sectionFan s := by
    rw [hfirst, hstart, hpoints, place_eq_chordPoint, List.length_map]
    exact congrArg (Face.fanAround · _ _) (center_hexagon s)
  have hbuilt : Face.ofBoundary b.closed = .ok ⟨sectionFan s⟩ := by
    rw [← hfan]
    refine Face.ofBoundary_eq hclosed hloop ?_ ?_
    · rw [hpoints]
      exact Nat.le_of_ble_eq_true rfl
    · rw [hfan]
      exact List.ne_nil_of_mem (mem_sectionFan hs [] _ rfl (by norm_num))
  unfold sectionFace profilePoints
  rw [hprofile, hb]
  change Error.ofShapeFault w.uid (Face.ofBoundary b.closed) = _
  rw [hbuilt]
  rfl

/-- The facets of a section stand across the span. -/
theorem of_mem_sectionFan {t : Triangle ℝ} (h : t ∈ sectionFan s) :
    t.Ample ∧ ∀ v ∈ t.vertices, v.y = s.leadingEdge.y := by
  refine Face.of_mem_fanAround (P := fun v => v.y = s.leadingEdge.y) h (s.chordPoint_y _)
    (s.chordPoint_y _) ?_
  refine List.forall_mem_map.2 fun p _ => ?_
  simp only [ProfilePoint.place, Vec.add_y, add_zero]

/-- The chord of a solid section lies on its facets. -/
theorem exists_holds_chordPoint (hs : s.Solid) {xsi : ℝ} (hnonneg : 0 ≤ xsi) (hle : xsi ≤ 1) :
    ∃ t ∈ sectionFan s, t.Holds (s.chordPoint xsi) := by
  rcases le_total xsi (1 / 2) with hxsi | hxsi
  · -- the front half of the chord is a side of the first facet
    refine ⟨_, mem_sectionFan hs [] _ rfl (by norm_num),
      (1 - 2 * xsi, 0), ⟨by linarith, le_rfl, by linarith⟩, ?_⟩
    rw [place_eq_chordPoint]
    unfold Triangle.point WingSection.chordPoint Vec.lerp
    module
  · -- the rear half is a side of the third one
    refine ⟨_, mem_sectionFan hs [_, _] _ rfl (by norm_num),
      (0, 2 * xsi - 1), ⟨le_rfl, by linarith, by linarith⟩, ?_⟩
    rw [place_eq_chordPoint]
    unfold Triangle.point WingSection.chordPoint Vec.lerp
    module

/-- The face of a solid section holds its chord. -/
theorem has_chordPoint (hprofile : w.profile = hexagon) (hs : s.Solid) {f : Face ℝ}
    (hf : w.sectionFace s = .ok f) {xsi : ℝ} (hnonneg : 0 ≤ xsi) (hle : xsi ≤ 1) :
    f.Has (s.chordPoint xsi) := by
  rw [sectionFace_eq hprofile hs] at hf
  obtain rfl := Except.ok.inj hf
  obtain ⟨t, ht, hholds⟩ := exists_holds_chordPoint hs hnonneg hle
  exact Face.has_of_holds ht (of_mem_sectionFan ht).1 hholds

/-- A wire that starts on the chord of a solid section and leaves it meets its face. -/
theorem exists_firstHit?_sectionFan (hs : s.Solid) {xsi : ℝ} (hnonneg : 0 ≤ xsi) (hle : xsi ≤ 1)
    {v : Wire ℝ} {q : Vec ℝ} {ps : List (Vec ℝ)} (hv : v.points = s.chordPoint xsi :: q :: ps)
    (hq : Edge.crossingGap ≤ |q.y - s.leadingEdge.y|) :
    ∃ x, Face.firstHit? ⟨sectionFan s⟩ v = some x := by
  obtain ⟨t, ht, hholds⟩ := exists_holds_chordPoint hs hnonneg hle
  obtain ⟨hample, hupright⟩ := of_mem_sectionFan ht
  have hedges : v.edges = ⟨s.chordPoint xsi, q⟩ :: List.zipWith Edge.mk (q :: ps) ps := by
    unfold Wire.edges
    rw [hv]
    rfl
  have hleaves := Triangle.abs_signedDistance_of_upright hample hupright q
  obtain ⟨u, hu⟩ := Edge.exists_pierce? (e := ⟨s.chordPoint xsi, q⟩) hample hholds
    (hq.trans_eq hleaves.symm)
  exact Face.exists_firstHit? hedges ht hu

end Wing

end WingBox
