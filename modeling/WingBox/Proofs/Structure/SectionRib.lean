import WingBox.Proofs.Exact.Element
import WingBox.Proofs.Structure.RibPoint

/-!
# Explicit ribs in the plane of a section

An explicit rib between two points of one chord is not cut from an oversized face: it has the face
of the section, which is its final face already.

* `Query.exists_elementFace`: every section of a wing has its own face, found by its name;
* `Query.yields_cuts_explicit`: the single rib is that face, between the points that are given;
* `Structure.explicit_rib_in_section`: this happens wherever the section is found from its chord.
-/

namespace WingBox

open Scalar

namespace Query

/-- What a query finds in an empty store is what it yields. -/
theorem Parallel.yields_fresh {K : Type} [Scalar K] {N : Naming} {d d' : Design K} {α β : Type}
    {R : α → β → Prop} {q : Query K α} {q' : Query K β} (h : Parallel N d d' R q q') :
    Yields d q (q.fresh d) := by
  obtain ⟨x, hx⟩ := h.exists_yields
  rwa [hx.fresh_eq]

section Faces

variable {d : Design ℝ} (hwing : d.wing.Regular)
  (hfaces : ∀ x ∈ d.wing.sections, ∃ f, d.wing.sectionFace x = .ok f)
include hwing hfaces

theorem exists_geometry_of_faces :
    ∃ g, d.wing.geometry = .ok g ∧ Yields d wingGeometry (.ok g) := by
  obtain ⟨g, hg⟩ := hwing.exists_geometry hfaces
  exact ⟨g, hg, .bind_wing (.cached Store.filledBy_wing (.ofExcept_ok hg))⟩

/-- The face that is found by the name of a section is that of this section. -/
theorem exists_elementFace {x : WingSection ℝ} (hx : x ∈ d.wing.sections) :
    ∃ f, d.wing.sectionFace x = .ok f ∧ Yields d (elementFace x.elementUid) (.ok f) := by
  obtain ⟨g, hg, hyields⟩ := exists_geometry_of_faces hwing hfaces
  obtain ⟨i, hi, hsection⟩ := Wing.section?_of_mem hwing.nodup_names hx
  obtain ⟨hlt, hget⟩ := List.getElem?_eq_some_iff.1 hi
  have hall := forall₂_of_mapM (Wing.faces_of_geometry hg).1
  have hlt' : i < g.sectionFaces.length := hall.length_eq ▸ hlt
  have hface : d.wing.sectionFace d.wing.sections[i] = .ok g.sectionFaces[i] := hall.get hlt hlt'
  rw [hget] at hface
  refine ⟨g.sectionFaces[i], hface, .bind_wing ?_⟩
  refine (Yields.ofExcept_ok hsection).bind_ok (hyields.bind_ok ?_)
  exact .require_some (List.getElem?_eq_getElem hlt')

end Faces

section Explicit

variable {d : Design ℝ} {r : RibsDefinition ℝ} {e : ExplicitRib ℝ}
  (he : r.positioning = .explicit e)
include he

theorem explicit_match (hr : d.RibsMatch .same d r r) : e.Match .same e := by
  have hp := hr.toMatch.positioning
  rw [he] at hp
  cases hp with
  | explicit h => exact h

theorem yields_ribCount_explicit : Yields d (ribCount r) (.ok 1) := by
  unfold ribCount
  rw [he]
  exact .pure 1

variable (hr : d.HasRibs r)
include hr

/-- A rib between two points at one section element is the face of this element. -/
theorem yields_cuts_explicit (hstart : e.ribStart.isEdge) (hend : e.ribEnd.isEdge) {p q : Vec ℝ}
    (hp : Yields d (endPoint e.start) (.ok p)) (hq : Yields d (endPoint e.stop) (.ok q))
    {uid : String} (hpuid : d.wing.elementAt? p = some uid)
    (hquid : d.wing.elementAt? q = some uid) {f : Face ℝ}
    (hf : Yields d (elementFace uid) (.ok f)) : Yields d (cuts r) (.ok [⟨f, true, p, q⟩]) := by
  have hstart : r.positioning.ribStart.sparUid? = none :=
    he ▸ Structure.sparUid?_of_isEdge hstart
  have hend : r.positioning.ribEnd.sparUid? = none := he ▸ Structure.sparUid?_of_isEdge hend
  have hcut : Yields d (explicitCut r e) (.ok ⟨f, true, p, q⟩) := by
    refine hp.bind_ok (hq.bind_ok (.bind_wing ?_))
    rw [hpuid, hquid]
    dsimp only
    rw [if_pos rfl]
    refine hf.bind_ok ?_
    rw [trimSection_eq hstart hend, pure_bind]
    exact .pure _
  refine .cached (Store.filledBy_cuts hr) ?_
  unfold buildCuts
  rw [he]
  exact hcut.bind_ok (.pure _)

end Explicit

end Query

namespace Structure

/-- The only rib of a definition is the face of a section, between two points. -/
structure RibInSection (s : Structure ℝ) (r : RibsDefinition ℝ) (x : WingSection ℝ) (f : Face ℝ)
    (p q : Vec ℝ) : Prop where
  /-- The section is found at the start. -/
  elementAt_start : s.design.wing.elementAt? p = some x.elementUid
  /-- The section is found at the end. -/
  elementAt_stop : s.design.wing.elementAt? q = some x.elementUid
  /-- The face is that of the section. -/
  sectionFace : s.design.wing.sectionFace x = .ok f
  /-- It is found by the name of the section. -/
  elementFace : s.answer (.elementFace x.elementUid) = .ok f
  /-- The rib is cut from this face, which is its final face. -/
  cut : s.answer (.ribs r.uid (.cut 1)) = .ok ⟨f, true, p, q⟩
  /-- There is one rib. -/
  count : s.answer (.ribs r.uid .count) = .ok 1
  /-- Its face is this face. -/
  geometry : s.answer (.ribs r.uid (.geometry .wing)) = .ok (.ofFace f)
  /-- So it is in the frame of the aircraft. -/
  geometry_global : s.answer (.ribs r.uid (.geometry .global)) =
    .ok ((Shape.ofFace f).transformed s.design.wing.transformation)
  /-- It is between the points. -/
  midplanePoints : s.answer (.ribs r.uid (.midplanePoints 1 .wing)) = .ok (p, q)
  /-- So it is in the frame of the aircraft. -/
  midplanePoints_global : s.answer (.ribs r.uid (.midplanePoints 1 .global)) =
    .ok (s.design.wing.transformation.apply p, s.design.wing.transformation.apply q)

/-- **An explicit rib on the chord of a section is the face of this section.**  However the ends of
the rib are given, the section is found from both of them if no leading edge between other sections
passes it, and the face of the rib is neither cut nor trimmed. -/
theorem explicit_rib_in_section {s : Structure ℝ} (h : s.Reachable) (hwing : s.design.wing.Built)
    (hfaces : ∀ t ∈ s.design.wing.sections, ∃ f, s.design.wing.sectionFace t = .ok f)
    {x : WingSection ℝ} (hx : x ∈ s.design.wing.sections) (hsecluded : s.design.wing.Secluded x)
    {r : RibsDefinition ℝ} (hr : r ∈ s.design.ribs.items) {e : ExplicitRib ℝ}
    (he : r.positioning = .explicit e) (hstart : e.ribStart.isEdge) (hend : e.ribEnd.isEdge)
    {a b : ℝ} (ha : (Query.endPoint e.start).fresh s.design = .ok (x.chordPoint a))
    (hb : (Query.endPoint e.stop).fresh s.design = .ok (x.chordPoint b)) :
    ∃ f, s.RibInSection r x f (x.chordPoint a) (x.chordPoint b) := by
  have hs := sound_of_reachable h
  have hfound := hs.valid.ribs.get?_eq_some_iff.2 ⟨hr, rfl⟩
  have hmatch := match_self hs
  have hself := ribsMatch_self hs hfound
  have hends := Query.explicit_match he hself
  have hregular := hwing.regular
  have helement (xsi : ℝ) := hregular.elementAt?_chordPoint hx hsecluded xsi
  have hp := ha ▸ (Query.parallel_endPoint hmatch.lookupsMatch hends.start).yields_fresh
  have hq := hb ▸ (Query.parallel_endPoint hmatch.lookupsMatch hends.stop).yields_fresh
  obtain ⟨g, -, hg⟩ := Query.exists_geometry_of_faces hregular hfaces
  obtain ⟨f, hsection, hf⟩ := Query.exists_elementFace hregular hfaces hx
  have hcount : Query.Yields s.design (Query.ribCount r) (.ok 1) :=
    Query.yields_ribCount_explicit he
  have hcuts := Query.yields_cuts_explicit he hfound hstart hend hp hq (helement a) (helement b) hf
  have hcut := Query.yields_cut hmatch hself hcount hcuts Nat.one_pos
  have hgeometry := Query.yields_ribsGeometry_of_final hfound hcuts rfl hg
  refine ⟨f, ?_⟩
  constructor
  case elementAt_start => exact helement a
  case elementAt_stop => exact helement b
  case sectionFace => exact hsection
  case elementFace => exact (hf s.store hs.coherent).1
  case cut => exact answer_ribs hs hfound (q := .cut 1) hcut
  case count => exact answer_ribs hs hfound (q := .count) hcount
  case geometry =>
    exact answer_ribs hs hfound (q := .geometry .wing) (hgeometry.bind_ok (.pure _))
  case geometry_global =>
    exact answer_ribs hs hfound (q := .geometry .global)
      (hgeometry.bind_ok (.bind_wing (.pure _)))
  case midplanePoints =>
    exact answer_ribs hs hfound (q := .midplanePoints 1 .wing)
      (hcut.bind_ok (.bind_ok (.pure _) (.bind_ok (.pure _) (.pure _))))
  case midplanePoints_global =>
    exact answer_ribs hs hfound (q := .midplanePoints 1 .global)
      (hcut.bind_ok (.bind_ok (.bind_wing (.pure _)) (.bind_ok (.bind_wing (.pure _)) (.pure _))))

/-! ### A rib at the root -/

/-- A rib at the root, from a point with coordinates to a spar position. -/
noncomputable def rootRib : RibsDefinition ℝ :=
  ⟨"ribs", .explicit ⟨.etaXsi 0 0.8 none, .sparPosition "root", .leadingEdge, .trailingEdge⟩,
    .plain⟩

/-- The rib with its spar position. -/
noncomputable def rootDescription : Description ℝ := ⟨[rootPosition], [], [rootRib.declaration]⟩

/-- The leading edge of the outer segment stays away from the root. -/
theorem secluded_crankedRoot {w : Wing ℝ} (h : w.segments =
    [⟨Wing.crankedRoot, Wing.crankedMid, 0, 5⟩, ⟨Wing.crankedMid, Wing.crankedTip, 5, 10⟩]) :
    w.Secluded Wing.crankedRoot := by
  intro g hg hinner _ t ht _ hpasses
  rw [h, List.mem_pair] at hg
  obtain rfl | rfl := hg
  · exact hinner rfl
  · have hy := hpasses.1
    norm_num [Vec.lerp, Wing.crankedRoot, Wing.crankedMid, Wing.crankedTip] at hy
    norm_num at ht
    linarith

theorem solid_cranked : ∀ x ∈ [Wing.crankedRoot, Wing.crankedMid, Wing.crankedTip], x.Solid := by
  simp only [List.forall_mem_cons]
  refine ⟨⟨?_, ?_⟩, ⟨?_, ?_⟩, ⟨?_, ?_⟩, nofun⟩ <;>
    norm_num [Wing.crankedRoot, Wing.crankedMid, Wing.crankedTip, tolerance]

/-- The rib at the root of a wing with taper and sweep is the face of its inner section. -/
theorem explicit_rib_in_section_rootRib :
    ∃ w, Wing.ofSections "wing" [Wing.crankedRoot, Wing.crankedMid, Wing.crankedTip] = .ok w ∧
      ∃ s, ofDescription w rootDescription = .ok s ∧
        ∃ f, s.RibInSection rootRib Wing.crankedRoot f (Wing.crankedRoot.chordPoint 0.8)
          (Wing.crankedRoot.chordPoint 0.3) := by
  obtain ⟨w, hw, hsegments⟩ := Wing.exists_cranked
  obtain ⟨-, -, hsections, hprofile, -⟩ := Wing.parts_of_ofSections hw
  have hvalid : rootDescription.Valid := by decide
  obtain ⟨s, hs⟩ := exists_ofDescription w (Description.loadable_iff_valid.2 hvalid)
  obtain ⟨hdesign, hwing, hdesc, -⟩ := ofDescription_ok hs
  have hfound := hasRibs_of_ofDescription hs (r := rootRib) (List.mem_singleton.2 rfl)
  have hchecked : w.Checked := Wing.checked_of_ofSections hw w.transformation
  have hroot : WingEnd.inner.sectionOf w = Wing.crankedRoot := by
    unfold WingEnd.sectionOf Wing.firstSegment
    simp only [hsegments, List.head_cons]
  refine ⟨w, hw, s, hs, ?_⟩
  subst hwing
  refine explicit_rib_in_section (.load hs) (.ofSections hw) (fun t ht => ?_) ?_
    (secluded_crankedRoot hsegments) (hdesign.ribs.get?_eq_some_iff.1 hfound).1 rfl rfl rfl ?_ ?_
  · exact ⟨_, Wing.sectionFace_eq hprofile (solid_cranked t (hsections ▸ ht))⟩
  · rw [hsections]
    exact List.mem_cons_self
  · -- a point with coordinates
    rw [← hroot, ← WingEnd.point_eta .inner hchecked]
    rfl
  · -- a spar position
    have hpositions : s.design.positions.items = [rootPosition] :=
      congrArg Description.sparPositions hdesc
    have hposition : s.design.positions.get? "root" = some rootPosition :=
      hdesign.positions.get?_eq_some_iff.2 ⟨hpositions ▸ List.mem_singleton.2 rfl, rfl⟩
    have hpoint := Query.yields_midplanePoint (e := .inner) hchecked (p := rootPosition) (.inl rfl)
    rw [hroot] at hpoint
    have hend : Query.Yields s.design (Query.endPoint (.sparPosition "root")) (.ok _) :=
      (Query.yields_position hposition).bind_ok hpoint
    exact hend.fresh_eq

end Structure

end WingBox
