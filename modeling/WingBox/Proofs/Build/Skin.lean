import Mathlib.Data.List.Rotate
import WingBox.Proofs.Fault.Traversal
import WingBox.Proofs.Space.Near
import WingBox.Wing.Geometry

/-!
# Skins of wings

The upper skin is ruled along the edges of the profile from the leading edge, where the profile
starts, to the trailing edge, and the lower skin along all others.  The last of these leads back to
the first point of the profile.

* `Wing.TwoSided`: both skins have edges, and these are edges of the profile;
* `Wing.TwoSided.skinOf_edgesOf`: a skin has the panels along its edges, in one face a segment;
* `Wing.Unfillable`: why a section has no face;
* `Wing.skins_cover`: between them the skins have every panel once, and with the faces at the ends
  they make up the shell, unless some section has no face.
-/

namespace WingBox

open Scalar

variable {K : Type} [Scalar K]

/-! ### Profiles -/

/-- The last of the elements with the greatest key is one of them. -/
theorem Scalar.mem_of_maxBy? {α : Type} {key : α → K} {xs : List α} {y : α}
    (h : maxBy? key xs = some y) : y ∈ xs := by
  match xs with
  | [] => cases h
  | x :: xs =>
    obtain rfl := Option.some.inj h
    clear h
    induction xs generalizing x with
    | nil => exact List.mem_singleton_self x
    | cons z zs ih =>
      rw [List.foldl_cons]
      split
      · exact List.mem_cons_of_mem _ (ih z)
      · exact List.Sublist.mem (ih x) ((List.sublist_cons_self z zs).cons_cons x)

namespace Wing

/-- The trailing edge is a point of the profile. -/
theorem trailingPlace_lt {profile : List (ProfilePoint K)} (h : trailingPlace profile ≠ 0) :
    trailingPlace profile < profile.length := by
  unfold trailingPlace at h ⊢
  generalize hmax : maxBy? (K := K) _ profile.zipIdx = last at h ⊢
  cases last with
  | none => exact absurd rfl h
  | some x =>
    obtain ⟨p, i⟩ := x
    have hplace := List.mk_mem_zipIdx_iff_getElem?.1 (mem_of_maxBy? hmax)
    exact (List.getElem?_eq_some_iff.1 hplace).1

/-- The profile has edges before and after the trailing edge. -/
structure TwoSided (w : Wing K) : Prop where
  three_le : 3 ≤ w.profile.length
  trailing_pos : 0 < w.trailingIndex
  trailing_lt : w.trailingIndex < w.profile.length

/-- What is checked before a wing is made of sections, and what it gets. -/
theorem parts_of_ofSections {uid : String} {sections : List (WingSection K)} {w : Wing K}
    (h : ofSections uid sections = .ok w) :
    checkSections uid [] sections = .ok () ∧ checkSpan uid sections = .ok () ∧
      w.sections = sections ∧ w.profile = hexagon ∧ w.trailingIndex = 3 := by
  unfold ofSections at h
  split at h
  · obtain ⟨⟨⟩, hsections, h⟩ := bind_eq_ok_iff.1 h
    obtain ⟨⟨⟩, hspan, h⟩ := bind_eq_ok_iff.1 h
    obtain rfl := Except.ok.inj h
    exact ⟨hsections, hspan, rfl, rfl, rfl⟩
  · cases h

/-- Sections that pass the checks make a wing. -/
theorem ofSections_eq {uid : String} {sections : List (WingSection K)} (h : 2 ≤ sections.length)
    (hsections : (checkSections uid [] sections).isOk = true)
    (hspan : (checkSpan uid sections).isOk = true) :
    ofSections uid sections = .ok ⟨uid, sections, h, hexagon, 3, .identity⟩ := by
  unfold ofSections
  rw [dif_pos h]
  obtain ⟨⟨⟩, hsections⟩ := exists_eq_ok_of_isOk hsections
  obtain ⟨⟨⟩, hspan⟩ := exists_eq_ok_of_isOk hspan
  rw [hsections, hspan]
  rfl

theorem twoSided_of_ofSections {uid : String} {sections : List (WingSection K)} {w : Wing K}
    (h : ofSections uid sections = .ok w) : w.TwoSided := by
  obtain ⟨-, -, -, hprofile, htrailing⟩ := parts_of_ofSections h
  have hlength : w.profile.length = 6 := by
    rw [hprofile]
    rfl
  exact ⟨by omega, by omega, by omega⟩

/-- A profile that is accepted has two sides. -/
theorem parts_of_withProfile {w w' : Wing K} {profile : List (ProfilePoint K)}
    (h : w.withProfile profile = .ok w') :
    w' = { w with profile, trailingIndex := trailingPlace profile } ∧ w'.TwoSided := by
  unfold withProfile at h
  split at h
  next first second third rest =>
    dsimp only at h
    split at h
    · cases h
    next hplace =>
      obtain rfl := Except.ok.inj h
      have hne := fun hzero => hplace (.inl hzero)
      exact ⟨rfl, Nat.le_add_left 3 rest.length, Nat.pos_of_ne_zero hne, trailingPlace_lt hne⟩
  next => cases h

end Wing

/-! ### Panels -/

namespace Loft

/-- The places of the edges in the profile. -/
def EdgeRange.places (r : EdgeRange) : List ℕ := List.range' r.first (r.stop - r.first)

theorem drop_take_range {a b n : ℕ} (hb : b ≤ n) :
    ((List.range n).take b).drop a = List.range' a (b - a) := by
  rw [List.take_range, min_eq_left hb, List.range_eq_range', List.drop_range', zero_add, mul_one]

omit [Scalar K] in
theorem sides_eq (ps : List (Vec K)) : sides ps = ps.zip (ps.rotate 1) := by
  cases ps with
  | nil => rfl
  | cons p ps => rw [sides, List.rotate_cons_succ, List.rotate_zero]

/-- Profiles of one number of points are joined along any of their edges. -/
theorem faces_eq {profiles : List (List (Vec K))} {n : ℕ} (h : ∀ p ∈ profiles, p.length = n)
    (htwo : 2 ≤ profiles.length) (hn : 3 ≤ n) {r : EdgeRange} (hr : r.first < r.stop)
    (hstop : r.stop ≤ n) :
    faces profiles r =
      .ok (List.zipWith (fun inner outer => ⟨strips r inner outer⟩) profiles profiles.tail) := by
  match profiles, htwo with
  | first :: second :: rest, _ =>
    obtain ⟨hfirst, hrest⟩ := List.forall_mem_cons.1 h
    refine (if_neg ?_).trans (if_neg ?_)
    · rintro (hshort | ⟨p, hp, hne⟩)
      · omega
      · exact hne ((hrest p hp).trans hfirst.symm)
    · omega

end Loft

namespace Wing

variable {w : Wing K} {s t : WingSection K}

/-- The edges of the profile along which a skin is ruled. -/
def edgesOf (w : Wing K) : Side → Loft.EdgeRange
  | .upper => ⟨0, w.trailingIndex⟩
  | .lower => ⟨w.trailingIndex, w.profile.length⟩

/-- The facets between two sections along an edge of the profile, of which the last one leads back
to the first point. -/
def panel (w : Wing K) (s t : WingSection K) (k : ℕ) : List (Triangle K) :=
  match w.profile[k]?, w.profile[(k + 1) % w.profile.length]? with
  | some p, some q => (Face.quad (p.place s) (q.place s) (p.place t) (q.place t)).facets
  | _, _ => []

theorem map_facets_sides (w : Wing K) (s t : WingSection K) :
    (List.zip (Loft.sides (w.profilePoints s)) (Loft.sides (w.profilePoints t))).map
        (fun ((a, b), (c, d)) => (Face.quad a b c d).facets) =
      (List.range w.profile.length).map (w.panel s t) := by
  refine List.ext_getElem ?_ fun k hk hk' => ?_
  · simp [Loft.sides_eq, profilePoints]
  · have hlt : k < w.profile.length := by simpa using hk'
    have hnext : (k + 1) % w.profile.length < w.profile.length := Nat.mod_lt _ (by omega)
    simp [Loft.sides_eq, profilePoints, List.getElem_rotate, panel, hlt, hnext]

theorem strips_eq {r : Loft.EdgeRange} (hstop : r.stop ≤ w.profile.length) :
    Loft.strips r (w.profilePoints s) (w.profilePoints t) = r.places.flatMap (w.panel s t) := by
  unfold Loft.strips Loft.EdgeRange.places
  dsimp only
  rw [← Loft.drop_take_range hstop, List.flatMap_def, List.flatMap_def, List.map_drop,
    List.map_take, map_facets_sides, List.map_drop, List.map_take]

/-- A skin panel by panel: between any two consecutive sections a face with the panels along the
edges of the side. -/
def paneled (w : Wing K) (side : Side) : Shape K :=
  .ofFaces (List.zipWith (fun s t => ⟨(w.edgesOf side).places.flatMap (w.panel s t)⟩)
    w.sections w.sections.tail)

theorem length_paneled (w : Wing K) (side : Side) :
    (w.paneled side).faces.length = w.sections.length - 1 := by
  refine List.length_zipWith.trans ?_
  rw [List.length_tail]
  exact min_eq_right (Nat.sub_le _ 1)

theorem skinOf_eq (hprofile : 3 ≤ w.profile.length) {r : Loft.EdgeRange} (hr : r.first < r.stop)
    (hstop : r.stop ≤ w.profile.length) : w.skinOf r = .ok (.ofFaces
      (List.zipWith (fun s t => ⟨r.places.flatMap (w.panel s t)⟩) w.sections w.sections.tail)) := by
  have hlength : ∀ p ∈ w.sections.map w.profilePoints, p.length = w.profile.length :=
    List.forall_mem_map.2 fun s _ => List.length_map _
  have htwo : 2 ≤ (w.sections.map w.profilePoints).length := by
    rw [List.length_map]
    exact w.two_le_length
  unfold skinOf
  rw [Loft.faces_eq hlength htwo hprofile hr hstop, ← List.map_tail, List.zipWith_map]
  simp only [strips_eq hstop]
  rfl

namespace TwoSided

variable (h : w.TwoSided)
include h

/-- A skin has the panels along its edges. -/
theorem skinOf_edgesOf (side : Side) : w.skinOf (w.edgesOf side) = .ok (w.paneled side) := by
  cases side with
  | upper => exact skinOf_eq h.three_le h.trailing_pos h.trailing_lt.le
  | lower => exact skinOf_eq h.three_le h.trailing_lt le_rfl

omit [Scalar K] in
theorem places_ne_nil (side : Side) : (w.edgesOf side).places ≠ [] := by
  have hpos := h.trailing_pos
  have hlt := h.trailing_lt
  unfold Loft.EdgeRange.places
  rw [ne_eq, List.range'_eq_nil_iff]
  cases side <;> dsimp only [edgesOf] <;> omega

omit [Scalar K] in
/-- Every edge of the profile belongs to one skin. -/
theorem places_append :
    (w.edgesOf .upper).places ++ (w.edgesOf .lower).places = List.range w.profile.length := by
  have hlt := h.trailing_lt
  unfold Loft.EdgeRange.places edgesOf
  dsimp only
  rw [List.range_eq_range', Nat.sub_zero]
  convert List.range'_append_1 using 2
  · rw [zero_add]
  · omega

end TwoSided

/-! ### Section faces -/

/-- Why a section has no face, and the error that says so. -/
inductive Unfillable (w : Wing K) (s : WingSection K) : Error K → Prop
  /-- All points of the profile coincide. -/
  | point (h : (Wire.distinct (w.profilePoints s)).length < 2) :
    Unfillable w s (.geometry w.uid .degenerateProfile)
  /-- Too few of them are distinct for a loop. -/
  | line {v : Wire K} (hv : Wire.ofPoints? (w.profilePoints s) = some v)
    (h : v.closed.points.dropLast.length < 3) :
    Unfillable w s (.geometry w.uid (.shape (.degenerate .fewBoundaryPoints)))
  /-- The loop has no area that counts. -/
  | flat {v : Wire K} (hv : Wire.ofPoints? (w.profilePoints s) = some v)
    (h : Face.fanAround (Face.sumOfPoints v.closed.points.dropLast /
      ((v.closed.points.dropLast.length : ℕ) : K)) v.start v.closed.points.dropLast = []) :
    Unfillable w s (.geometry w.uid (.shape (.degenerate .noArea)))
  /-- The leading edge has infinite or undefined coordinates, so nothing comes back to it. -/
  | overflow {p : ProfilePoint K} (hp : w.profile.head? = some p) (h : ¬ (p.place s).Finite) :
    Unfillable w s (.geometry w.uid (.shape .openWire))

/-- A boundary begins where the profile does. -/
theorem exists_start_eq {v : Wire K} (hv : Wire.ofPoints? (w.profilePoints s) = some v) :
    ∃ p, w.profile.head? = some p ∧ v.start = p.place s := by
  have hpoints := Wire.points_of_ofPoints? hv
  unfold profilePoints at hpoints
  cases hprofile : w.profile with
  | nil =>
    rw [hprofile] at hpoints
    exact absurd hpoints v.points_ne_nil
  | cons p ps =>
    rw [hprofile] at hpoints
    exact ⟨p, rfl, Wire.start_of_points hpoints⟩

/-- A section has a face unless its profile is degenerate there. -/
theorem unfillable_of_sectionFace [Vec.Measured K] {e : Error K} (h : w.sectionFace s = .error e) :
    w.Unfillable s e := by
  unfold sectionFace at h
  rcases bind_eq_error_iff.1 h with hnone | ⟨v, hv, h⟩
  · cases hv : Wire.ofPoints? (w.profilePoints s) with
    | none =>
      rw [hv] at hnone
      obtain rfl := Except.error.inj hnone
      refine .point (not_le.1 fun htwo => ?_)
      rw [Wire.ofPoints?, dif_pos htwo] at hv
      cases hv
    | some v =>
      rw [hv] at hnone
      cases hnone
  have hv := Error.require_eq_ok_iff.1 hv
  unfold Face.ofBoundary at h
  split at h
  next hclosed =>
    dsimp only at h
    split at h
    next hfew =>
      obtain rfl := Except.error.inj h
      exact .line hv hfew
    split at h
    next hfan =>
      obtain rfl := Except.error.inj h
      rw [Wire.start_closed] at hfan
      exact .flat hv hfan
    next => cases h
  next hopen =>
    obtain rfl := Except.error.inj h
    obtain ⟨p, hp, hstart⟩ := exists_start_eq hv
    refine .overflow hp fun hfinite => hopen (Wire.closed_closed ?_)
    rw [hstart]
    exact hfinite.near_self

theorem sectionFace_of_not_closed {v : Wire K} (hv : Wire.ofPoints? (w.profilePoints s) = some v)
    (h : ¬ v.closed.Closed) : w.sectionFace s = .error (.geometry w.uid (.shape .openWire)) := by
  unfold sectionFace
  rw [hv]
  change Error.ofShapeFault w.uid (Face.ofBoundary v.closed) = _
  rw [Face.ofBoundary, if_neg h]
  rfl

/-! ### The shell -/

theorem outer_getLast_segmentsFrom (b : K) (s t : WingSection K) (rest : List (WingSection K)) :
    ((segmentsFrom b (s :: t :: rest)).getLast nofun).outer = (s :: t :: rest).getLast nofun := by
  induction rest generalizing b s t with
  | nil => rfl
  | cons u rest ih => exact ih (b + s.spanDistance t) t u

/-- The sections at the ends are the first one and the last one. -/
theorem ends_of_sections (w : Wing K) : w.sections.head? = some w.firstSegment.inner ∧
    w.sections.getLast? = some w.lastSegment.outer := by
  obtain ⟨uid, sections, hlength, profile, place, transformation⟩ := w
  match sections, hlength with
  | s :: t :: rest, _ =>
    refine ⟨rfl, ?_⟩
    change (s :: t :: rest).getLast? = some _
    rw [List.getLast?_eq_some_getLast (List.cons_ne_nil s _),
      ← outer_getLast_segmentsFrom 0 s t rest]
    rfl

/-- The parts of the geometry are made one by one. -/
theorem parts_of_geometry {g : WingGeometry K} (hg : w.geometry = .ok g) :
    (∀ side, w.skinOf (w.edgesOf side) = .ok (g.skin side)) ∧
      w.sections.mapM w.sectionFace = .ok g.sectionFaces ∧
      w.sectionFace w.firstSegment.inner = .ok g.innerFace ∧
      w.sectionFace w.lastSegment.outer = .ok g.outerFace := by
  obtain ⟨upper, hupper, hg⟩ := bind_eq_ok_iff.1 hg
  obtain ⟨lower, hlower, hg⟩ := bind_eq_ok_iff.1 hg
  obtain ⟨faces, hfaces, hg⟩ := bind_eq_ok_iff.1 hg
  obtain ⟨innerFace, hinner, hg⟩ := bind_eq_ok_iff.1 hg
  obtain ⟨outerFace, houter, hg⟩ := bind_eq_ok_iff.1 hg
  obtain rfl := Except.ok.inj hg
  refine ⟨fun side => ?_, hfaces, hinner, houter⟩
  cases side with
  | upper => exact hupper
  | lower => exact hlower

theorem TwoSided.geometry_eq (h : w.TwoSided) : w.geometry = (do
    let sectionFaces ← w.sections.mapM w.sectionFace
    let innerFace ← w.sectionFace w.firstSegment.inner
    let outerFace ← w.sectionFace w.lastSegment.outer
    return ⟨w.paneled .upper, w.paneled .lower, sectionFaces, innerFace, outerFace⟩) := by
  have hupper := h.skinOf_edgesOf .upper
  have hlower := h.skinOf_edgesOf .lower
  unfold edgesOf at hupper hlower
  unfold geometry
  rw [hupper, hlower]
  rfl

/-- A wing has all its surfaces if its sections have faces. -/
theorem TwoSided.exists_geometry (h : w.TwoSided)
    (hfaces : ∀ s ∈ w.sections, ∃ f, w.sectionFace s = .ok f) : ∃ g, w.geometry = .ok g := by
  obtain ⟨hhead, hlast⟩ := w.ends_of_sections
  obtain ⟨faces, hsections⟩ := exists_mapM hfaces
  obtain ⟨innerFace, hinner⟩ := hfaces _ (List.mem_of_mem_head? hhead)
  obtain ⟨outerFace, houter⟩ := hfaces _ (List.mem_of_getLast? hlast)
  rw [h.geometry_eq, hsections, hinner, houter]
  exact ⟨_, rfl⟩

/-- Else some section has none. -/
theorem TwoSided.exists_sectionFace_error (h : w.TwoSided) {e : Error K}
    (he : w.geometry = .error e) : ∃ s ∈ w.sections, w.sectionFace s = .error e := by
  obtain ⟨hhead, hlast⟩ := w.ends_of_sections
  rw [h.geometry_eq] at he
  rcases bind_eq_error_iff.1 he with hsections | ⟨faces, -, he⟩
  · exact exists_error_of_mapM hsections
  rcases bind_eq_error_iff.1 he with hinner | ⟨innerFace, -, he⟩
  · exact ⟨_, List.mem_of_mem_head? hhead, hinner⟩
  rcases bind_eq_error_iff.1 he with houter | ⟨outerFace, -, he⟩
  · exact ⟨_, List.mem_of_getLast? hlast, houter⟩
  · cases he

theorem TwoSided.geometry_of_sectionFace (h : w.TwoSided) {ss : List (WingSection K)} {e : Error K}
    (hs : w.sections = s :: ss) (he : w.sectionFace s = .error e) : w.geometry = .error e := by
  rw [h.geometry_eq, hs, List.mapM_cons, he]
  rfl

/-- The faces at the ends of the shell are the first and the last section face. -/
theorem ends_of_sectionFaces {g : WingGeometry K} (hg : w.geometry = .ok g) :
    g.sectionFaces.head? = some g.innerFace ∧ g.sectionFaces.getLast? = some g.outerFace := by
  obtain ⟨hhead, hlast⟩ := w.ends_of_sections
  obtain ⟨-, hfaces, hinner, houter⟩ := parts_of_geometry hg
  have hall := forall₂_of_mapM hfaces
  obtain ⟨f, hf, hinner'⟩ := exists_head?_of_forall₂ hall hhead
  obtain ⟨f', hf', houter'⟩ := exists_getLast?_of_forall₂ hall hlast
  rw [hf, hf', Except.ok.inj (hinner'.symm.trans hinner), Except.ok.inj (houter'.symm.trans houter)]
  exact ⟨rfl, rfl⟩

/-- **The skins cover the wing.**  Whatever profile a wing has, no skin is refused, each has a face
for every segment, and every edge of the profile has its panels in one of the skins, once.  The
shell has the faces of the upper skin, those of the lower skin, and the faces of the first and the
last section.  There is none only if a section has no face, because too few points of the profile
are distinct there, because they enclose no area, or because the first of them is not finite. -/
theorem skins_cover [Vec.Measured K] {uid : String} {sections : List (WingSection K)}
    {w₀ w : Wing K} (h₀ : ofSections uid sections = .ok w₀)
    (h : w = w₀ ∨ ∃ profile, w₀.withProfile profile = .ok w) :
    (∀ side, (w.edgesOf side).places ≠ [] ∧ w.skinOf (w.edgesOf side) = .ok (w.paneled side) ∧
      (w.paneled side).faces.length = w.sections.length - 1) ∧
    (w.edgesOf .upper).places ++ (w.edgesOf .lower).places = List.range w.profile.length ∧
    (∀ g, w.geometry = .ok g → g.upper = w.paneled .upper ∧ g.lower = w.paneled .lower ∧
      w.sections.mapM w.sectionFace = .ok g.sectionFaces ∧
      ∃ inner outer, g.sectionFaces.head? = some inner ∧ g.sectionFaces.getLast? = some outer ∧
        g.loft.faces = g.upper.faces ++ g.lower.faces ++ [inner, outer] ∧
        g.loft.faces.length = 2 * (w.sections.length - 1) + 2) ∧
    ((∃ g, w.geometry = .ok g) ↔ ∀ s ∈ w.sections, ∃ f, w.sectionFace s = .ok f) ∧
    ∀ e, w.geometry = .error e →
      ∃ s ∈ w.sections, w.sectionFace s = .error e ∧ w.Unfillable s e := by
  have hsides : w.TwoSided := by
    rcases h with rfl | ⟨profile, h⟩
    · exact twoSided_of_ofSections h₀
    · exact (parts_of_withProfile h).2
  refine ⟨fun side => ⟨hsides.places_ne_nil side, hsides.skinOf_edgesOf side,
    w.length_paneled side⟩, hsides.places_append, fun g hg => ?_, ⟨?_, hsides.exists_geometry⟩,
    fun e he => ?_⟩
  · obtain ⟨hskins, hfaces, -, -⟩ := parts_of_geometry hg
    obtain ⟨hhead, hlast⟩ := ends_of_sectionFaces hg
    have hskin (side : Side) : g.skin side = w.paneled side :=
      Except.ok.inj ((hskins side).symm.trans (hsides.skinOf_edgesOf side))
    have hupper : g.upper = w.paneled .upper := hskin .upper
    have hlower : g.lower = w.paneled .lower := hskin .lower
    refine ⟨hupper, hlower, hfaces, _, _, hhead, hlast, rfl, ?_⟩
    rw [WingGeometry.loft, hupper, hlower, List.length_append, List.length_append, length_paneled,
      length_paneled, List.length_cons, List.length_singleton]
    omega
  · rintro ⟨g, hg⟩
    exact exists_of_mapM (parts_of_geometry hg).2.1
  · obtain ⟨s, hs, hface⟩ := hsides.exists_sectionFace_error he
    exact ⟨s, hs, hface, unfillable_of_sectionFace hface⟩

/-- With exact numbers a boundary is always closed. -/
example (w : Wing ℝ) (s : WingSection ℝ) :
    w.sectionFace s ≠ .error (.geometry w.uid (.shape .openWire)) := by
  intro h
  cases unfillable_of_sectionFace h with
  | overflow _ hp => exact hp (Vec.finite _)

/-- A wing of one segment. -/
def plainWing : Wing Float :=
  ⟨"wing", [⟨"root", ⟨0, 0, 0⟩, 2, 0.2⟩, ⟨"tip", ⟨0, 5, 0⟩, 2, 0.2⟩], by decide, hexagon, 3,
    .identity⟩

/-- It has a shell of four faces. -/
theorem skins_cover_plain : ∃ g, ofSections "wing" plainWing.sections = .ok plainWing ∧
    plainWing.geometry = .ok g ∧ (plainWing.edgesOf .upper).places = [0, 1, 2] ∧
      (plainWing.edgesOf .lower).places = [3, 4, 5] ∧ g.loft.faces.length = 4 := by
  have hw : ofSections "wing" plainWing.sections = .ok plainWing :=
    ofSections_eq plainWing.two_le_length (by decide +kernel) (by decide +kernel)
  have hfaces : ∀ s ∈ plainWing.sections, (plainWing.sectionFace s).isOk = true := by
    decide +kernel
  obtain ⟨-, -, hshell, hbuilt, -⟩ := skins_cover hw (.inl rfl)
  obtain ⟨g, hg⟩ := hbuilt.2 fun s hs => exists_eq_ok_of_isOk (hfaces s hs)
  obtain ⟨-, -, -, _, _, -, -, -, hcount⟩ := hshell g hg
  exact ⟨g, hw, hg, rfl, rfl, hcount⟩

/-- Two sections with a very long chord. -/
def longSections : List (WingSection Float) :=
  [⟨"root", ⟨0, 0, 0⟩, 1e300, 0.2⟩, ⟨"tip", ⟨0, 5, 0⟩, 1e300, 0.2⟩]

/-- A profile of which the first point is too far ahead to be placed in them. -/
def farProfile : List (ProfilePoint Float) := [⟨-1e10, 0⟩, ⟨1, 0.5⟩, ⟨1, -0.5⟩]

/-- The boundary of the first of the sections with this profile. -/
def farBoundary : Wire Float :=
  ⟨Wire.distinct (farProfile.map (·.place ⟨"root", ⟨0, 0, 0⟩, 1e300, 0.2⟩)), by decide +kernel⟩

/-- Where the leading edge is infinitely far ahead the boundary of a section stays open, although
all its points are distinct. -/
theorem geometry_openWire_far : ∃ w₀ w, ofSections "wing" longSections = .ok w₀ ∧
    w₀.withProfile farProfile = .ok w ∧
      (∀ s ∈ w.sections, (Wire.distinct (w.profilePoints s)).length = w.profile.length) ∧
      w.geometry = .error (.geometry "wing" (.shape .openWire)) := by
  have hw : ofSections "wing" longSections =
      .ok ⟨"wing", longSections, by decide, hexagon, 3, .identity⟩ :=
    ofSections_eq _ (by decide +kernel) (by decide +kernel)
  have hstart : ¬ (trailingPlace farProfile = 0 ∨ ∃ p ∈ farProfile, p.x < (-1e10 : Float)) := by
    decide +kernel
  have hprofile (w : Wing Float) : w.withProfile farProfile =
      .ok { w with profile := farProfile, trailingIndex := trailingPlace farProfile } := by
    unfold withProfile farProfile
    exact if_neg hstart
  refine ⟨_, _, hw, hprofile _, by decide +kernel, ?_⟩
  refine TwoSided.geometry_of_sectionFace (parts_of_withProfile (hprofile _)).2 rfl ?_
  exact sectionFace_of_not_closed (v := farBoundary) (dif_pos _) (by decide +kernel)

end Wing

end WingBox
