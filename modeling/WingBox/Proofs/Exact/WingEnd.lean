import WingBox.Proofs.Exact.Section

/-!
# The ends of a wing, with exact numbers

A wing that is made of sections is `Wing.Checked`: its sections have names of their own and
neighbours are apart.  A `WingEnd` is one of its two ends, with a section, a span coordinate and
one of the faces that close the shell.

* `WingEnd.point_eta`: the chord at the span coordinate of an end is that of the section there;
* `WingEnd.pointOf_chordwiseLine`: a line through all chords ends on it;
* `WingEnd.distance_pointOf_le`: a parameter at an end of a line leads close to the end;
* `Wing.exists_ample_of_geometry`: a wing that has all its surfaces has facets.
-/

namespace WingBox

open Scalar

namespace Wing

/-! ### Checked wings -/

/-- The wing has the default profile, sections with different names, and neighbours apart in
span. -/
structure Checked (w : Wing ℝ) : Prop where
  profile : w.profile = hexagon
  nodup_names : (w.sections.map (·.elementUid)).Nodup
  apart : w.sections.IsChain fun s t => tolerance ≤ s.spanDistance t

theorem nodup_of_checkSections {wing : String} {seen : List String} {ss : List (WingSection ℝ)}
    (h : checkSections wing seen ss = .ok ()) :
    (ss.map (·.elementUid)).Nodup ∧ ∀ s ∈ ss, s.elementUid ∉ seen := by
  induction ss generalizing seen with
  | nil => exact ⟨List.nodup_nil, nofun⟩
  | cons s ss ih =>
    unfold checkSections at h
    split at h
    · cases h
    next hseen =>
    split at h
    · cases h
    obtain ⟨hnodup, hnew⟩ := ih h
    rw [List.map_cons, List.nodup_cons, List.forall_mem_cons]
    refine ⟨⟨fun hs => ?_, hnodup⟩, hseen, fun t ht => ?_⟩
    · obtain ⟨t, ht, heq⟩ := List.mem_map.1 hs
      exact hnew t ht (heq ▸ List.mem_cons_self)
    · exact fun hmem => hnew t ht (List.mem_cons_of_mem _ hmem)

theorem isChain_of_checkSpan {wing : String} {ss : List (WingSection ℝ)}
    (h : checkSpan wing ss = .ok ()) :
    ss.IsChain fun s t => tolerance ≤ s.spanDistance t := by
  match ss with
  | [] => exact .nil
  | [_] => exact .singleton _
  | s :: t :: rest =>
    unfold checkSpan at h
    split at h
    · cases h
    next hst => exact .cons_cons (not_lt.1 hst) (isChain_of_checkSpan h)

/-- A wing that is made of sections is checked, wherever it is put. -/
theorem checked_of_ofSections {uid : String} {sections : List (WingSection ℝ)} {w : Wing ℝ}
    (h : ofSections uid sections = .ok w) (m : Transform ℝ) : (w.withTransformation m).Checked := by
  obtain ⟨hsections, hspan, rfl, hprofile, -⟩ := parts_of_ofSections h
  exact ⟨hprofile, (nodup_of_checkSections hsections).1, isChain_of_checkSpan hspan⟩

/-! ### Segments -/

/-- Every segment starts no earlier than the ones before it end, and has some span. -/
theorem bounds_of_mem_segmentsFrom {ss : List (WingSection ℝ)}
    (h : ss.IsChain fun s t => tolerance ≤ s.spanDistance t) {b : ℝ} {g : Segment ℝ}
    (hg : g ∈ segmentsFrom b ss) : b ≤ g.lo ∧ tolerance ≤ g.size := by
  induction h generalizing b with
  | nil => cases hg
  | singleton s => cases hg
  | @cons_cons s t rest hst _ ih =>
    rcases List.mem_cons.1 hg with rfl | hg
    · refine ⟨le_rfl, ?_⟩
      change tolerance ≤ b + s.spanDistance t - b
      rwa [add_sub_cancel_left]
    · obtain ⟨hlo, hsize⟩ := ih hg
      exact ⟨by linarith [tolerance_pos], hsize⟩

theorem point_zero (g : Segment ℝ) (xsi : ℝ) : g.point 0 xsi = g.inner.chordPoint xsi := by
  unfold Segment.point WingSection.chordPoint Vec.lerp
  module

theorem point_one (g : Segment ℝ) (xsi : ℝ) : g.point 1 xsi = g.outer.chordPoint xsi := by
  unfold Segment.point WingSection.chordPoint Vec.lerp
  module

theorem locate_of_find? {w : Wing ℝ} {eta : ℝ} {g : Segment ℝ}
    (h : w.segments.reverse.find? (·.lo ≤ eta * w.totalSpan) = some g) :
    w.locate eta = (g, (eta * w.totalSpan - g.lo) / g.size) := by
  unfold locate
  dsimp only
  rw [h]
  rfl

theorem point_of_locate {w : Wing ℝ} {eta t : ℝ} {g : Segment ℝ} (h : w.locate eta = (g, t))
    (xsi : ℝ) : w.point eta xsi = g.point t xsi := by
  unfold point
  rw [h]

namespace Checked

variable {w : Wing ℝ} (h : w.Checked)
include h

theorem locate_zero : w.locate 0 = (w.firstSegment, 0) := by
  have hfirst : w.firstSegment.lo = 0 ∧
      w.segments.reverse.find? (·.lo ≤ 0 * w.totalSpan) = some w.firstSegment := by
    obtain ⟨uid, sections, hlength, profile, place, transformation⟩ := w
    match sections, hlength with
    | s :: t :: rest, _ =>
      have hrest : (segmentsFrom (0 + s.spanDistance t) (t :: rest)).reverse.find? (·.lo ≤ 0) =
          none := by
        rw [List.find?_eq_none]
        intro g hg
        obtain ⟨hlo, -⟩ := bounds_of_mem_segmentsFrom h.apart.of_cons (List.mem_reverse.1 hg)
        have hst := (List.isChain_cons_cons.1 h.apart).1
        have hpos := tolerance_pos
        rw [decide_eq_true_eq, not_le]
        linarith
      rw [zero_mul]
      refine ⟨rfl, ?_⟩
      change (_ :: segmentsFrom (0 + s.spanDistance t) (t :: rest)).reverse.find? (·.lo ≤ 0) = _
      rw [List.reverse_cons, List.find?_append, hrest, Option.none_or]
      exact List.find?_cons_of_pos (decide_eq_true le_rfl)
  rw [locate_of_find? hfirst.2, hfirst.1, zero_mul, sub_zero, zero_div]

theorem locate_one : w.locate 1 = (w.lastSegment, 1) := by
  have hsize : tolerance ≤ w.lastSegment.size :=
    (bounds_of_mem_segmentsFrom h.apart (List.getLast_mem w.segments_ne_nil)).2
  have hpos := tolerance_pos.trans_le hsize
  have htotal : w.lastSegment.lo ≤ 1 * w.totalSpan := by
    rw [one_mul]
    exact sub_nonneg.1 hpos.le
  have hlast : w.segments.reverse.find? (·.lo ≤ 1 * w.totalSpan) = some w.lastSegment := by
    rw [← List.dropLast_append_getLast w.segments_ne_nil, List.reverse_append]
    exact List.find?_cons_of_pos (decide_eq_true htotal)
  have hwhole : 1 * w.totalSpan - w.lastSegment.lo = w.lastSegment.size := by rw [one_mul]; rfl
  rw [locate_of_find? hlast, hwhole, div_self hpos.ne']

end Checked

/-! ### Chords -/

/-- Points at one place of two chords are no nearer than the chords. -/
theorem spanDistance_le (s t : WingSection ℝ) (xsi : ℝ) :
    s.spanDistance t ≤ (t.chordPoint xsi - s.chordPoint xsi).norm := by
  refine Real.sqrt_le_sqrt ?_
  unfold Vec.normSq Vec.dot
  rw [Vec.sub_y, Vec.sub_z, Vec.sub_y, Vec.sub_z, WingSection.chordPoint_y,
    WingSection.chordPoint_y, WingSection.chordPoint_z, WingSection.chordPoint_z]
  linarith [mul_self_nonneg (t.chordPoint xsi - s.chordPoint xsi).x]

/-- A section is found by its name. -/
theorem section?_of_mem {w : Wing ℝ} (h : (w.sections.map (·.elementUid)).Nodup)
    {s : WingSection ℝ} (hs : s ∈ w.sections) :
    ∃ i, w.sections[i]? = some s ∧ w.section? s.elementUid = .ok (i, s) := by
  unfold section?
  cases hfound : w.sections.zipIdx.find? (fun (t, _) => t.elementUid == s.elementUid) with
  | none =>
    obtain ⟨i, hi, rfl⟩ := List.mem_iff_getElem.1 hs
    have hmem : (w.sections[i], i) ∈ w.sections.zipIdx :=
      List.mk_mem_zipIdx_iff_getElem?.2 (List.getElem?_eq_getElem hi)
    exact absurd (beq_self_eq_true w.sections[i].elementUid) (List.find?_eq_none.1 hfound _ hmem)
  | some x =>
    obtain ⟨t, i⟩ := x
    have hplace : w.sections[i]? = some t :=
      List.mk_mem_zipIdx_iff_getElem?.1 (List.mem_of_find?_eq_some hfound)
    have hbeq : (t.elementUid == s.elementUid) = true := List.find?_some (a := (t, i)) hfound
    obtain rfl := List.inj_on_of_nodup_map h (List.mem_of_getElem? hplace) hs (eq_of_beq hbeq)
    exact ⟨i, hplace, rfl⟩

/-- The chord of a section is found by its name. -/
theorem elementPoint_of_mem {w : Wing ℝ} (h : (w.sections.map (·.elementUid)).Nodup)
    {s : WingSection ℝ} (hs : s ∈ w.sections) (xsi : ℝ) :
    w.elementPoint s.elementUid xsi = .ok (s.chordPoint xsi) := by
  obtain ⟨i, -, hi⟩ := section?_of_mem h hs
  rw [elementPoint, hi]
  rfl

end Wing

/-! ### Ends -/

/-- One of the two ends of a wing. -/
inductive WingEnd where
  /-- The end at the first section. -/
  | inner
  /-- The end at the last section. -/
  | outer

namespace WingEnd

/-- The end that is nearer to a span coordinate, seen from within the tolerance. -/
noncomputable def ofEta (eta : ℝ) : WingEnd := if eta < tolerance then inner else outer

/-- The coordinate along the span. -/
noncomputable def eta : WingEnd → ℝ
  | inner => 0
  | outer => 1

/-- The section at the end. -/
noncomputable def sectionOf (w : Wing ℝ) : WingEnd → WingSection ℝ
  | inner => w.firstSegment.inner
  | outer => w.lastSegment.outer

/-- The face that closes the shell at the end. -/
def faceOf (g : WingGeometry ℝ) : WingEnd → Face ℝ
  | inner => g.innerFace
  | outer => g.outerFace

/-- What stands first or last in a list. -/
def ofList? {α : Type} (xs : List α) : WingEnd → Option α
  | inner => xs.head?
  | outer => xs.getLast?

/-- The end of a wire that runs from the inner to the outer end. -/
noncomputable def pointOf (w : Wire ℝ) (e : WingEnd) : Vec ℝ := w.pointAt e.eta

variable (e : WingEnd)

theorem clamp_eta : clamp 0 1 e.eta = e.eta := by
  cases e with
  | inner => exact clamp_of_mem le_rfl zero_le_one
  | outer => exact clamp_of_mem zero_le_one le_rfl

/-- The end of a wire is its first or last point. -/
theorem pointOf_eq {w : Wire ℝ} (hw : w.Spaced) {p : Vec ℝ} (hp : e.ofList? w.points = some p) :
    e.pointOf w = p := by
  cases e with
  | inner =>
    obtain ⟨ps, hps⟩ := List.head?_eq_some_iff.1 hp
    exact (Wire.pointAt_start hw).trans (Wire.start_of_points hps)
  | outer =>
    obtain ⟨ps, hps⟩ := List.getLast?_eq_some_iff.1 hp
    exact (Wire.pointAt_stop hw).trans (Wire.stop_of_points hps)

/-- A parameter at an end leads to a point at this end. -/
theorem distance_pointOf_le {w : Wire ℝ} (hw : w.Spaced) {eta : ℝ}
    (heta : eta < tolerance ∨ 1 - tolerance < eta) :
    (w.pointAt eta).distance ((ofEta eta).pointOf w) ≤ tolerance * w.length := by
  refine (Wire.distance_pointAt_le hw eta (ofEta eta).eta).trans ?_
  refine mul_le_mul_of_nonneg_right ?_ hw.length_pos.le
  have hpos := tolerance_pos
  have hone : (tolerance : ℝ) ≤ 1 := by
    unfold tolerance
    norm_num
  rw [clamp_eta, clamp_eq]
  unfold ofEta
  split
  next hinner =>
    change |max 0 (min 1 eta) - 0| ≤ tolerance
    rw [sub_zero, abs_of_nonneg (le_max_left _ _)]
    exact max_le hpos.le ((min_le_right _ _).trans hinner.le)
  next hinner =>
    have hmin : 1 - tolerance ≤ min 1 eta :=
      le_min (sub_le_self _ hpos.le) (heta.resolve_left hinner).le
    change |max 0 (min 1 eta) - 1| ≤ tolerance
    rw [max_eq_right ((sub_nonneg.2 hone).trans hmin), abs_sub_comm,
      abs_of_nonneg (sub_nonneg.2 (min_le_left _ _))]
    exact sub_le_comm.1 hmin

section Checked

variable {w : Wing ℝ} (h : w.Checked)

theorem sectionOf_eq : e.ofList? w.sections = some (e.sectionOf w) := by
  cases e with
  | inner => exact w.ends_of_sections.1
  | outer => exact w.ends_of_sections.2

theorem sectionOf_mem : e.sectionOf w ∈ w.sections := by
  have heq := sectionOf_eq e (w := w)
  cases e with
  | inner => exact List.mem_of_mem_head? heq
  | outer => exact List.mem_of_getLast? heq

include h

/-- The chord at an end of the wing is that of the section there. -/
theorem point_eta (xsi : ℝ) : w.point e.eta xsi = (e.sectionOf w).chordPoint xsi := by
  cases e with
  | inner => exact (Wing.point_of_locate h.locate_zero xsi).trans (Wing.point_zero _ _)
  | outer => exact (Wing.point_of_locate h.locate_one xsi).trans (Wing.point_one _ _)

omit e in
theorem isChain_chordPoint (xsi : ℝ) :
    (w.sections.map (·.chordPoint xsi)).IsChain fun p q => tolerance ≤ (q - p).norm :=
  List.isChain_map_of_isChain _ (fun s t hst => hst.trans (Wing.spanDistance_le s t xsi)) h.apart

omit e in
/-- There is a line through the points at one place of all chords. -/
theorem exists_chordwiseLine (xsi : ℝ) :
    ∃ v, w.chordwiseLine xsi = .ok v ∧ v.points = w.sections.map (·.chordPoint xsi) := by
  have hdistinct := Wire.distinct_of_isChain (isChain_chordPoint h xsi)
  have hlength : 2 ≤ (Wire.distinct (w.sections.map (·.chordPoint xsi))).length := by
    rw [hdistinct, List.length_map]
    exact w.two_le_length
  refine ⟨⟨_, hlength⟩, ?_, hdistinct⟩
  unfold Wing.chordwiseLine Wire.ofPoints?
  rw [dif_pos hlength]
  rfl

/-- A line through all chords ends on those of the sections at the ends. -/
theorem pointOf_chordwiseLine {xsi : ℝ} {v : Wire ℝ}
    (hv : Wire.ofPoints? (w.sections.map (·.chordPoint xsi)) = some v) :
    e.pointOf v = (e.sectionOf w).chordPoint xsi := by
  refine pointOf_eq e (Wire.spaced_of_ofPoints? hv) ?_
  rw [Wire.points_of_ofPoints? hv, Wire.distinct_of_isChain (isChain_chordPoint h xsi)]
  have heq := sectionOf_eq e (w := w)
  cases e with
  | inner => exact (List.head?_map ..).trans (congrArg _ heq)
  | outer => exact (List.getLast?_map ..).trans (congrArg _ heq)

end Checked

end WingEnd

/-! ### The shell -/

namespace Wing

/-- The faces of a wing are those of its sections, also where they close the shell. -/
theorem faces_of_geometry {w : Wing ℝ} {g : WingGeometry ℝ} (hg : w.geometry = .ok g) :
    w.sections.mapM w.sectionFace = .ok g.sectionFaces ∧
      ∀ e : WingEnd, w.sectionFace (e.sectionOf w) = .ok (e.faceOf g) := by
  obtain ⟨-, hfaces, hinner, houter⟩ := parts_of_geometry hg
  refine ⟨hfaces, fun e => ?_⟩
  cases e with
  | inner => exact hinner
  | outer => exact houter

/-- The facets that close the wing at an end are some of the shell. -/
theorem mem_triangles_loft (e : WingEnd) {g : WingGeometry ℝ} {t : Triangle ℝ}
    (ht : t ∈ (e.faceOf g).facets) : t ∈ g.loft.triangles := by
  refine List.mem_flatMap.2 ⟨_, List.mem_append_right _ ?_, ht⟩
  cases e <;> simp [WingEnd.faceOf]

/-- The shell is closed by facets. -/
theorem exists_ample_of_geometry {w : Wing ℝ} {g : WingGeometry ℝ} (hg : w.geometry = .ok g) :
    ∃ t ∈ g.loft.triangles, t.Ample := by
  obtain ⟨boundary, -, hface⟩ := bind_eq_ok_iff.1 ((faces_of_geometry hg).2 .inner)
  cases hfilled : Face.ofBoundary boundary.closed with
  | error e =>
    rw [hfilled] at hface
    cases hface
  | ok f =>
    rw [hfilled] at hface
    obtain rfl : f = g.innerFace := Except.ok.inj hface
    obtain ⟨hne, hample⟩ := Face.ample_of_ofBoundary hfilled
    obtain ⟨t, ht⟩ := List.exists_mem_of_ne_nil _ hne
    exact ⟨t, mem_triangles_loft .inner ht, hample t ht⟩

end Wing

end WingBox
