import WingBox.Proofs.Exact.Coordinates

/-!
# Section elements, with exact numbers

The wings are those that are `Wing.Built`, and what is checked when they are built makes them
`Wing.Regular`.  A section of such a wing is `Wing.Secluded` if no leading edge between two other
sections passes it.

* `Wing.Built.regular`: names are different, neighbours apart, and the profile has two sides;
* `Wing.Segment.solve_chordPoint`: a segment finds the chords at its ends exactly;
* `Wing.Regular.etaXsi_chordPoint`: so does the wing at a secluded section;
* `Wing.Regular.elementAt?_chordPoint`: and the section is the one that is found there.
-/

namespace WingBox

open Scalar

/-! ### Built wings -/

namespace Wing

/-- The wings that are made of sections, with any profile and at any place. -/
inductive Built : Wing ℝ → Prop
  /-- It is made of sections. -/
  | ofSections {uid : String} {sections : List (WingSection ℝ)} {w : Wing ℝ}
    (h : ofSections uid sections = .ok w) : Built w
  /-- It gets another profile. -/
  | withProfile {w w' : Wing ℝ} (hw : Built w) {profile : List (ProfilePoint ℝ)}
    (h : w.withProfile profile = .ok w') : Built w'
  /-- It is put elsewhere. -/
  | withTransformation {w : Wing ℝ} (hw : Built w) (m : Transform ℝ) :
    Built (w.withTransformation m)

/-- Sections have different names, some chord, and neighbours are apart in span; the profile has an
upper and a lower side. -/
structure Regular (w : Wing ℝ) : Prop where
  nodup_names : (w.sections.map (·.elementUid)).Nodup
  apart : w.sections.IsChain fun s t => tolerance ≤ s.spanDistance t
  chord : ∀ s ∈ w.sections, tolerance < s.chord
  three_le : 3 ≤ w.profile.length
  trailing_pos : 0 < w.trailingIndex
  trailing_lt : w.trailingIndex < w.profile.length

theorem Built.regular {w : Wing ℝ} (h : w.Built) : w.Regular := by
  induction h with
  | ofSections h =>
    obtain ⟨hlength, hpos, hlt⟩ := twoSided_of_ofSections h
    obtain ⟨hsections, hspan, rfl, -, -⟩ := parts_of_ofSections h
    exact {
      nodup_names := (nodup_of_checkSections hsections).1
      apart := isChain_of_checkSpan hspan
      chord := chord_of_checkSections hsections
      three_le := hlength
      trailing_pos := hpos
      trailing_lt := hlt }
  | withProfile _ h ih =>
    obtain ⟨rfl, hlength, hpos, hlt⟩ := parts_of_withProfile h
    exact { ih with
      three_le := hlength
      trailing_pos := hpos
      trailing_lt := hlt }
  | withTransformation _ m ih => exact { ih with }

/-- A wing has all its surfaces if its sections have faces. -/
theorem Regular.exists_geometry {w : Wing ℝ} (h : w.Regular)
    (hfaces : ∀ s ∈ w.sections, ∃ f, w.sectionFace s = .ok f) : ∃ g, w.geometry = .ok g :=
  TwoSided.exists_geometry ⟨h.three_le, h.trailing_pos, h.trailing_lt⟩ hfaces

end Wing

/-! ### Ends of segments -/

namespace WingEnd

/-- The section at the end of a segment. -/
def sectionIn (g : Wing.Segment ℝ) : WingEnd → WingSection ℝ
  | inner => g.inner
  | outer => g.outer

/-- The span at the end of a segment. -/
def spanIn (g : Wing.Segment ℝ) : WingEnd → ℝ
  | inner => g.lo
  | outer => g.hi

variable (e : WingEnd) (g : Wing.Segment ℝ)

theorem eta_nonneg : 0 ≤ e.eta := by cases e <;> norm_num [eta]

theorem eta_le_one : e.eta ≤ 1 := by cases e <;> norm_num [eta]

theorem point_eta_in (xsi : ℝ) : g.point e.eta xsi = (e.sectionIn g).chordPoint xsi := by
  cases e with
  | inner => exact Wing.point_zero g xsi
  | outer => exact Wing.point_one g xsi

theorem lo_add_eta_mul_size : g.lo + e.eta * g.size = e.spanIn g := by
  cases e with
  | inner => exact (congrArg (g.lo + ·) (zero_mul _)).trans (add_zero _)
  | outer => exact (congrArg (g.lo + ·) (one_mul _)).trans (add_sub_cancel _ _)

end WingEnd

namespace Wing

namespace Segment

variable {g : Segment ℝ}

/-- The search starts half way between the sections, so at an end it takes three steps, and the last
two find the point. -/
theorem refine_end (hspan : g.inner.spanDistance g.outer ≠ 0)
    (hinner : tolerance < g.inner.chord) (houter : tolerance < g.outer.chord) (e : WingEnd)
    (xsi : ℝ) : g.refine (g.point e.eta xsi) 30 0.5 0.5 = (e.eta, xsi) := by
  have hmiddle : tolerance < g.chordAt 0.5 := lt_chordAt hinner houter (by norm_num) (by norm_num)
  have hend := lt_chordAt hinner houter e.eta_nonneg e.eta_le_one
  have hstep : g.step? (g.point e.eta xsi) 0.5 0.5 =
      some (0.5 - e.eta, (0.5 - xsi) * g.chordAt e.eta / g.chordAt 0.5) :=
    step?_point hspan (tolerance_pos.trans hmiddle).ne'
  generalize (0.5 - xsi) * g.chordAt e.eta / g.chordAt 0.5 = dx at hstep
  have hlong : ¬ √((0.5 - e.eta) * (0.5 - e.eta) + dx * dx) < restingStep := by
    have hhalf : (0.5 - e.eta) * (0.5 - e.eta) = 0.5 * 0.5 := by
      cases e <;> norm_num [WingEnd.eta]
    have hle : (0.5 : ℝ) ≤ √((0.5 - e.eta) * (0.5 - e.eta) + dx * dx) :=
      Real.le_sqrt_of_sq_le (by linarith [sq (0.5 : ℝ), mul_self_nonneg dx])
    refine not_lt.2 (le_trans ?_ hle)
    norm_num [restingStep]
  rw [refine_succ hstep, if_neg hlong, sub_sub_cancel]
  exact refine_of_place hspan (tolerance_pos.trans hend).ne' 27

/-- A segment finds the chords at its ends. -/
theorem solve_chordPoint (hspan : g.inner.spanDistance g.outer ≠ 0)
    (hinner : tolerance < g.inner.chord) (houter : tolerance < g.outer.chord) (e : WingEnd)
    (xsi : ℝ) : g.solve ((e.sectionIn g).chordPoint xsi) = ⟨g, e.eta, xsi, 0⟩ := by
  rw [← e.point_eta_in g xsi]
  unfold solve
  rw [refine_end hspan hinner houter]
  dsimp only
  congr 1
  exact Vec.distance_self _

theorem inside_end (e : WingEnd) (xsi r : ℝ) : (⟨g, e.eta, xsi, r⟩ : Solution ℝ).Inside := by
  have hmargin : (0 : ℝ) ≤ segmentMargin := by norm_num [segmentMargin]
  exact ⟨(neg_nonpos.2 hmargin).trans e.eta_nonneg,
    e.eta_le_one.trans (le_add_of_nonneg_right hmargin)⟩

end Segment

theorem exists_sectionIn_segmentsFrom {s t : WingSection ℝ} {rest : List (WingSection ℝ)} (b : ℝ)
    {x : WingSection ℝ} (hx : x ∈ s :: t :: rest) :
    ∃ g ∈ segmentsFrom b (s :: t :: rest), ∃ e : WingEnd, e.sectionIn g = x := by
  induction rest generalizing s t b with
  | nil =>
    refine ⟨_, List.mem_cons_self, ?_⟩
    rcases List.mem_pair.1 hx with rfl | rfl
    · exact ⟨.inner, rfl⟩
    · exact ⟨.outer, rfl⟩
  | cons u rest ih =>
    rcases List.mem_cons.1 hx with rfl | hx
    · exact ⟨_, List.mem_cons_self, .inner, rfl⟩
    · obtain ⟨g, hg, hend⟩ := ih (b + s.spanDistance t) hx
      exact ⟨g, List.mem_cons_of_mem _ hg, hend⟩

/-- Every section is at an end of some segment. -/
theorem exists_sectionIn {w : Wing ℝ} {x : WingSection ℝ} (hx : x ∈ w.sections) :
    ∃ g ∈ w.segments, ∃ e : WingEnd, e.sectionIn g = x := by
  obtain ⟨uid, sections, hlength, profile, place, transformation⟩ := w
  match sections, hlength with
  | s :: t :: rest, _ => exact exists_sectionIn_segmentsFrom 0 hx

/-- If some segment finds a point within it, the solution of the wing is that of a segment which
does so too, and it is no farther away. -/
theorem exists_solve_eq {w : Wing ℝ} {p : Vec ℝ} {g₀ : Segment ℝ} (hg₀ : g₀ ∈ w.segments)
    (hinside : (g₀.solve p).Inside) :
    ∃ g ∈ w.segments, w.solve p = g.solve p ∧ (g.solve p).Inside ∧
      (g.solve p).residual ≤ (g₀.solve p).residual := by
  have hmem : g₀.solve p ∈ (w.segments.map (·.solve p)).filter fun s => s.Inside :=
    List.mem_filter.2 ⟨List.mem_map_of_mem hg₀, decide_eq_true hinside⟩
  obtain ⟨best, hbest, hmin, hleast⟩ :=
    exists_minBy? (fun s : Segment.Solution ℝ => s.residual) (List.ne_nil_of_mem hmem)
  obtain ⟨hmap, hbestInside⟩ := List.mem_filter.1 hbest
  obtain ⟨g, hg, rfl⟩ := List.mem_map.1 hmap
  refine ⟨g, hg, ?_, of_decide_eq_true hbestInside, hleast _ hmem⟩
  unfold solve
  dsimp only
  rw [hmin]

/-- The ends of segments are apart in span, so a section is found at its own. -/
theorem find?_spanIn {ss : List (WingSection ℝ)}
    (h : ss.IsChain fun s t => tolerance ≤ s.spanDistance t) {b : ℝ} {g : Segment ℝ}
    (hg : g ∈ segmentsFrom b ss) (e : WingEnd) :
    (List.zip (b :: (segmentsFrom b ss).map (·.hi)) ss).find?
        (fun (station, _) => Scalar.abs (station - e.spanIn g) < tolerance) =
      some (e.spanIn g, e.sectionIn g) := by
  -- nothing is away from itself
  have hself (y : ℝ) : |y - y| < tolerance := by
    rw [sub_self, abs_zero]
    exact tolerance_pos
  match ss with
  | [] | [_] => cases hg
  | s :: t :: rest =>
    have hst := (List.isChain_cons_cons.1 h).1
    have hfar {y : ℝ} (hy : b + s.spanDistance t ≤ y) : ¬ |b - y| < tolerance := by
      rw [not_lt, abs_sub_comm]
      exact le_trans (by linarith) (le_abs_self _)
    rcases List.mem_cons.1 hg with rfl | hg
    · cases e with
      | inner => exact List.find?_cons_of_pos (decide_eq_true (hself b))
      | outer =>
        refine (List.find?_cons_of_neg ?_).trans
          (List.find?_cons_of_pos (decide_eq_true (hself _)))
        exact mt of_decide_eq_true (hfar le_rfl)
    · obtain ⟨hlo, hsize⟩ := bounds_of_mem_segmentsFrom h.of_cons hg
      have hspan : b + s.spanDistance t ≤ e.spanIn g := by
        cases e with
        | inner => exact hlo
        | outer => exact hlo.trans (sub_nonneg.1 (tolerance_pos.le.trans hsize))
      refine (List.find?_cons_of_neg ?_).trans (find?_spanIn h.of_cons hg e)
      exact mt of_decide_eq_true (hfar hspan)

/-! ### Secluded sections -/

/-- No leading edge between two other sections passes the section, seen along the chords, also not
where it is prolonged by the margin of segments. -/
def Secluded (w : Wing ℝ) (x : WingSection ℝ) : Prop :=
  ∀ g ∈ w.segments, g.inner.elementUid ≠ x.elementUid → g.outer.elementUid ≠ x.elementUid →
    ∀ t, -1e-9 ≤ t → t ≤ 1 + 1e-9 →
      ¬ ((Vec.lerp g.inner.leadingEdge g.outer.leadingEdge t).y = x.leadingEdge.y ∧
        (Vec.lerp g.inner.leadingEdge g.outer.leadingEdge t).z = x.leadingEdge.z)

theorem eq_of_acrossDistance_le {a b : Vec ℝ} (h : a.acrossDistance b ≤ 0) :
    a.y = b.y ∧ a.z = b.z := by
  have hsum := Real.sqrt_eq_zero'.1 (h.antisymm (Real.sqrt_nonneg _))
  constructor
  · nlinarith [mul_self_nonneg (a.y - b.y), mul_self_nonneg (a.z - b.z)]
  · nlinarith [mul_self_nonneg (a.y - b.y), mul_self_nonneg (a.z - b.z)]

namespace Regular

variable {w : Wing ℝ} (h : w.Regular)
include h

theorem solve_chordPoint {g : Segment ℝ} (hg : g ∈ w.segments) (e : WingEnd) (xsi : ℝ) :
    g.solve ((e.sectionIn g).chordPoint xsi) = ⟨g, e.eta, xsi, 0⟩ := by
  obtain ⟨hsize, hinner, houter⟩ := of_mem_segmentsFrom hg
  obtain ⟨-, hspan⟩ := bounds_of_mem_segmentsFrom h.apart hg
  exact Segment.solve_chordPoint (hsize ▸ (tolerance_pos.trans_le hspan).ne') (h.chord _ hinner)
    (h.chord _ houter) e xsi

/-- **A secluded section is found from its chord.**  The nearest point is that of a segment with the
section at one of its ends, since a segment that passes the section would find another point. -/
theorem etaXsi_chordPoint {x : WingSection ℝ} (hx : x ∈ w.sections) (hsecluded : w.Secluded x)
    (xsi : ℝ) : ∃ g ∈ w.segments, ∃ e : WingEnd, e.sectionIn g = x ∧
      w.etaXsi (x.chordPoint xsi) = (e.spanIn g / w.totalSpan, xsi) := by
  obtain ⟨g₀, hg₀, e₀, hx₀⟩ := exists_sectionIn hx
  have hsolve₀ := h.solve_chordPoint hg₀ e₀ xsi
  rw [hx₀] at hsolve₀
  obtain ⟨g, hg, hchosen, hinside, hleast⟩ :=
    exists_solve_eq hg₀ (hsolve₀ ▸ Segment.inside_end e₀ xsi 0)
  rw [hsolve₀] at hleast
  obtain ⟨e, rfl⟩ : ∃ e : WingEnd, e.sectionIn g = x := by
    obtain ⟨-, hinner, houter⟩ := of_mem_segmentsFrom hg
    have hpasses := eq_of_acrossDistance_le
      ((Segment.acrossDistance_le_residual (g := g) _).trans hleast)
    rw [WingSection.chordPoint_y, WingSection.chordPoint_z] at hpasses
    by_contra hnot
    refine hsecluded g hg (fun hname => hnot ⟨.inner, ?_⟩) (fun hname => hnot ⟨.outer, ?_⟩) _
      hinside.1 hinside.2 hpasses
    · exact List.inj_on_of_nodup_map h.nodup_names hinner hx hname
    · exact List.inj_on_of_nodup_map h.nodup_names houter hx hname
  refine ⟨g, hg, e, rfl, ?_⟩
  unfold etaXsi
  rw [hchosen, h.solve_chordPoint hg]
  dsimp only
  rw [WingEnd.lo_add_eta_mul_size]

/-- The section that is found at a point of the chord of a secluded section is this section. -/
theorem elementAt?_chordPoint {x : WingSection ℝ} (hx : x ∈ w.sections)
    (hsecluded : w.Secluded x) (xsi : ℝ) :
    w.elementAt? (x.chordPoint xsi) = some x.elementUid := by
  obtain ⟨g, hg, e, hend, hcoordinates⟩ := h.etaXsi_chordPoint hx hsecluded xsi
  have hspan : e.spanIn g / w.totalSpan * w.totalSpan = e.spanIn g :=
    div_mul_cancel₀ _ (totalSpan_pos h.apart).ne'
  have hfind := find?_spanIn h.apart hg e
  unfold elementAt? stations
  rw [hcoordinates]
  dsimp only
  rw [hspan]
  unfold segments
  rw [hfind, ← hend]
  rfl

end Regular

end Wing

end WingBox
