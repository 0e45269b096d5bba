import WingBox.Proofs.Exact.WingEnd

/-!
# From points back to coordinates, with exact numbers

The coordinates of a point of the midplane are searched on every segment by steps that solve the
linear equations on the tangent plane, and the nearest point within its segment is taken.

* `Wing.Segment.step?_point`: the first step finds the place between the sections, since the
  chords are parallel, and the second one the place along the chord;
* `Wing.Segment.refine_point`: so the search comes to rest, after one step already if that was
  small enough;
* `Wing.etaXsi_point`: among all segments those are found that hold the point.
-/

namespace WingBox

open Scalar

/-- The distance of two points across the chords. -/
noncomputable def Vec.acrossDistance (a b : Vec ℝ) : ℝ :=
  √((a.y - b.y) * (a.y - b.y) + (a.z - b.z) * (a.z - b.z))

theorem Vec.acrossDistance_le (a b : Vec ℝ) : a.acrossDistance b ≤ (a - b).norm := by
  refine Real.sqrt_le_sqrt ?_
  unfold normSq dot
  rw [sub_y, sub_z]
  linarith [mul_self_nonneg (a - b).x]

theorem Vec.abs_y_sub_le_acrossDistance (a b : Vec ℝ) : |a.y - b.y| ≤ a.acrossDistance b :=
  Real.abs_le_sqrt (by linarith [sq (a.y - b.y), mul_self_nonneg (a.z - b.z)])

namespace Wing

namespace Segment

variable (g : Segment ℝ)

/-! ### Points of a segment -/

/-- The chord at a place between the sections. -/
noncomputable def chordAt (t : ℝ) : ℝ := g.inner.chord + t * (g.outer.chord - g.inner.chord)

theorem point_x (t xsi : ℝ) : (g.point t xsi).x = g.inner.leadingEdge.x +
    t * (g.outer.leadingEdge.x - g.inner.leadingEdge.x) + xsi * g.chordAt t := by
  simp [point, Vec.lerp, WingSection.trailingEdge, chordAt, Vec.xAxis]
  ring

theorem point_y (t xsi : ℝ) : (g.point t xsi).y = g.inner.leadingEdge.y +
    t * (g.outer.leadingEdge.y - g.inner.leadingEdge.y) := by
  simp [point, Vec.lerp, WingSection.trailingEdge, Vec.xAxis]
  ring

theorem point_z (t xsi : ℝ) : (g.point t xsi).z = g.inner.leadingEdge.z +
    t * (g.outer.leadingEdge.z - g.inner.leadingEdge.z) := by
  simp [point, Vec.lerp, WingSection.trailingEdge, Vec.xAxis]
  ring

/-! ### Steps -/

section Steps

variable {g} {t₀ x₀ t x : ℝ}

/-- Since the chords are parallel, one step finds the place between the sections. -/
theorem step?_point (hspan : g.inner.spanDistance g.outer ≠ 0) (hchord : g.chordAt t ≠ 0) :
    g.step? (g.point t₀ x₀) t x = some (t - t₀, (x - x₀) * g.chordAt t₀ / g.chordAt t) := by
  set l := g.outer.leadingEdge - g.inner.leadingEdge with hl
  set n := l.y * l.y + l.z * l.z with hn
  have hn0 : n ≠ 0 := fun hzero => hspan ((congrArg Real.sqrt hzero).trans Real.sqrt_zero)
  set c := g.chordAt t with hc
  set c₀ := g.chordAt t₀ with hc₀
  -- the derivatives along the span and along the chord
  set a := l.x + x * (g.outer.chord - g.inner.chord) with ha
  have hjt : (1 - x) • (g.outer.leadingEdge - g.inner.leadingEdge) +
      x • (g.outer.trailingEdge - g.inner.trailingEdge) = ⟨a, l.y, l.z⟩ := by
    ext <;> simp [WingSection.trailingEdge, Vec.xAxis, ha, hl] <;> ring
  have hjx : g.point t 1 - g.point t 0 = ⟨c, 0, 0⟩ := by
    ext <;> simp [point_x, point_y, point_z, hc]
  have hr : g.point t x - g.point t₀ x₀ =
      ⟨(t - t₀) * a + (x - x₀) * c₀, (t - t₀) * l.y, (t - t₀) * l.z⟩ := by
    ext <;> simp [point_x, point_y, point_z, hc₀, ha, hl, chordAt] <;> ring
  have hdet : (a * a + l.y * l.y + l.z * l.z) * (c * c) - c * a * (a * c) = c * c * n := by
    rw [hn]
    ring
  unfold step?
  dsimp only
  rw [hjt, hjx, hr]
  simp only [Vec.dot, mul_zero, zero_mul, add_zero, hdet]
  rw [if_neg (by simpa using ⟨hchord, hn0⟩)]
  have hu (r : ℝ) : a * r + l.y * ((t - t₀) * l.y) + l.z * ((t - t₀) * l.z) =
      a * r + (t - t₀) * n := by
    rw [hn]
    ring
  have ha2 : a * a + l.y * l.y + l.z * l.z = a * a + n := by rw [hn, add_assoc]
  rw [hu, ha2]
  refine congrArg some (Prod.ext ?_ ?_)
  · dsimp only
    field_simp
    ring
  · dsimp only
    field_simp
    ring

theorem restingStep_pos : (0 : ℝ) < restingStep := by
  unfold restingStep
  norm_num

/-- What is done with a step. -/
theorem refine_succ {p : Vec ℝ} {n : ℕ} {dt dx : ℝ} (h : g.step? p t x = some (dt, dx)) :
    g.refine p (n + 1) t x =
      if √(dt * dt + dx * dx) < restingStep then (t - dt, x - dx)
      else g.refine p n (t - dt) (x - dx) := by
  rw [refine, h]
  rfl

variable (hspan : g.inner.spanDistance g.outer ≠ 0)
include hspan

/-- Where the place between the sections is found already, the next step finds the place along the
chord. -/
theorem refine_of_place (hchord : g.chordAt t₀ ≠ 0) (n : ℕ) :
    g.refine (g.point t₀ x₀) (n + 2) t₀ x = (t₀, x₀) := by
  have hstep (x : ℝ) : g.step? (g.point t₀ x₀) t₀ x = some (0, x - x₀) := by
    rw [step?_point hspan hchord, sub_self, mul_div_cancel_right₀ _ hchord]
  rw [refine_succ (hstep x), sub_zero, sub_sub_cancel]
  split
  · rfl
  · have hrest : √(0 * 0 + (x₀ - x₀) * (x₀ - x₀)) < restingStep := by
      rw [sub_self, mul_zero, add_zero, Real.sqrt_zero]
      exact restingStep_pos
    rw [refine_succ (hstep x₀), if_pos hrest, sub_self, sub_zero, sub_zero]

/-- **The search comes to rest at the point.**  Three steps find both places, unless the first one
is so small that it is the last one. -/
theorem refine_point (hchord : g.chordAt t ≠ 0) (hchord₀ : g.chordAt t₀ ≠ 0) (n : ℕ) :
    ∃ x', g.refine (g.point t₀ x₀) (n + 3) t x = (t₀, x') ∧
      |(x' - x₀) * g.chordAt t₀| ≤
        restingStep * restingStep * |g.outer.chord - g.inner.chord| := by
  have hstep : g.step? (g.point t₀ x₀) t x =
      some (t - t₀, (x - x₀) * g.chordAt t₀ / g.chordAt t) := step?_point hspan hchord
  have hmul : (x - x₀) * g.chordAt t₀ / g.chordAt t * g.chordAt t = (x - x₀) * g.chordAt t₀ :=
    div_mul_cancel₀ _ hchord
  generalize (x - x₀) * g.chordAt t₀ / g.chordAt t = dx at *
  rw [refine_succ hstep, sub_sub_cancel]
  split
  next hrest =>
    refine ⟨x - dx, rfl, ?_⟩
    have hdt : |t - t₀| ≤ restingStep :=
      (Real.abs_le_sqrt (by linarith [mul_self_nonneg dx, sq (t - t₀)])).trans hrest.le
    have hdx : |dx| ≤ restingStep :=
      (Real.abs_le_sqrt (by linarith [mul_self_nonneg (t - t₀), sq dx])).trans hrest.le
    -- what is missing is a product of both parts of the step
    have hmissing : (x - dx - x₀) * g.chordAt t₀ =
        dx * (t - t₀) * (g.outer.chord - g.inner.chord) := by
      have hchords : g.chordAt t - g.chordAt t₀ =
          (t - t₀) * (g.outer.chord - g.inner.chord) := by
        unfold chordAt
        ring
      linear_combination -hmul + dx * hchords
    rw [hmissing, abs_mul, abs_mul]
    gcongr
    exact restingStep_pos.le
  next =>
    refine ⟨x₀, refine_of_place hspan hchord₀ n, ?_⟩
    rw [sub_self, zero_mul, abs_zero]
    have hrest := restingStep_pos
    positivity

end Steps

/-! ### Solutions -/

/-- Both chords have some length, but not too much, and are apart. -/
structure Moderate (g : Segment ℝ) : Prop where
  span_pos : 0 < g.inner.spanDistance g.outer
  size_eq : g.size = g.inner.spanDistance g.outer
  inner_chord : tolerance < g.inner.chord ∧ g.inner.chord < 1e6
  outer_chord : tolerance < g.outer.chord ∧ g.outer.chord < 1e6

variable {g}

theorem lt_chordAt (hinner : tolerance < g.inner.chord) (houter : tolerance < g.outer.chord) {t : ℝ}
    (ht : 0 ≤ t) (ht' : t ≤ 1) : tolerance < g.chordAt t := by
  have hmix : g.chordAt t = (1 - t) * g.inner.chord + t * g.outer.chord := by
    unfold chordAt
    ring
  rw [hmix]
  calc tolerance = (1 - t) * tolerance + t * tolerance := by ring
    _ < (1 - t) * g.inner.chord + t * g.outer.chord := by
      rcases ht.eq_or_lt with rfl | hpos
      · linarith
      · exact add_lt_add_of_le_of_lt
          (mul_le_mul_of_nonneg_left hinner.le (sub_nonneg.2 ht'))
          (mul_lt_mul_of_pos_left houter hpos)

/-- The solution for a point of a segment is this point. -/
theorem Moderate.solve_point (h : g.Moderate) {t₀ : ℝ} (ht : 0 ≤ t₀) (ht' : t₀ ≤ 1) (x₀ : ℝ) :
    (g.solve (g.point t₀ x₀)).t = t₀ ∧ |(g.solve (g.point t₀ x₀)).xsi - x₀| ≤ 1e-9 ∧
      (g.solve (g.point t₀ x₀)).residual ≤ 1e-12 := by
  have hpos := tolerance_pos
  have hchord₀ := lt_chordAt h.inner_chord.1 h.outer_chord.1 ht ht'
  have hmiddle : tolerance < g.chordAt 0.5 :=
    lt_chordAt h.inner_chord.1 h.outer_chord.1 (by norm_num) (by norm_num)
  obtain ⟨x', hrefine, hmissing⟩ : ∃ x', g.refine (g.point t₀ x₀) 30 0.5 0.5 = (t₀, x') ∧
      |(x' - x₀) * g.chordAt t₀| ≤
        restingStep * restingStep * |g.outer.chord - g.inner.chord| :=
    refine_point h.span_pos.ne' (hpos.trans hmiddle).ne' (hpos.trans hchord₀).ne' 27
  have hsmall : |(x' - x₀) * g.chordAt t₀| ≤ 1e-24 := by
    refine hmissing.trans ?_
    have hchords : |g.outer.chord - g.inner.chord| ≤ 1e6 := by
      rw [abs_le]
      constructor <;> linarith [h.inner_chord.1, h.inner_chord.2, h.outer_chord.1, h.outer_chord.2]
    calc restingStep * restingStep * |g.outer.chord - g.inner.chord|
        ≤ restingStep * restingStep * 1e6 :=
          mul_le_mul_of_nonneg_left hchords (mul_self_nonneg _)
      _ = 1e-24 := by norm_num [restingStep]
  unfold solve
  rw [hrefine]
  refine ⟨rfl, ?_, ?_⟩
  · -- a chord is no shorter than the tolerance
    dsimp only
    rw [abs_mul, abs_of_pos (hpos.trans hchord₀)] at hsmall
    have hle : |x' - x₀| * tolerance ≤ 1e-24 :=
      (mul_le_mul_of_nonneg_left hchord₀.le (abs_nonneg _)).trans hsmall
    unfold tolerance at hle
    norm_num at hle ⊢
    linarith
  · have hdiff : g.point t₀ x' - g.point t₀ x₀ = ⟨(x' - x₀) * g.chordAt t₀, 0, 0⟩ := by
      ext <;> simp [point_x, point_y, point_z]
      ring
    have hnorm : (g.point t₀ x' - g.point t₀ x₀).norm = |(x' - x₀) * g.chordAt t₀| := by
      rw [hdiff]
      refine (congrArg Real.sqrt ?_).trans (Real.sqrt_sq_eq_abs _)
      simp only [Vec.normSq, Vec.dot]
      ring
    dsimp only
    rw [hnorm]
    refine hsmall.trans ?_
    norm_num

/-- A solution is no nearer than the leading edge, seen along the chords. -/
theorem acrossDistance_le_residual (p : Vec ℝ) :
    (Vec.lerp g.inner.leadingEdge g.outer.leadingEdge (g.solve p).t).acrossDistance p ≤
      (g.solve p).residual := by
  have hres : (g.solve p).residual = (g.point (g.solve p).t (g.solve p).xsi - p).norm := rfl
  rw [hres]
  refine le_trans (le_of_eq ?_) (Vec.acrossDistance_le _ _)
  unfold Vec.acrossDistance
  rw [point_y, point_z]
  simp only [Vec.lerp, Vec.add_y, Vec.add_z, Vec.smul_y, Vec.smul_z, Vec.sub_y, Vec.sub_z]
  ring_nf

/-! ### Segments at a span -/

/-- The span lies within the segment. -/
def Spans (g : Segment ℝ) (s : ℝ) : Prop := g.lo ≤ s ∧ s ≤ g.hi

end Segment

theorem of_mem_segmentsFrom {ss : List (WingSection ℝ)} {b : ℝ} {g : Segment ℝ}
    (hg : g ∈ segmentsFrom b ss) :
    g.size = g.inner.spanDistance g.outer ∧ g.inner ∈ ss ∧ g.outer ∈ ss := by
  match ss with
  | [] | [_] => cases hg
  | s :: t :: rest =>
    rcases List.mem_cons.1 hg with rfl | hg
    · exact ⟨add_sub_cancel_left _ _, List.mem_cons_self,
        List.mem_cons_of_mem _ List.mem_cons_self⟩
    · obtain ⟨hsize, hinner, houter⟩ := of_mem_segmentsFrom hg
      exact ⟨hsize, List.mem_cons_of_mem _ hinner, List.mem_cons_of_mem _ houter⟩

/-- The segment that is located at a span within the wing spans it. -/
theorem exists_find?_segmentsFrom {s t : WingSection ℝ} {rest : List (WingSection ℝ)}
    (h : (s :: t :: rest).IsChain fun s t => tolerance ≤ s.spanDistance t) {b x : ℝ} (hb : b ≤ x)
    (hx : x ≤ ((segmentsFrom b (s :: t :: rest)).getLast nofun).hi) :
    ∃ g, (segmentsFrom b (s :: t :: rest)).reverse.find? (·.lo ≤ x) = some g ∧
      g ∈ segmentsFrom b (s :: t :: rest) ∧ g.Spans x := by
  induction rest generalizing s t b with
  | nil =>
    exact ⟨_, List.find?_cons_of_pos (decide_eq_true hb), List.mem_singleton_self _, hb, hx⟩
  | cons u rest ih =>
    have hcons : segmentsFrom b (s :: t :: u :: rest) = ⟨s, t, b, b + s.spanDistance t⟩ ::
        segmentsFrom (b + s.spanDistance t) (t :: u :: rest) := rfl
    rw [hcons, List.reverse_cons, List.find?_append]
    rcases le_or_gt (b + s.spanDistance t) x with hle | hlt
    · obtain ⟨g, hfind, hg, hspans⟩ := ih h.of_cons hle hx
      exact ⟨g, by rw [hfind, Option.some_or], List.mem_cons_of_mem _ hg, hspans⟩
    · have hnone : (segmentsFrom (b + s.spanDistance t) (t :: u :: rest)).reverse.find?
          (·.lo ≤ x) = none := by
        rw [List.find?_eq_none]
        intro g hg
        obtain ⟨hlo, -⟩ := bounds_of_mem_segmentsFrom h.of_cons (List.mem_reverse.1 hg)
        rw [decide_eq_true_eq, not_le]
        exact hlt.trans_le hlo
      refine ⟨_, ?_, List.mem_cons_self, hb, hlt.le⟩
      rw [hnone, Option.none_or]
      exact List.find?_cons_of_pos (decide_eq_true hb)

/-- Only the first segment starts at the first section. -/
theorem inner_of_lo_le {t : WingSection ℝ} {rest : List (WingSection ℝ)}
    (h : (t :: rest).IsChain fun s t => tolerance ≤ s.spanDistance t) {b : ℝ} {g : Segment ℝ}
    (hg : g ∈ segmentsFrom b (t :: rest)) (hlo : g.lo ≤ b) : g.inner = t ∧ g.lo = b := by
  match rest with
  | [] => cases hg
  | u :: rest =>
    rcases List.mem_cons.1 hg with rfl | hg
    · exact ⟨rfl, rfl⟩
    · obtain ⟨hle, -⟩ := bounds_of_mem_segmentsFrom h.of_cons hg
      have hpos := tolerance_pos.trans_le (List.isChain_cons_cons.1 h).1
      linarith

/-- Segments that meet have the same points where they meet. -/
theorem point_joint {s t : WingSection ℝ} {rest : List (WingSection ℝ)}
    (h : (s :: t :: rest).IsChain fun s t => tolerance ≤ s.spanDistance t) {b x : ℝ}
    {g : Segment ℝ} (hg : g ∈ segmentsFrom (b + s.spanDistance t) (t :: rest)) (hx : g.Spans x)
    (hle : x ≤ b + s.spanDistance t) (xsi : ℝ) :
    (⟨s, t, b, b + s.spanDistance t⟩ : Segment ℝ).point
      ((x - b) / (b + s.spanDistance t - b)) xsi = g.point ((x - g.lo) / g.size) xsi := by
  have hpos := tolerance_pos.trans_le (List.isChain_cons_cons.1 h).1
  obtain ⟨hinner, hlo⟩ := inner_of_lo_le h.of_cons hg (hx.1.trans hle)
  obtain rfl : x = b + s.spanDistance t := le_antisymm hle (hlo ▸ hx.1)
  rw [add_sub_cancel_left, div_self hpos.ne', point_one, hlo, sub_self, zero_div, point_zero,
    hinner]

/-- Segments that span the same have the same points there. -/
theorem point_eq_of_spans {ss : List (WingSection ℝ)}
    (h : ss.IsChain fun s t => tolerance ≤ s.spanDistance t) {b x : ℝ} {g g' : Segment ℝ}
    (hg : g ∈ segmentsFrom b ss) (hg' : g' ∈ segmentsFrom b ss) (hx : g.Spans x)
    (hx' : g'.Spans x) (xsi : ℝ) :
    g.point ((x - g.lo) / g.size) xsi = g'.point ((x - g'.lo) / g'.size) xsi := by
  match ss with
  | [] | [_] => cases hg
  | s :: t :: rest =>
    rcases List.mem_cons.1 hg with rfl | hg <;> rcases List.mem_cons.1 hg' with rfl | hg'
    · rfl
    · exact point_joint h hg' hx' hx.2 xsi
    · exact (point_joint h hg hx hx'.2 xsi).symm
    · exact point_eq_of_spans h.of_cons hg hg' hx hx' xsi

/-! ### Coordinates of a wing -/

theorem chord_of_checkSections {wing : String} {seen : List String} {ss : List (WingSection ℝ)}
    (h : checkSections wing seen ss = .ok ()) : ∀ s ∈ ss, tolerance < s.chord := by
  induction ss generalizing seen with
  | nil => nofun
  | cons s ss ih =>
    unfold checkSections at h
    split at h
    · cases h
    split at h
    · cases h
    next hflat =>
      exact List.forall_mem_cons.2 ⟨not_le.1 fun hle => hflat (.inl hle), ih h⟩

/-- The sections of a wing are those of which it is made, and have some chord. -/
theorem of_ofSections {uid : String} {sections : List (WingSection ℝ)} {w : Wing ℝ}
    (h : ofSections uid sections = .ok w) :
    w.sections = sections ∧ ∀ s ∈ sections, tolerance < s.chord := by
  obtain ⟨hsections, -, heq, -⟩ := parts_of_ofSections h
  exact ⟨heq, chord_of_checkSections hsections⟩

theorem totalSpan_pos {w : Wing ℝ}
    (h : w.sections.IsChain fun s t => tolerance ≤ s.spanDistance t) : 0 < w.totalSpan := by
  obtain ⟨hlo, hsize⟩ := bounds_of_mem_segmentsFrom h (List.getLast_mem w.segments_ne_nil)
  have hhi : w.totalSpan = w.lastSegment.lo + w.lastSegment.size := by
    unfold totalSpan Segment.size
    ring
  rw [hhi]
  exact add_pos_of_nonneg_of_pos hlo (tolerance_pos.trans_le hsize)

theorem Checked.totalSpan_pos {w : Wing ℝ} (h : w.Checked) : 0 < w.totalSpan :=
  Wing.totalSpan_pos h.apart

/-- The segments of a wing with moderate chords are moderate. -/
theorem Checked.moderate {w : Wing ℝ} (h : w.Checked)
    (hchord : ∀ s ∈ w.sections, tolerance < s.chord ∧ s.chord < 1e6) {g : Segment ℝ}
    (hg : g ∈ w.segments) : g.Moderate := by
  obtain ⟨hsize, hinner, houter⟩ := of_mem_segmentsFrom hg
  obtain ⟨-, hspan⟩ := bounds_of_mem_segmentsFrom h.apart hg
  exact {
    span_pos := hsize ▸ tolerance_pos.trans_le hspan
    size_eq := hsize
    inner_chord := hchord _ hinner
    outer_chord := hchord _ houter }

/-- The segment that is located at a span coordinate spans the place there. -/
theorem exists_locate {w : Wing ℝ} (h : w.sections.IsChain fun s t => tolerance ≤ s.spanDistance t)
    {eta : ℝ} (heta : 0 ≤ eta) (heta' : eta ≤ 1) : ∃ g ∈ w.segments,
      g.Spans (eta * w.totalSpan) ∧
        w.locate eta = (g, (eta * w.totalSpan - g.lo) / g.size) := by
  have htotal := totalSpan_pos h
  have hlo : 0 ≤ eta * w.totalSpan := mul_nonneg heta htotal.le
  have hhi : eta * w.totalSpan ≤ w.totalSpan := mul_le_of_le_one_left htotal.le heta'
  obtain ⟨g, hfind, hg, hspans⟩ : ∃ g,
      w.segments.reverse.find? (·.lo ≤ eta * w.totalSpan) = some g ∧ g ∈ w.segments ∧
        g.Spans (eta * w.totalSpan) := by
    generalize eta * w.totalSpan = x at hlo hhi
    obtain ⟨uid, sections, hlength, profile, place, transformation⟩ := w
    match sections, hlength with
    | s :: t :: rest, _ => exact exists_find?_segmentsFrom h hlo hhi
  exact ⟨g, hg, hspans, locate_of_find? hfind⟩

/-- A point of the wing is that of a segment which spans it. -/
theorem Checked.exists_spans {w : Wing ℝ} (h : w.Checked) {eta : ℝ} (heta : 0 ≤ eta)
    (heta' : eta ≤ 1) : ∃ g ∈ w.segments, g.Spans (eta * w.totalSpan) ∧ ∀ xsi,
      w.point eta xsi = g.point ((eta * w.totalSpan - g.lo) / g.size) xsi := by
  obtain ⟨g, hg, hspans, hlocate⟩ := exists_locate h.apart heta heta'
  exact ⟨g, hg, hspans, point_of_locate hlocate⟩

/-- **The coordinates of a point of the wing lead back to it.**  The segment that is found spans the
point, the span coordinate is found exactly and the chord coordinate nearly, unless another segment
passes the point, seen along the chords. -/
theorem etaXsi_point {uid : String} {sections : List (WingSection ℝ)} {w : Wing ℝ}
    (hw : ofSections uid sections = .ok w) (hchord : ∀ s ∈ sections, s.chord < 1e6) {eta : ℝ}
    (heta : 0 ≤ eta) (heta' : eta ≤ 1) (xsi : ℝ)
    (hfar : ∀ g ∈ w.segments, ¬ g.Spans (eta * w.totalSpan) →
      ∀ t, -1e-9 ≤ t → t ≤ 1 + 1e-9 → 1e-12 <
        (Vec.lerp g.inner.leadingEdge g.outer.leadingEdge t).acrossDistance (w.point eta xsi)) :
    (w.solve (w.point eta xsi)).segment.Spans (eta * w.totalSpan) ∧
      (w.etaXsi (w.point eta xsi)).1 = eta ∧ |(w.etaXsi (w.point eta xsi)).2 - xsi| ≤ 1e-9 := by
  obtain ⟨hsections, hsome⟩ := of_ofSections hw
  have hchecked : w.Checked := checked_of_ofSections hw w.transformation
  have hmoderate {g : Segment ℝ} (hg : g ∈ w.segments) : g.Moderate :=
    hchecked.moderate (fun s hs => ⟨hsome s (hsections ▸ hs), hchord s (hsections ▸ hs)⟩) hg
  have htotal := hchecked.totalSpan_pos
  obtain ⟨g₀, hg₀, hspans₀, hpoint₀⟩ := hchecked.exists_spans heta heta'
  -- every segment that spans the point finds it
  have hsolve {g : Segment ℝ} (hg : g ∈ w.segments) (hspans : g.Spans (eta * w.totalSpan)) :
      (g.solve (w.point eta xsi)).t = (eta * w.totalSpan - g.lo) / g.size ∧
        |(g.solve (w.point eta xsi)).xsi - xsi| ≤ 1e-9 ∧
        (g.solve (w.point eta xsi)).residual ≤ 1e-12 ∧
        (g.solve (w.point eta xsi)).Inside := by
    have hsize : 0 < g.size := (hmoderate hg).size_eq ▸ (hmoderate hg).span_pos
    have hwidth : eta * w.totalSpan - g.lo ≤ g.size := sub_le_sub_right hspans.2 g.lo
    have hnonneg := div_nonneg (sub_nonneg.2 hspans.1) hsize.le
    have hle := (div_le_one hsize).2 hwidth
    rw [hpoint₀ xsi, point_eq_of_spans hchecked.apart hg₀ hg hspans₀ hspans xsi]
    obtain ⟨ht, hxsi, hresidual⟩ := (hmoderate hg).solve_point hnonneg hle xsi
    refine ⟨ht, hxsi, hresidual, ?_⟩
    have hmargin : (0 : ℝ) ≤ segmentMargin := by norm_num [segmentMargin]
    rw [Segment.Solution.Inside, ht]
    exact ⟨(neg_nonpos.2 hmargin).trans hnonneg, hle.trans (le_add_of_nonneg_right hmargin)⟩
  -- and the nearest solution is that of such a segment
  obtain ⟨-, -, hresidual₀, hinside₀⟩ := hsolve hg₀ hspans₀
  have howner : g₀.solve (w.point eta xsi) ∈
      (w.segments.map (·.solve (w.point eta xsi))).filter fun s => s.Inside :=
    List.mem_filter.2 ⟨List.mem_map_of_mem hg₀, decide_eq_true hinside₀⟩
  obtain ⟨best, hbest, hmin, hleast⟩ :=
    exists_minBy? (fun s : Segment.Solution ℝ => s.residual) (List.ne_nil_of_mem howner)
  obtain ⟨hmem, hinside⟩ := List.mem_filter.1 hbest
  obtain ⟨g, hg, rfl⟩ := List.mem_map.1 hmem
  have hchosen : w.solve (w.point eta xsi) = g.solve (w.point eta xsi) := by
    unfold solve
    dsimp only
    rw [hmin]
  have hspans : g.Spans (eta * w.totalSpan) := by
    by_contra hnot
    have hinside : (g.solve (w.point eta xsi)).Inside := of_decide_eq_true hinside
    have hpasses := hfar g hg hnot _ hinside.1 hinside.2
    have hresidual := Segment.acrossDistance_le_residual (g := g) (w.point eta xsi)
    have hle := (hleast _ howner).trans hresidual₀
    linarith
  obtain ⟨ht, hxsi, -, -⟩ := hsolve hg hspans
  have hsize : 0 < g.size := (hmoderate hg).size_eq ▸ (hmoderate hg).span_pos
  unfold etaXsi
  rw [hchosen]
  refine ⟨hspans, ?_, hxsi⟩
  change (g.lo + (g.solve (w.point eta xsi)).t * g.size) / w.totalSpan = eta
  rw [ht, div_mul_cancel₀ _ hsize.ne', add_sub_cancel, mul_div_cancel_right₀ _ htotal.ne']

/-- The inner section of a wing with taper and sweep. -/
noncomputable def crankedRoot : WingSection ℝ := ⟨"root", ⟨0, 0, 0⟩, 4.0, 0.1⟩

/-- The section where the wing turns upwards. -/
noncomputable def crankedMid : WingSection ℝ := ⟨"mid", ⟨1, 5.0, 0⟩, 2.0, 0.1⟩

/-- The outer section. -/
noncomputable def crankedTip : WingSection ℝ := ⟨"tip", ⟨2.0, 9.0, 3.0⟩, 1, 0.1⟩

theorem spanDistance_crankedRoot : crankedRoot.spanDistance crankedMid = 5 :=
  (Real.sqrt_eq_iff_mul_self_eq_of_pos (by norm_num)).2
    (by norm_num [crankedRoot, crankedMid, Vec.sub_y, Vec.sub_z])

theorem spanDistance_crankedMid : crankedMid.spanDistance crankedTip = 5 :=
  (Real.sqrt_eq_iff_mul_self_eq_of_pos (by norm_num)).2
    (by norm_num [crankedMid, crankedTip, Vec.sub_y, Vec.sub_z])

/-- The sections make a wing of two segments. -/
theorem exists_cranked : ∃ w, ofSections "wing" [crankedRoot, crankedMid, crankedTip] = .ok w ∧
    w.segments = [⟨crankedRoot, crankedMid, 0, 5⟩, ⟨crankedMid, crankedTip, 5, 10⟩] := by
  have hroot := spanDistance_crankedRoot
  have hmid := spanDistance_crankedMid
  have hsections : checkSections "wing" [] [crankedRoot, crankedMid, crankedTip] = .ok () := by
    simp [checkSections, crankedRoot, crankedMid, crankedTip]
    norm_num [tolerance]
  have hspan : checkSpan "wing" [crankedRoot, crankedMid, crankedTip] = .ok () := by
    norm_num [checkSpan, tolerance, hroot, hmid]
  refine ⟨⟨"wing", [crankedRoot, crankedMid, crankedTip], by decide, hexagon, 3,
    Transform.identity⟩, ?_, ?_⟩
  · unfold ofSections
    rw [dif_pos (by decide), hsections, hspan]
    rfl
  · change segmentsFrom 0 [crankedRoot, crankedMid, crankedTip] = _
    norm_num [segmentsFrom, hroot, hmid]

/-- A point of the inner segment has its own coordinates. -/
theorem etaXsi_point_cranked :
    ∃ w, ofSections "wing" [crankedRoot, crankedMid, crankedTip] = .ok w ∧
      (w.solve (w.point 0.25 0.3)).segment.Spans (0.25 * w.totalSpan) ∧
        (w.etaXsi (w.point 0.25 0.3)).1 = 0.25 ∧
          |(w.etaXsi (w.point 0.25 0.3)).2 - 0.3| ≤ 1e-9 := by
  obtain ⟨w, hw, hsegments⟩ := exists_cranked
  have hchecked : w.Checked := checked_of_ofSections hw w.transformation
  have htotal : w.totalSpan = 10 := by
    unfold totalSpan lastSegment
    simp [hsegments]
  -- the point lies on the inner segment
  have hy : (w.point 0.25 0.3).y = 2.5 := by
    obtain ⟨g, hg, hspans, hpoint⟩ :=
      hchecked.exists_spans (show (0 : ℝ) ≤ 0.25 by norm_num) (by norm_num)
    rw [htotal] at hspans hpoint
    rw [hpoint, Segment.point_y]
    rw [hsegments, List.mem_pair] at hg
    obtain rfl | rfl := hg
    · norm_num [crankedRoot, crankedMid, Segment.size]
    · have hle : (5 : ℝ) ≤ 0.25 * 10 := hspans.1
      norm_num at hle
  refine ⟨w, hw, etaXsi_point hw ?_ (by norm_num) (by norm_num) 0.3 fun g hg hnot t ht _ => ?_⟩
  · norm_num [crankedRoot, crankedMid, crankedTip]
  · rw [hsegments, List.mem_pair] at hg
    rw [htotal] at hnot
    obtain rfl | rfl := hg
    · exact absurd ⟨by norm_num, by norm_num⟩ hnot
    · refine lt_of_lt_of_le ?_ (Vec.abs_y_sub_le_acrossDistance _ _)
      rw [hy, lt_abs]
      norm_num [Vec.lerp, crankedMid, crankedTip] at ht ⊢
      exact .inl (by linarith)

end Wing

end WingBox
