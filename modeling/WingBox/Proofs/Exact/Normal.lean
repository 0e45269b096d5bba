import WingBox.Proofs.Exact.Element

/-!
# The sides of the midplane, with exact numbers

All chords of a wing run along x, so the midplane normal lies across them.  It is the leading edge
of the segment seen along the chords, turned by a quarter, and whether it leads to the upper side
depends on which way the segment runs.

* `Wing.midplaneNormal_eq_ok_iff`: when there is a normal, and which one;
* `Wing.Regular.lt_chordAt`: segments have a chord everywhere, so only the leading edge decides;
* `Wing.midplaneNormal_upper`: the normal leads to the upper side of segments that run towards
  +y, and to the lower side of those that run towards -y.
-/

namespace WingBox

open Scalar

namespace Wing

namespace Segment

variable (g : Segment ℝ)

/-- The leading edge from the inner to the outer section. -/
noncomputable def leading : Vec ℝ := g.outer.leadingEdge - g.inner.leadingEdge

/-- The leading edge seen along the chords, turned by a quarter and to length one. -/
noncomputable def turned : Vec ℝ := ⟨0, -(g.leading.z / g.size), g.leading.y / g.size⟩

variable {g}

theorem point_sub (t : ℝ) : g.point t 1 - g.point t 0 = g.chordAt t • Vec.xAxis := by
  ext <;> simp [point_x, point_y, point_z, Vec.xAxis]

theorem size_sq (hsize : g.size = g.inner.spanDistance g.outer) :
    g.size * g.size = g.leading.y * g.leading.y + g.leading.z * g.leading.z := by
  rw [hsize]
  exact Real.mul_self_sqrt (add_nonneg (mul_self_nonneg _) (mul_self_nonneg _))

theorem norm_turned (hsize : g.size = g.inner.spanDistance g.outer) (hpos : 0 < g.size) :
    g.turned.norm = 1 := by
  refine Vec.norm_eq zero_le_one ?_
  have hsq := size_sq hsize
  simp only [Vec.normSq, Vec.dot, turned]
  field_simp
  linarith

/-- The normal lies across the chords and across the leading edge. -/
theorem turned_dot_xAxis : g.turned.dot Vec.xAxis = 0 := by
  simp [Vec.dot, turned, Vec.xAxis]

theorem turned_dot_leading : g.turned.dot g.leading = 0 := by
  simp only [Vec.dot, turned]
  ring

theorem xAxis_cross_normalize (hpos : 0 < g.size) :
    Vec.xAxis.cross g.leading.normalize = (g.size / g.leading.norm) • g.turned := by
  ext <;> simp [Vec.cross, Vec.xAxis, Vec.normalize, turned] <;> field_simp

end Segment

variable {w : Wing ℝ}

namespace Regular

variable (h : w.Regular) {g : Segment ℝ} (hg : g ∈ w.segments)
include h hg

theorem size_pos : 0 < g.size := tolerance_pos.trans_le (bounds_of_mem_segmentsFrom h.apart hg).2

/-- Segments have a chord at every place between their sections. -/
theorem lt_chordAt {s : ℝ} (hs : g.Spans s) : tolerance < g.chordAt ((s - g.lo) / g.size) := by
  obtain ⟨-, hinner, houter⟩ := of_mem_segmentsFrom hg
  have hpos := h.size_pos hg
  refine Segment.lt_chordAt (h.chord _ hinner) (h.chord _ houter)
    (div_nonneg (sub_nonneg.2 hs.1) hpos.le) ((div_le_one hpos).2 ?_)
  exact sub_le_sub_right hs.2 g.lo

end Regular

/-- There is a normal unless the leading edge is too short to have a direction, or too nearly
parallel to the chords. -/
theorem midplaneNormal_eq_ok_iff {eta t : ℝ} {g : Segment ℝ} (hlocate : w.locate eta = (g, t))
    (hchord : tolerance < g.chordAt t) (hsize : g.size = g.inner.spanDistance g.outer)
    (hpos : 0 < g.size) {n : Vec ℝ} :
    w.midplaneNormal eta = .ok n ↔
      tolerance < g.leading.norm ∧ normalBound * g.leading.norm < g.size ∧ n = g.turned := by
  have hchord_pos := tolerance_pos.trans hchord
  have hdirection : (w.point eta 1 - w.point eta 0).normalize? tolerance = some Vec.xAxis := by
    rw [point_of_locate hlocate, point_of_locate hlocate, Segment.point_sub]
    exact (Vec.normalize?_smul_eq_some_iff Vec.norm_xAxis hchord_pos).2 ⟨hchord, rfl⟩
  have heta : w.etaDirection eta = Error.require (.geometry w.uid (.noSpanDirection eta))
      (g.leading.normalize? tolerance) := by
    unfold etaDirection
    rw [hlocate]
    rfl
  -- the length of the cross product compares the span with the leading edge
  have hcross (hlong : tolerance < g.leading.norm) :
      (Vec.xAxis.cross g.leading.normalize).normalize? normalBound = some n ↔
        normalBound * g.leading.norm < g.size ∧ n = g.turned := by
    have hleading := tolerance_pos.trans hlong
    rw [Segment.xAxis_cross_normalize hpos, ← lt_div_iff₀ hleading]
    exact Vec.normalize?_smul_eq_some_iff (Segment.norm_turned hsize hpos) (div_pos hpos hleading)
  rw [midplaneNormal, hdirection, heta]
  simp only [bind_eq_ok_iff, Error.require_eq_ok_iff]
  constructor
  · rintro ⟨_, hx, _, hd, hn⟩
    obtain rfl := Option.some.inj hx
    obtain ⟨hlong, rfl⟩ := Vec.normalize?_eq_some_iff.1 hd
    exact ⟨not_le.1 hlong, (hcross (not_le.1 hlong)).1 hn⟩
  · rintro ⟨hlong, hn⟩
    exact ⟨_, rfl, _, Vec.normalize?_eq_some_iff.2 ⟨hlong.not_ge, rfl⟩, (hcross hlong).2 hn⟩

/-- **The normal leads to the upper side of segments towards +y.**  It is a unit vector across the
chord and across the direction of the leading edge.  On a segment that runs towards -y it leads to
the lower side. -/
theorem midplaneNormal_upper (hw : w.Built) {eta : ℝ} (heta : 0 ≤ eta) (heta' : eta ≤ 1)
    {n : Vec ℝ} (hn : w.midplaneNormal eta = .ok n) :
    n.norm = 1 ∧ n.dot (w.point eta 1 - w.point eta 0) = 0 ∧
      (∃ d, w.etaDirection eta = .ok d ∧ n.dot d = 0) ∧
      ∃ g ∈ w.segments, g = (w.locate eta).1 ∧ g.Spans (eta * w.totalSpan) ∧
        (0 < n.z ↔ g.inner.leadingEdge.y < g.outer.leadingEdge.y) ∧
        (n.z < 0 ↔ g.outer.leadingEdge.y < g.inner.leadingEdge.y) := by
  have h := hw.regular
  obtain ⟨g, hg, hspans, hlocate⟩ := exists_locate h.apart heta heta'
  obtain ⟨hsize, -, -⟩ := of_mem_segmentsFrom hg
  have hpos := h.size_pos hg
  obtain ⟨hlong, -, rfl⟩ :=
    (midplaneNormal_eq_ok_iff hlocate (h.lt_chordAt hg hspans) hsize hpos).1 hn
  refine ⟨Segment.norm_turned hsize hpos, ?_, ⟨g.leading.normalize, ?_, ?_⟩, g, hg, ?_, hspans,
    ?_, ?_⟩
  · rw [point_of_locate hlocate, point_of_locate hlocate, Segment.point_sub, Vec.dot_comm,
      Vec.smul_dot, Vec.dot_comm, Segment.turned_dot_xAxis, mul_zero]
  · unfold etaDirection
    rw [hlocate, Error.require_eq_ok_iff, Vec.normalize?_eq_some_iff, not_le]
    exact ⟨hlong, rfl⟩
  · rw [Vec.normalize, Vec.div_eq_smul, Vec.dot_comm, Vec.smul_dot, Vec.dot_comm,
      Segment.turned_dot_leading, mul_zero]
  · rw [hlocate]
  · exact (div_pos_iff_of_pos_right hpos).trans sub_pos
  · change g.leading.y / g.size < 0 ↔ _
    rw [div_lt_iff₀ hpos, zero_mul]
    exact sub_neg

/-- The inner section of a wing that runs towards -y. -/
noncomputable def portRoot : WingSection ℝ := ⟨"root", ⟨0, 0, 0⟩, 2.0, 0.2⟩

/-- The outer section. -/
noncomputable def portTip : WingSection ℝ := ⟨"tip", ⟨0, -5.0, 0⟩, 2.0, 0.2⟩

/-- The one segment between them. -/
noncomputable def portSegment : Segment ℝ := ⟨portRoot, portTip, 0, 5.0⟩

theorem spanDistance_portRoot : portRoot.spanDistance portTip = 5 :=
  (Real.sqrt_eq_iff_mul_self_eq_of_pos (by norm_num)).2
    (by norm_num [portRoot, portTip, Vec.sub_y, Vec.sub_z])

theorem exists_port : ∃ w, ofSections "wing" [portRoot, portTip] = .ok w ∧
    w.segments = [portSegment] := by
  have hroot := spanDistance_portRoot
  have hsections : checkSections "wing" [] [portRoot, portTip] = .ok () := by
    simp [checkSections, portRoot, portTip]
    norm_num [tolerance]
  have hspan : checkSpan "wing" [portRoot, portTip] = .ok () := by
    norm_num [checkSpan, tolerance, hroot]
  refine ⟨⟨"wing", [portRoot, portTip], by decide, hexagon, 3, Transform.identity⟩, ?_, ?_⟩
  · unfold ofSections
    rw [dif_pos (by decide), hsections, hspan]
    rfl
  · change segmentsFrom 0 [portRoot, portTip] = _
    norm_num [segmentsFrom, hroot, portSegment]

/-- The normal of a level wing towards -y leads straight down. -/
theorem midplaneNormal_upper_port : ∃ w n, ofSections "wing" [portRoot, portTip] = .ok w ∧
    w.midplaneNormal 0.5 = .ok n ∧ n = ⟨0, 0, -1⟩ ∧ n.norm = 1 ∧
      portTip.leadingEdge.y < portRoot.leadingEdge.y := by
  obtain ⟨w, hw, hsegments⟩ := exists_port
  have hbuilt := Built.ofSections hw
  obtain ⟨g, hg, hspans, hlocate⟩ :=
    exists_locate hbuilt.regular.apart (show (0 : ℝ) ≤ 0.5 by norm_num) (by norm_num)
  obtain ⟨hsize, -, -⟩ := of_mem_segmentsFrom hg
  have hpos := hbuilt.regular.size_pos hg
  have hchord := hbuilt.regular.lt_chordAt hg hspans
  obtain rfl : g = portSegment := by
    rw [hsegments] at hg
    exact List.mem_singleton.1 hg
  have hwidth : portSegment.size = 5 := by norm_num [Segment.size, portSegment]
  have hlength : portSegment.leading.norm = 5 :=
    Vec.norm_eq (by norm_num)
      (by norm_num [Vec.normSq, Vec.dot, Segment.leading, portSegment, portRoot, portTip])
  have hdown : portSegment.turned = ⟨0, 0, -1⟩ := by
    rw [Segment.turned, hwidth]
    ext <;> norm_num [Segment.leading, portSegment, portRoot, portTip]
  have hn : w.midplaneNormal 0.5 = .ok ⟨0, 0, -1⟩ := by
    rw [midplaneNormal_eq_ok_iff hlocate hchord hsize hpos, hlength, hwidth]
    exact ⟨by norm_num [tolerance], by norm_num [normalBound], hdown.symm⟩
  obtain ⟨hnorm, -, -, h', hh', heq, -, -, hlower⟩ :=
    midplaneNormal_upper hbuilt (by norm_num) (by norm_num) hn
  rw [hlocate] at heq
  subst heq
  exact ⟨w, _, hw, hn, rfl, hnorm, hlower.1 (by norm_num)⟩

end Wing

end WingBox
