import WingBox.Proofs.Cut.Meeting
import WingBox.Proofs.Cut.Pruning
import WingBox.Proofs.Cut.Groups

/-!
# Splitting again

With exact numbers, and if no vertex is almost in a plane, splitting a shape again by the same tool
changes nothing (`Shape.split_split`).

* `Blade.halves?_of_mem_pieces`: a blade does not cut the pieces it made, since all vertices of a
  piece are on one side of it;
* `Blade.halves?_of_part`: a blade that cuts a part of a facet cuts the facet, so a blade
  that is done with a facet is done with what others make of it;
* so the second time no blade cuts anything (`Triangle.halves?_of_mem_pieces`), there are no
  chords, and every face stays one.
-/

namespace WingBox

open Scalar

/-! ### Pieces on one side -/

namespace Triangle

variable {t q : Triangle ℝ} {plane : Plane ℝ} {v : Vec ℝ}

/-- A triangle is cut if and only if it has vertices on both sides of the plane. -/
theorem isSome_cut?_iff : (t.cut? plane).isSome ↔
    (∃ v ∈ t.vertices, 0 < plane.snappedDistance v) ∧
      ∃ v ∈ t.vertices, plane.snappedDistance v < 0 := by
  unfold cut? sides
  simp only [vertices, List.mem_cons, List.not_mem_nil, or_false, exists_eq_or_imp, exists_eq_left]
  generalize plane.snappedDistance t.a = x, plane.snappedDistance t.b = y,
    plane.snappedDistance t.c = z
  rcases sign_cases x with hx | hx | hx <;> rcases sign_cases y with hy | hy | hy <;>
    rcases sign_cases z with hz | hz | hz <;>
    simp [Side.startIf, Side.crossing, Side.contacts, mul_neg_iff, hx, hy, hz]

theorem mem_of_mem_wholeFan {ps : List (Vec ℝ)} (hq : q ∈ wholeFan ps) :
    ∀ v ∈ q.vertices, v ∈ ps := by
  cases ps with
  | nil => cases hq
  | cons p ps =>
    obtain ⟨i, hi, rfl⟩ := List.getElem_of_mem hq
    simp only [wholeFan, List.getElem_zipWith, vertices, List.forall_mem_cons]
    exact ⟨List.mem_cons_self, List.mem_cons_of_mem _ (List.getElem_mem _),
      List.mem_cons_of_mem _ (List.mem_of_mem_tail (List.getElem_mem _)), List.forall_mem_nil _⟩

theorem distances_of_mem_sides {s : Side ℝ} (hs : s ∈ t.sides plane) :
    s.start ∈ t.vertices ∧ plane.snappedDistance s.start = s.startDistance ∧
      plane.snappedDistance s.stop = s.stopDistance := by
  simp only [sides, List.mem_cons, List.not_mem_nil, or_false] at hs
  rcases hs with rfl | rfl | rfl <;> simp [vertices]

/-- Where a side comes to the plane between its ends, it is in the plane. -/
theorem signedDistance_crossing {s : Side ℝ} (hs : s ∈ t.sides plane) (hv : v ∈ s.crossing) :
    plane.signedDistance v = 0 := by
  obtain ⟨-, hstart, hstop⟩ := distances_of_mem_sides hs
  unfold Side.crossing at hv
  split at hv
  case isFalse => cases hv
  case isTrue hneg =>
    obtain rfl := List.mem_singleton.1 hv
    have hne : plane.snappedDistance s.start ≠ 0 := hstart ▸ left_ne_zero_of_mul hneg.ne
    have hne' : plane.snappedDistance s.stop ≠ 0 := hstop ▸ right_ne_zero_of_mul hneg.ne
    have hle := (comes_crossing hstart hstop hneg).1.abs_signedDistance_le hne
    rw [Plane.shift, Plane.snappedDistance_of_ne_zero hne', sub_self, abs_zero] at hle
    exact abs_nonpos_iff.1 hle

/-- A corner of a polygon is a vertex that is kept or a point in the plane. -/
theorem corner_cases {keep : ℝ → Bool}
    (hv : v ∈ (t.sides plane).flatMap fun s => s.startIf keep ++ s.crossing) :
    (v ∈ t.vertices ∧ keep (plane.snappedDistance v)) ∨ plane.signedDistance v = 0 := by
  obtain ⟨s, hs, hv⟩ := List.mem_flatMap.1 hv
  rcases List.mem_append.1 hv with hv | hv
  · obtain ⟨hvertex, hstart, -⟩ := distances_of_mem_sides hs
    unfold Side.startIf at hv
    split at hv
    case isFalse => cases hv
    case isTrue hkeep =>
      obtain rfl := List.mem_singleton.1 hv
      exact .inl ⟨hvertex, hstart ▸ hkeep⟩
  · exact .inr (signedDistance_crossing hs hv)

theorem snappedDistance_of_mem_upper (hv : v ∈ t.upper plane) : 0 ≤ plane.snappedDistance v := by
  rcases corner_cases hv with ⟨-, hkeep⟩ | hzero
  · exact of_decide_eq_true hkeep
  · rw [Plane.Clear.snappedDistance (.inl hzero), hzero]

theorem snappedDistance_of_mem_lower (hv : v ∈ t.lower plane) : plane.snappedDistance v ≤ 0 := by
  rcases corner_cases hv with ⟨-, hkeep⟩ | hzero
  · exact of_decide_eq_true hkeep
  · rw [Plane.Clear.snappedDistance (.inl hzero), hzero]

end Triangle

namespace Blade

variable {b c : Blade ℝ} {p q t : Triangle ℝ}

/-- What a cut makes lies on one side of it. -/
theorem polygon_of_mem_pieces {h : Triangle.Halves ℝ} (hcut : b.halves? t = some h)
    (hp : p ∈ b.pieces t) :
    (∀ v ∈ p.vertices, v ∈ t.upper b.plane) ∨ ∀ v ∈ p.vertices, v ∈ t.lower b.plane := by
  have hmem := (perm_pieces_slivers hcut).mem_iff.1 (List.mem_append_left _ hp)
  exact (List.mem_append.1 hmem).imp Triangle.mem_of_mem_wholeFan Triangle.mem_of_mem_wholeFan

/-- A blade does not cut the pieces it made. -/
theorem halves?_of_mem_pieces (hp : p ∈ b.pieces t) : b.halves? p = none := by
  cases hcut : b.halves? t with
  | none =>
    rw [(pieces_of_none hcut).1, List.mem_singleton] at hp
    rw [hp, hcut]
  | some h =>
    have hwhole : ¬ (p.cut? b.plane).isSome := by
      rw [Triangle.isSome_cut?_iff]
      rintro ⟨⟨v, hv, hpos⟩, w, hw, hneg⟩
      rcases polygon_of_mem_pieces hcut hp with hside | hside
      · exact absurd (Triangle.snappedDistance_of_mem_upper (hside w hw)) hneg.not_ge
      · exact absurd (Triangle.snappedDistance_of_mem_lower (hside v hv)) hpos.not_ge
    rw [halves?, Option.not_isSome_iff_eq_none.1 hwhole, ite_self]

end Blade

/-! ### Parts of facets -/

namespace Triangle

variable {p q : Triangle ℝ} {plane : Plane ℝ} {x : Vec ℝ}

/-- A triangle with points on one side of a plane, told by the sign of `k`, has vertices there. -/
theorem Holds.exists_vertex {k : ℝ} (hx : q.Holds x) (hside : 0 < k * plane.signedDistance x) :
    ∃ v ∈ q.vertices, 0 < k * plane.signedDistance v := by
  obtain ⟨u, ⟨hu₁, hu₂, hu₃⟩, rfl⟩ := hx
  by_contra hnone
  simp only [vertices, not_exists, not_and, not_lt, List.forall_mem_cons] at hnone
  obtain ⟨ha, hb, hc, -⟩ := hnone
  rw [plane.signedDistance_point] at hside
  have hu₀ : 0 ≤ 1 - u.1 - u.2 := by linarith
  nlinarith [mul_nonneg hu₀ (neg_nonneg.2 ha), mul_nonneg hu₁ (neg_nonneg.2 hb),
    mul_nonneg hu₂ (neg_nonneg.2 hc)]

/-- A triangle of which a part has vertices on both sides of a plane has so itself. -/
theorem PartOf.isSome_cut? (h : p.PartOf q) (hp : Unmoved plane p) (hq : Unmoved plane q)
    (hcut : (p.cut? plane).isSome) : (q.cut? plane).isSome := by
  rw [isSome_cut?_iff] at hcut ⊢
  obtain ⟨⟨v, hv, hpos⟩, w, hw, hneg⟩ := hcut
  rw [hp v hv, ← one_mul (plane.signedDistance v)] at hpos
  rw [hp w hw, ← neg_pos, ← neg_one_mul] at hneg
  obtain ⟨v', hv', hpos'⟩ := (h.vertices v hv).exists_vertex hpos
  obtain ⟨w', hw', hneg'⟩ := (h.vertices w hw).exists_vertex hneg
  rw [one_mul, ← hq v' hv'] at hpos'
  rw [neg_one_mul, neg_pos, ← hq w' hw'] at hneg'
  exact ⟨⟨v', hv', hpos'⟩, w', hw', hneg'⟩

/-- A part with some area has the normal of the triangle. -/
theorem PartOf.normal_support (h : p.PartOf q) (hp : tolerance * tolerance ≤ p.area) :
    p.support.normal = q.support.normal := by
  obtain ⟨k, hk, hcross⟩ := h.cross
  have hpos : 0 < k := by
    refine hk.lt_of_ne fun hzero => ?_
    rw [area, hcross, ← hzero, zero_smul, Vec.norm_zero, mul_zero] at hp
    exact absurd (mul_pos tolerance_pos tolerance_pos) hp.not_gt
  change p.cross.normalize = q.cross.normalize
  rw [hcross, Vec.normalize_smul hpos]

theorem PartOf.within_box (h : p.PartOf q) : p.box.Within q.box :=
  box_within_iff.2 fun v hv => (h.vertices v hv).contains (.refl _)

end Triangle

namespace Blade

variable {b c : Blade ℝ} {p q t : Triangle ℝ}

/-- The vertices of a facet are in the plane of the blade or away from it, and those of the blade in
the plane of the facet or away from it. -/
def Clear (b : Blade ℝ) (t : Triangle ℝ) : Prop :=
  (∀ v ∈ t.vertices, b.plane.Clear v) ∧
    ∀ plane, t.plane? = some plane → ∀ v ∈ b.facet.vertices, plane.Clear v

theorem area_le_of_mem_pieces (hp : p ∈ c.pieces q) : p.area ≤ q.area := by
  rw [← (c.dissection q).sum_area]
  refine List.single_le_sum ?_ _ (List.mem_map_of_mem (List.mem_append_left _ hp))
  simp only [List.forall_mem_map]
  exact fun r _ => mul_nonneg (by norm_num) r.cross.norm_nonneg

/-- A blade crosses a facet if it crosses a part of it. -/
theorem crosses_of_part (hb : b.facet.plane? = some b.plane) (hpart : p.PartOf q)
    (harea : p.area ≤ q.area) (hp : b.Clear p) (hq : b.Clear q) (h : b.crosses p) :
    b.crosses q := by
  obtain ⟨hbarea, hbplane⟩ := Triangle.plane?_eq_some_iff.1 hb
  simp only [crosses, Bool.and_eq_true, decide_eq_true_eq] at h ⊢
  obtain ⟨hoverlaps, hmeet⟩ := h
  refine ⟨hoverlaps.mono (.refl _) hpart.within_box, ?_⟩
  cases hplane : p.plane? with
  | none => simp [hplane] at hmeet
  | some plane =>
    obtain ⟨hparea, rfl⟩ := Triangle.plane?_eq_some_iff.1 hplane
    have hqplane := Triangle.plane?_eq_support (hparea.trans harea)
    rw [hplane] at hmeet
    rw [hqplane]
    dsimp only at hmeet ⊢
    rw [← hbplane] at hmeet ⊢
    obtain ⟨e, he⟩ := Option.isSome_iff_exists.1 hmeet
    obtain ⟨-, -, -, -, hcross, -⟩ := Triangle.exists_slices_of_meet? he
    have htransverse : p.Transverse b.facet :=
      ⟨hparea, hbarea, hcross, hbplane ▸ hp.1, hp.2 _ hplane⟩
    have htransverse' : q.Transverse b.facet :=
      ⟨hparea.trans harea, hbarea, hpart.normal_support hparea ▸ hcross, hbplane ▸ hq.1,
        hq.2 _ hqplane⟩
    rw [← htransverse.intersect?_eq] at he
    obtain ⟨hall, hlong⟩ := htransverse.intersect?_eq_some_iff.1 he
    obtain ⟨hstart, hstart'⟩ := (hall _).1 e.holds_start
    obtain ⟨hstop, hstop'⟩ := (hall _).1 e.holds_stop
    rw [← htransverse'.intersect?_eq]
    refine htransverse'.isSome_intersect? (hpart.holds hstop) hstop' (hpart.holds hstart) hstart' ?_
    rw [(Triangle.Transverse.common hstop hstop').distance_eq htransverse.norm_ne_zero
      (Triangle.Transverse.common hstart hstart')]
    exact hlong.trans (le_abs_self _)

/-- So a blade that is done with a facet is done with what others make of it. -/
theorem halves?_of_part (hb : b.facet.plane? = some b.plane) (hp : p ∈ c.pieces q)
    (hclear : b.Clear p) (hclear' : b.Clear q) (h : b.halves? q = none) : b.halves? p = none := by
  have hpart := (c.dissection q).parts p (List.mem_append_left _ hp)
  unfold halves? at h ⊢
  split
  case isFalse => rfl
  case isTrue hcrosses =>
    rw [if_pos (crosses_of_part hb hpart (area_le_of_mem_pieces hp) hclear hclear' hcrosses)] at h
    refine Option.not_isSome_iff_eq_none.1 fun hcut => ?_
    have hwhole := hpart.isSome_cut? (Triangle.unmoved_of_clear hclear.1)
      (Triangle.unmoved_of_clear hclear'.1) hcut
    rw [h] at hwhole
    cases hwhole

end Blade

/-! ### One blade after another -/

namespace Triangle

variable {t : Triangle ℝ} {blades bs : List (Blade ℝ)}

theorem pieces_append_singleton {K : Type} [Scalar K] (bs : List (Blade K)) (b : Blade K)
    (t : Triangle K) : t.pieces (bs ++ [b]) = (t.pieces bs).flatMap b.pieces := by
  induction bs generalizing t with
  | nil => simp [pieces]
  | cons c bs ih =>
    simp only [List.cons_append, pieces, List.flatMap_assoc]
    exact List.flatMap_congr fun q _ => ih q

/-- The facet and all pieces of it that arise between the blades keep clear of the blades. -/
def Settled (blades : List (Blade ℝ)) (t : Triangle ℝ) : Prop :=
  ∀ bs, bs <+: blades → ∀ p ∈ t.pieces bs, ∀ b ∈ blades, b.Clear p

/-- At every stage the blades so far do not cut any more. -/
theorem halves?_of_mem_pieces (hblades : ∀ b ∈ blades, b.facet.plane? = some b.plane)
    (ht : t.Settled blades) (hbs : bs <+: blades) :
    ∀ p ∈ t.pieces bs, ∀ b ∈ bs, b.halves? p = none := by
  induction bs using List.reverseRecOn with
  | nil => exact fun _ _ _ hb => absurd hb List.not_mem_nil
  | append_singleton bs c ih =>
    have hprefix : bs <+: blades := (List.prefix_append bs [c]).trans hbs
    intro p hp b hb
    have hp' := hp
    rw [pieces_append_singleton] at hp'
    obtain ⟨q, hq, hpq⟩ := List.mem_flatMap.1 hp'
    rcases List.mem_append.1 hb with hb | hb
    · -- an earlier blade was done with the facet that the last one cut
      have hmem : b ∈ blades := hprefix.subset hb
      exact Blade.halves?_of_part (hblades b hmem) hpq (ht _ hbs p hp b hmem)
        (ht _ hprefix q hq b hmem) (ih hprefix q hq b hb)
    · rw [List.mem_singleton.1 hb]
      exact Blade.halves?_of_mem_pieces hpq

end Triangle

/-- A face that no blade cuts is regrouped only. -/
theorem Face.split_of_idle {K : Type} [Scalar K] {f : Face K} {blades : List (Blade K)}
    (h : ∀ b ∈ blades, ∀ t ∈ f.facets, b.halves? t = none) :
    f.split blades = regroup [] f.facets := by
  rw [Face.split_eq, Blade.foldl_step_of_idle h]

namespace Shape

variable {s tool : Shape ℝ}

theorem plane?_of_mem_blades {b : Blade ℝ} (hb : b ∈ tool.blades) :
    b.facet.plane? = some b.plane := by
  obtain ⟨t, -, ht⟩ := List.mem_filterMap.1 hb
  obtain ⟨plane, hplane, rfl⟩ := Option.map_eq_some_iff.1 ht
  exact hplane

/-- A face that splitting made is not split again. -/
theorem split_of_mem_split {f g : Face ℝ} (hf : ∀ t ∈ f.facets, t.Settled tool.blades)
    (hg : g ∈ f.split tool.blades) : g.split tool.blades = [g] := by
  have hidle : ∀ b ∈ tool.blades, ∀ p ∈ g.facets, b.halves? p = none := by
    intro b hb p hp
    have hmem := (f.perm_split tool.blades).mem_iff.1 (List.mem_flatMap.2 ⟨g, hg, hp⟩)
    obtain ⟨t, ht, hpt⟩ := List.mem_flatMap.1 hmem
    exact Triangle.halves?_of_mem_pieces (fun _ hb => plane?_of_mem_blades hb) (hf t ht)
      List.prefix_rfl p hpt b hb
  rw [Face.split_of_idle hidle]
  rw [Face.split_eq] at hg
  exact Face.regroup_of_mem_regroup hg

/-- **Splitting twice is splitting once.**  Let the vertices of each facet that arises when a shape
is split be in the planes of the tool or away from them, and those of the tool in the plane of each
such facet or away from it.  Then splitting again by the tool gives the same faces in the same order
with the same facets. -/
theorem split_split (h : ∀ t ∈ s.triangles, t.Settled tool.blades) :
    (s.split tool).split tool = s.split tool := by
  have hfaces : ∀ f ∈ s.faces,
      (f.split tool.blades).flatMap (·.split tool.blades) = f.split tool.blades := by
    intro f hf
    have hfacets : ∀ t ∈ f.facets, t.Settled tool.blades := fun t ht =>
      h t (List.mem_flatMap.2 ⟨f, hf, ht⟩)
    rw [List.flatMap_congr fun g hg => split_of_mem_split hfacets hg]
    simp
  unfold split
  refine congrArg (Shape.mk · s.edges) ?_
  rw [List.flatMap_assoc]
  exact List.flatMap_congr hfaces

end Shape

/-! ### One blade -/

section OneBlade

variable {b : Blade ℝ} {p t : Triangle ℝ} {v : Vec ℝ}

/-- Distances from the plane of a part are those from the plane of the triangle. -/
theorem Triangle.PartOf.signedDistance_support (h : p.PartOf t)
    (hp : tolerance * tolerance ≤ p.area) (v : Vec ℝ) :
    p.support.signedDistance v = t.support.signedDistance v := by
  have ha : t.support.signedDistance p.a = 0 :=
    (h.vertices p.a List.mem_cons_self).signedDistance_support
  have hdiff := t.support.sub_dot_normal v p.a
  rw [ha, sub_zero, ← h.normal_support hp] at hdiff
  exact hdiff

/-- A blade that is clear of a facet is clear of the pieces it makes. -/
theorem Blade.Clear.of_mem_pieces (h : b.Clear t) (ht : tolerance * tolerance ≤ t.area)
    (hp : p ∈ b.pieces t) : b.Clear p := by
  have hpart := (b.dissection t).parts p (List.mem_append_left _ hp)
  refine ⟨?_, fun plane hplane v hv => ?_⟩
  · cases hcut : b.halves? t with
    | none =>
      rw [(pieces_of_none hcut).1, List.mem_singleton] at hp
      exact hp ▸ h.1
    | some halves =>
      have hcorner {keep : ℝ → Bool} {v : Vec ℝ} (hv : v ∈ (t.sides b.plane).flatMap fun s =>
          s.startIf keep ++ s.crossing) : b.plane.Clear v :=
        (Triangle.corner_cases hv).elim (fun hkept => h.1 v hkept.1) .inl
      rcases polygon_of_mem_pieces hcut hp with hside | hside
      · exact fun v hv => hcorner (hside v hv)
      · exact fun v hv => hcorner (hside v hv)
  · obtain ⟨hparea, rfl⟩ := Triangle.plane?_eq_some_iff.1 hplane
    have hclear := h.2 _ (Triangle.plane?_eq_support ht) v hv
    unfold Plane.Clear at hclear ⊢
    rwa [hpart.signedDistance_support hparea]

/-- With one blade only the facet itself has to be clear of it. -/
theorem Blade.Clear.settled (h : b.Clear t) (ht : tolerance * tolerance ≤ t.area) :
    t.Settled [b] := by
  intro bs hbs p hp c hc
  rw [List.mem_singleton.1 hc]
  rcases List.prefix_cons_iff.1 hbs with rfl | ⟨cs, rfl, hcs⟩
  · rw [List.mem_singleton.1 hp]
    exact h
  · rw [List.prefix_nil.1 hcs] at hp
    exact h.of_mem_pieces ht (by simpa [Triangle.pieces] using hp)

end OneBlade

/-- The blade of the wall. -/
noncomputable def Blade.wall : Blade ℝ :=
  ⟨.wall, Triangle.wall.support, Triangle.wall.box.enlarged tolerance⟩

theorem Blade.isSome_halves?_wall : (wall.halves? .corner).isSome := by
  have htransverse := Triangle.transverse_corner_wall
  have hoverlaps : wall.around.Overlaps Triangle.corner.box := by
    norm_num [wall, Box.Overlaps, Box.enlarged, Triangle.box, Box.point, Box.including,
      Triangle.wall, Triangle.corner, tolerance]
  have hcrosses : wall.crosses .corner := by
    have hmeet := Triangle.isSome_intersect?_corner
    rw [htransverse.intersect?_eq] at hmeet
    rw [crosses, Triangle.plane?_eq_support htransverse.area_left, decide_eq_true hoverlaps]
    exact hmeet
  rw [halves?, if_pos hcrosses, Triangle.isSome_cut?_iff]
  have hunmoved := Triangle.unmoved_of_clear htransverse.clear_left
  constructor
  · refine ⟨Triangle.corner.b, by simp [Triangle.vertices], ?_⟩
    rw [wall, hunmoved _ (by simp [Triangle.vertices]), Triangle.support_wall]
    norm_num [Plane.signedDistance, Triangle.corner, Vec.dot]
  · refine ⟨Triangle.corner.a, by simp [Triangle.vertices], ?_⟩
    rw [wall, hunmoved _ (by simp [Triangle.vertices]), Triangle.support_wall]
    norm_num [Plane.signedDistance, Triangle.corner, Vec.dot]

/-- The wall cuts the corner, but only once. -/
theorem Shape.split_split_corner :
    let s := Shape.ofFace ⟨[Triangle.corner]⟩
    let tool := Shape.ofFace ⟨[Triangle.wall]⟩
    (∃ b ∈ tool.blades, (b.halves? .corner).isSome) ∧
      (∀ t ∈ s.triangles, t.Settled tool.blades) ∧ (s.split tool).split tool = s.split tool := by
  intro s tool
  have hblades : tool.blades = [.wall] := by
    have hplane := Triangle.plane?_eq_support Triangle.transverse_corner_wall.area_right
    simp [tool, blades, triangles, ofFace, Blade.of?, hplane, Blade.wall]
  have hsettled : ∀ t ∈ s.triangles, t.Settled tool.blades := by
    intro t ht
    obtain rfl : t = .corner := by simpa [s, triangles, ofFace] using ht
    have htransverse := Triangle.transverse_corner_wall
    rw [hblades]
    refine Blade.Clear.settled ⟨htransverse.clear_left, fun plane hplane => ?_⟩
      htransverse.area_left
    obtain ⟨-, rfl⟩ := Triangle.plane?_eq_some_iff.1 hplane
    exact htransverse.clear_right
  exact ⟨⟨.wall, by simp [hblades], Blade.isSome_halves?_wall⟩, hsettled, split_split hsettled⟩

end WingBox
