import WingBox.Proofs.Exact.Face
import WingBox.Build.Patch

/-!
# Ruled faces between two edges, with exact numbers

The ruled face between two straight wires is the patch between two edges
(`Face.ruled_straight_eq_ok_iff`).  If the patch is a parallelogram it is never divided: four
corners that do not count as planar are so close together that no cell has a facet.

* `Patch.IsParallelogram.facets_eq`: a parallelogram with enough area has its halves as facets;
* `Patch.IsParallelogram.holds_center`: the center of a parallelogram with facets lies on one;
* `Face.ruledAlong_sides_eq_ok_iff`: an oversized face is the parallelogram `Patch.around` the point
  that it is made for, whichever way its sides are run;
* `Face.has_of_ruledAlong`: so it goes through this point.
-/

namespace WingBox

open Scalar

namespace Wire

variable {a b c d : Vec ℝ}

/-- The wire of a single edge. -/
def straight (a b : Vec ℝ) : Wire ℝ := ⟨[a, b], le_rfl⟩

theorem segment?_eq (h : tolerance ≤ (b - a).norm) : segment? a b = some (straight a b) := by
  have hdistinct : distinct [a, b] = [a, b] := by
    rw [distinct, distinctAfter, if_pos h, distinctAfter]
  unfold segment? ofPoints?
  rw [dif_pos (by rw [hdistinct]; exact le_rfl)]
  unfold straight
  congr 2

theorem of_segment? {w : Wire ℝ} (h : segment? a b = some w) :
    w = straight a b ∧ tolerance ≤ (b - a).norm := by
  obtain ⟨hpoints, hab⟩ := points_of_segment? h
  obtain ⟨points, hlength⟩ := w
  obtain rfl : points = [a, b] := hpoints
  exact ⟨rfl, hab⟩

theorem spaced_straight (h : tolerance ≤ (b - a).norm) : (straight a b).Spaced :=
  List.forall_mem_singleton.2 h

theorem length_straight : (straight a b).length = (b - a).norm := by
  rw [length_eq]
  exact add_zero _

theorem parameters_straight (h : tolerance ≤ (b - a).norm) :
    (straight a b).parameters = [0, 1] := by
  have hpos : 0 < (b - a).norm := tolerance_pos.trans_le h
  rw [Wire.parameters, length_straight]
  change [0 / (b - a).norm, (0 + (b - a).norm) / (b - a).norm] = [0, 1]
  rw [zero_div, zero_add, div_self hpos.ne']

end Wire

/-! ### Parallelograms -/

namespace Patch

variable {p : Patch ℝ}

/-- The rulings of the patch are parallel and equally long. -/
def IsParallelogram (p : Patch ℝ) : Prop := p.d - p.c = p.b - p.a

theorem IsParallelogram.d_eq (h : p.IsParallelogram) : p.d = p.c + (p.b - p.a) := by
  rw [← h, add_sub_cancel]

/-- The parallelogram around a point, with sides along two directions. -/
noncomputable def around (p dir up : Vec ℝ) (r : ℝ) : Patch ℝ :=
  ⟨p - r • dir - r • up, p - r • dir + r • up, p + r • dir - r • up, p + r • dir + r • up⟩

theorem isParallelogram_around (p dir up : Vec ℝ) (r : ℝ) :
    (around p dir up r).IsParallelogram := by
  unfold IsParallelogram around
  module

/-- The corners of a parallelogram count as planar unless it has too little area. -/
theorem IsParallelogram.planar (h : p.IsParallelogram)
    (hlarge : tolerance * tolerance < ((p.b - p.a).cross (p.c - p.a)).norm) : p.Planar := by
  unfold Planar Vec.normalize?
  dsimp only
  rw [if_neg hlarge.not_ge]
  have hzero (n : ℝ) : (p.d - p.a).dot ((p.b - p.a).cross (p.c - p.a) / n) = 0 := by
    rw [h.d_eq]
    simp only [Vec.dot, Vec.cross, Vec.sub_x, Vec.sub_y, Vec.sub_z, Vec.add_x, Vec.add_y,
      Vec.add_z, Vec.div_x, Vec.div_y, Vec.div_z]
    ring
  change |(p.d - p.a).dot _| < tolerance
  rw [hzero, abs_zero]
  exact tolerance_pos

/-- The triangle with two corners of a patch, unless it has too little area. -/
theorem mem_halves {t : Triangle ℝ} (h : t ∈ p.halves) :
    (t = ⟨p.a, p.b, p.d⟩ ∨ t = ⟨p.a, p.d, p.c⟩) ∧ t.Ample := by
  obtain ⟨u, hu, ht⟩ := List.mem_filterMap.1 h
  obtain ⟨rfl, hample⟩ := Triangle.ample_of_facet? ht
  rw [List.mem_cons, List.mem_singleton] at hu
  exact ⟨hu, hample⟩

/-- Facets of a cell of a parallelogram are as oblique as the whole, and smaller. -/
theorem cross_of_mem_cell (h : p.IsParallelogram) {i j : ℕ} {t : Triangle ℝ}
    (ht : t ∈ (p.cell i j).halves) :
    t.cross = (1 / 64 : ℝ) • (p.b - p.a).cross (p.c - p.a) := by
  have hd := h.d_eq
  have hpoint (u v : ℝ) : p.pointAt u v = p.a + u • (p.b - p.a) + v • (p.c - p.a) := by
    unfold pointAt Vec.lerp
    rw [hd]
    module
  have hnext (k : ℕ) : ((k + 1 : ℕ) : ℝ) * (1 / (divisions : ℕ)) =
      (k : ℝ) * (1 / (divisions : ℕ)) + 1 / 8 := by
    rw [divisions, Nat.cast_succ]
    norm_num
    ring
  obtain ⟨rfl | rfl, -⟩ := mem_halves ht <;>
  · dsimp only [cell]
    rw [hpoint, hpoint, hpoint, hnext, hnext]
    ext <;> simp only [Triangle.cross, Vec.cross, Vec.sub_x, Vec.sub_y, Vec.sub_z, Vec.add_x,
      Vec.add_y, Vec.add_z, Vec.smul_x, Vec.smul_y, Vec.smul_z] <;> ring

/-- The center of a parallelogram with facets lies on one of them. -/
theorem IsParallelogram.holds_center (h : p.IsParallelogram) (hne : p.facets ≠ []) :
    ∃ t ∈ p.facets, t.Ample ∧ t.Holds (Vec.lerp p.a p.d (1 / 2)) := by
  obtain ⟨t, ht⟩ := List.exists_mem_of_ne_nil _ hne
  refine ⟨t, ht, ?_⟩
  unfold facets at ht
  split at ht
  next hplanar =>
    obtain ⟨rfl | rfl, hample⟩ := mem_halves ht
    · refine ⟨hample, (0, 1 / 2), by norm_num [InSimplex], ?_⟩
      unfold Triangle.point Vec.lerp
      module
    · refine ⟨hample, (1 / 2, 0), by norm_num [InSimplex], ?_⟩
      unfold Triangle.point Vec.lerp
      module
  next hplanar =>
    -- where the corners do not count as planar, no cell has enough area
    obtain ⟨i, -, hi⟩ := List.mem_flatMap.1 ht
    obtain ⟨j, -, hj⟩ := List.mem_flatMap.1 hi
    have hsmall : ((p.b - p.a).cross (p.c - p.a)).norm ≤ tolerance * tolerance :=
      not_lt.1 fun hlarge => hplanar (h.planar hlarge)
    have hample : tolerance * tolerance < 0.5 * t.cross.norm := (mem_halves hj).2
    rw [cross_of_mem_cell h hj, Vec.norm_smul, abs_of_pos (by norm_num)] at hample
    have htolerance := mul_pos tolerance_pos tolerance_pos
    linarith

/-! The halves of a parallelogram. -/

namespace IsParallelogram

variable (h : p.IsParallelogram)
include h

/-- Both halves face the same way. -/
theorem cross_halves {t : Triangle ℝ} (ht : t = ⟨p.a, p.b, p.d⟩ ∨ t = ⟨p.a, p.d, p.c⟩) :
    t.cross = (p.b - p.a).cross (p.c - p.a) := by
  obtain rfl | rfl := ht <;> unfold Triangle.cross <;> dsimp only <;> rw [h.d_eq] <;>
    ext <;> simp only [Vec.cross, Vec.sub_x, Vec.sub_y, Vec.sub_z, Vec.add_x, Vec.add_y,
      Vec.add_z] <;> ring

/-- A parallelogram with enough area has both its halves as facets. -/
theorem facets_eq
    (hample : tolerance * tolerance < 0.5 * ((p.b - p.a).cross (p.c - p.a)).norm) :
    p.facets = [⟨p.a, p.b, p.d⟩, ⟨p.a, p.d, p.c⟩] := by
  have hlarge : tolerance * tolerance < ((p.b - p.a).cross (p.c - p.a)).norm := by
    linarith [Vec.norm_nonneg ((p.b - p.a).cross (p.c - p.a))]
  have hhalf {t : Triangle ℝ} (ht : t = ⟨p.a, p.b, p.d⟩ ∨ t = ⟨p.a, p.d, p.c⟩) :
      t.facet? = some t := by
    refine Triangle.facet?_of_ample ?_
    change tolerance * tolerance < 0.5 * t.cross.norm
    rwa [h.cross_halves ht]
  rw [facets, if_pos (h.planar hlarge), halves, List.filterMap_cons_some (hhalf (.inl rfl)),
    List.filterMap_cons_some (hhalf (.inr rfl)), List.filterMap_nil]

/-- The halves reach every point of the parallelogram. -/
theorem exists_holds {s t : ℝ} (hs : 0 ≤ s ∧ s ≤ 1) (ht : 0 ≤ t ∧ t ≤ 1) :
    ∃ u ∈ ([⟨p.a, p.b, p.d⟩, ⟨p.a, p.d, p.c⟩] : List (Triangle ℝ)),
      u.Holds (p.a + s • (p.b - p.a) + t • (p.c - p.a)) := by
  have hd := h.d_eq
  rcases le_total t s with hts | hst
  · refine ⟨_, List.mem_cons_self, (s - t, t), ⟨sub_nonneg.2 hts, ht.1, ?_⟩, ?_⟩
    · simpa using hs.2
    · dsimp only [Triangle.point]
      rw [hd]
      module
  · refine ⟨_, List.mem_cons_of_mem _ List.mem_cons_self, (s, t - s), ⟨hs.1, sub_nonneg.2 hst, ?_⟩,
      ?_⟩
    · simpa using ht.2
    · dsimp only [Triangle.point]
      rw [hd]
      module

end IsParallelogram

end Patch

namespace Face

open Wire

variable {a b c d : Vec ℝ}

theorem stripBounds_straight (hab : tolerance ≤ (b - a).norm) (hcd : tolerance ≤ (d - c).norm) :
    stripBounds (straight a b) (straight c d) = [0, 1] := by
  have hle (x y : ℝ) : totalLE x y = decide (x ≤ y) := rfl
  have hsorted : ([0, 1, 0, 1] : List ℝ).mergeSort totalLE = [0, 0, 1, 1] := by
    simp [List.mergeSort, hle]
  rw [stripBounds, parameters_straight hab, parameters_straight hcd]
  change spaced (([0, 1, 0, 1] : List ℝ).mergeSort totalLE) = _
  rw [hsorted]
  have hgap : (parameterGap : ℝ) = 1e-9 := rfl
  have habs (x : ℝ) : Scalar.abs x = |x| := rfl
  norm_num [spaced, spacedAfter, hgap, habs]

/-- The ruled face between two edges is the patch that they span. -/
theorem ruled_straight_eq_ok_iff {f : Face ℝ} (hab : tolerance ≤ (b - a).norm)
    (hcd : tolerance ≤ (d - c).norm) : ruled (straight a b) (straight c d) = .ok f ↔
      f.facets = Patch.facets ⟨a, b, c, d⟩ ∧ f.facets ≠ [] := by
  have hfacets : (List.zipWith (strip (straight a b) (straight c d)) [0, 1] [1]).flatten =
      Patch.facets ⟨a, b, c, d⟩ := by
    have hab' := spaced_straight hab
    have hcd' := spaced_straight hcd
    have hstrip : strip (straight a b) (straight c d) 0 1 = Patch.facets ⟨a, b, c, d⟩ := by
      rw [strip, pointAt_start hab', pointAt_stop hab', pointAt_start hcd', pointAt_stop hcd']
      rfl
    rw [← hstrip]
    exact List.append_nil _
  obtain ⟨facets⟩ := f
  unfold ruled
  dsimp only
  rw [stripBounds_straight hab hcd, List.tail_cons, hfacets]
  split
  next hnil =>
    constructor <;> intro h
    · cases h
    · exact absurd (h.1.trans hnil) h.2
  next hne =>
    constructor <;> intro h
    · obtain rfl := congrArg Face.facets (Except.ok.inj h)
      exact ⟨rfl, hne⟩
    · rw [h.1]

/-! ### Sides of a parallelogram -/

theorem orient_straight_of_nonneg {dir : Vec ℝ} (h : 0 ≤ (b - a).dot dir) :
    orient dir (straight a b) = straight a b := if_neg (not_lt.2 h)

theorem orient_straight_of_neg {dir : Vec ℝ} (h : (b - a).dot dir < 0) :
    orient dir (straight a b) = straight b a := if_pos h

section Sides

variable {p dir up : Vec ℝ} {r : ℝ}

/-- Both sides lead along `up`, one of them downwards. -/
theorem sides_eq (p dir up : Vec ℝ) (r : ℝ) :
    p - r • dir - r • up - (p - r • dir + r • up) = -((2 * r) • up) ∧
    p + r • dir + r • up - (p + r • dir - r • up) = (2 * r) • up :=
  ⟨by module, by module⟩

/-- The ruled face between two opposite sides of a parallelogram is that parallelogram, whichever
way the sides are run. -/
theorem ruledAlong_sides_eq_ok_iff (hr : 0 ≤ r) (hlong : tolerance ≤ ((2 * r) • up).norm)
    {f : Face ℝ} : ruledAlong up (straight (p - r • dir + r • up) (p - r • dir - r • up))
        (straight (p + r • dir - r • up) (p + r • dir + r • up)) = .ok f ↔
      f.facets = (Patch.around p dir up r).facets ∧ f.facets ≠ [] := by
  obtain ⟨hdown, hup⟩ := sides_eq p dir up r
  have hpos : 0 < ((2 * r) • up).dot up := by
    have hnorm := tolerance_pos.trans_le hlong
    rw [Vec.norm_smul] at hnorm
    have hr : 0 < 2 * r := (mul_nonneg zero_le_two hr).lt_of_ne' fun hzero => by
      rw [hzero, abs_zero, zero_mul] at hnorm
      exact lt_irrefl _ hnorm
    rw [Vec.smul_dot]
    exact mul_pos hr (Vec.norm_pos_iff.1 (pos_of_mul_pos_right hnorm (abs_nonneg _)))
  -- the first side is turned around, the second one is not
  have hfirst : orient up (straight (p - r • dir + r • up) (p - r • dir - r • up)) =
      straight (p - r • dir - r • up) (p - r • dir + r • up) := by
    refine orient_straight_of_neg ?_
    rw [hdown, ← neg_one_smul ℝ ((2 * r) • up), Vec.smul_dot]
    linarith
  have hsecond : orient up (straight (p + r • dir - r • up) (p + r • dir + r • up)) =
      straight (p + r • dir - r • up) (p + r • dir + r • up) :=
    orient_straight_of_nonneg (hup ▸ hpos.le)
  rw [ruledAlong, hfirst, hsecond]
  refine ruled_straight_eq_ok_iff ?_ (hup ▸ hlong)
  rw [← Vec.norm_neg, neg_sub, hdown, Vec.norm_neg]
  exact hlong

/-- So the face goes through the center. -/
theorem has_of_ruledAlong (hr : 0 ≤ r) {w v : Wire ℝ}
    (hw : segment? (p - r • dir + r • up) (p - r • dir - r • up) = some w)
    (hv : segment? (p + r • dir - r • up) (p + r • dir + r • up) = some v) {f : Face ℝ}
    (h : ruledAlong up w v = .ok f) : f.Has p := by
  obtain ⟨rfl, -⟩ := of_segment? hw
  obtain ⟨rfl, hlong⟩ := of_segment? hv
  rw [(sides_eq p dir up r).2] at hlong
  obtain ⟨hfacets, hne⟩ := (ruledAlong_sides_eq_ok_iff hr hlong).1 h
  rw [hfacets] at hne
  obtain ⟨t, ht, hample, hcenter⟩ := (Patch.isParallelogram_around p dir up r).holds_center hne
  have hmid : Vec.lerp (p - r • dir - r • up) (p + r • dir + r • up) (1 / 2) = p := by
    unfold Vec.lerp
    module
  have hcenter : t.Holds p := hmid ▸ hcenter
  exact has_of_holds (hfacets ▸ ht) hample hcenter

end Sides

end Face

end WingBox
