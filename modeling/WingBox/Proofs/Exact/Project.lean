import WingBox.Proofs.Cut.Slice
import WingBox.Proofs.Exact.Arclength

/-!
# Nearest points of wires, with exact numbers

A point is projected to a wire edge by edge, and a later edge replaces an earlier one only if it is
nearer by more than `Wire.projectionGap`.  The gap does not add up from edge to edge: the edge that
is kept is within one gap of every other one.

* `Wire.holds_iff_exists_pointAt`: the points of the edges of a wire are those at its parameters;
* `Wire.infDist`: the distance of a point from a wire as a set of points;
* `Wire.project_nearest`: the projection of a point, and the distance that is found with it, are
  right but for the gap.
-/

namespace WingBox

open Scalar

namespace Wire

/-- The point lies on the wire. -/
def Holds (w : Wire ℝ) (x : Vec ℝ) : Prop := ∃ e ∈ w.edges, e.Holds x

/-- The distance of a point from the points of a wire. -/
noncomputable def infDist (w : Wire ℝ) (p : Vec ℝ) : ℝ := sInf (p.distance '' {x | w.Holds x})

theorem nonempty_holds (w : Wire ℝ) : {x | w.Holds x}.Nonempty := by
  obtain ⟨e, es, hedges⟩ := exists_edges w
  exact ⟨e.start, e, hedges ▸ List.mem_cons_self, e.holds_start⟩

theorem infDist_le {w : Wire ℝ} {x : Vec ℝ} (hx : w.Holds x) (p : Vec ℝ) :
    w.infDist p ≤ p.distance x := by
  refine csInf_le ⟨0, ?_⟩ ⟨x, hx, rfl⟩
  rintro _ ⟨y, -, rfl⟩
  exact Vec.norm_nonneg _

theorem le_infDist {w : Wire ℝ} {p : Vec ℝ} {c : ℝ} (h : ∀ x, w.Holds x → c ≤ p.distance x) :
    c ≤ w.infDist p := by
  refine le_csInf (w.nonempty_holds.image _) ?_
  rintro _ ⟨x, hx, rfl⟩
  exact h x hx

section Spaced

variable {w : Wire ℝ} (h : w.Spaced)
include h

/-- The point at a parameter lies on the wire. -/
theorem holds_pointAt {t : ℝ} (ht : 0 ≤ t) (ht' : t ≤ 1) : w.Holds (w.pointAt t) := by
  have hlength := h.length_pos
  obtain ⟨i, p, q, lo, hi, hleg, hlo, hhi⟩ :=
    exists_leg w (mul_nonneg ht hlength.le) (mul_le_of_le_one_left hlength.le ht')
  have hpq := getElem?_edges_eq_some_iff.2 ⟨hleg.start, hleg.stop⟩
  have hspan := sub_nonneg.2 (hlo.trans hhi)
  refine ⟨⟨p, q⟩, List.mem_of_getElem? hpq, (t * w.length - lo) / (hi - lo),
    div_nonneg (sub_nonneg.2 hlo) hspan, ?_, hleg.pointAt_eq h ht ht' hlo hhi⟩
  exact div_le_one_of_le₀ (sub_le_sub_right hhi lo) hspan

/-- A point of the wire lies at some parameter. -/
theorem exists_pointAt {x : Vec ℝ} (hx : w.Holds x) : ∃ t, 0 ≤ t ∧ t ≤ 1 ∧ x = w.pointAt t := by
  obtain ⟨e, he, u, hu, hu', rfl⟩ := hx
  obtain ⟨r, hr, rfl⟩ := exists_span he 0
  obtain ⟨⟨hnonneg, hle⟩, hpoint⟩ := h.pointAt_span hr hu hu'
  exact ⟨_, hnonneg, hle, hpoint.symm⟩

/-- A wire has the points at its parameters, and no others. -/
theorem holds_iff_exists_pointAt {x : Vec ℝ} :
    w.Holds x ↔ ∃ t, 0 ≤ t ∧ t ≤ 1 ∧ x = w.pointAt t := by
  refine ⟨exists_pointAt h, ?_⟩
  rintro ⟨t, ht, ht', rfl⟩
  exact holds_pointAt h ht ht'

end Spaced

/-- **A point is projected to the nearest one.**  The projection is a parameter of the wire, and no
other parameter has a point that is nearer by more than the gap.  So the distance that is found is
never below the distance from the wire, and above it by the gap at most. -/
theorem project_nearest {ps : List (Vec ℝ)} {w : Wire ℝ} (hw : ofPoints? ps = some w)
    (p : Vec ℝ) :
    (0 ≤ w.project p ∧ w.project p ≤ 1) ∧
    (∀ t, 0 ≤ t → t ≤ 1 →
      p.distance (w.pointAt (w.project p)) ≤ p.distance (w.pointAt t) + tolerance * 1e-3) ∧
    w.infDist p ≤ w.distance p ∧ w.distance p ≤ w.infDist p + tolerance * 1e-3 := by
  have h := spaced_of_ofPoints? hw
  obtain ⟨⟨hnonneg, hle⟩, -, hall⟩ := h.project_spec p
  have hdistance : w.distance p = p.distance (w.pointAt (w.project p)) := Vec.distance_comm _ _
  have hnearest (t : ℝ) (ht : 0 ≤ t) (ht' : t ≤ 1) :
      p.distance (w.pointAt (w.project p)) ≤ p.distance (w.pointAt t) + tolerance * 1e-3 := by
    obtain ⟨e, he, u, hu, hu', hpoint⟩ := (holds_iff_exists_pointAt h).2 ⟨t, ht, ht', rfl⟩
    rw [hpoint]
    exact hall e he u hu hu'
  have hholds : w.Holds (w.pointAt (w.project p)) :=
    (holds_iff_exists_pointAt h).2 ⟨_, hnonneg, hle, rfl⟩
  rw [hdistance]
  refine ⟨⟨hnonneg, hle⟩, hnearest, infDist_le hholds p, ?_⟩
  -- all points of the wire are at its parameters
  rw [← sub_le_iff_le_add]
  refine le_infDist fun x hx => sub_le_iff_le_add.2 ?_
  obtain ⟨t, ht, ht', rfl⟩ := (holds_iff_exists_pointAt h).1 hx
  exact hnearest t ht ht'

/-- A point beside the long leg of the bend is found to be hardly farther than its foot. -/
theorem project_nearest_bend : ∃ w, ofPoints? bend = some w ∧
    (0 ≤ w.project ⟨3, 1, 0⟩ ∧ w.project ⟨3, 1, 0⟩ ≤ 1) ∧
      w.distance ⟨3, 1, 0⟩ ≤ 2 + tolerance * 1e-3 := by
  obtain ⟨w, hw, -, -, hleg⟩ := exists_wire_bend
  obtain ⟨hrange, -, -, hdistance⟩ := project_nearest hw ⟨3, 1, 0⟩
  have hfoot : w.Holds ⟨1, 1, 0⟩ := by
    have hedge := getElem?_edges_eq_some_iff.2 ⟨hleg.start, hleg.stop⟩
    refine ⟨_, List.mem_of_getElem? hedge, 1 / 3, by norm_num, by norm_num, ?_⟩
    ext <;> norm_num [Edge.pointAt, Vec.lerp]
  have htwo : (⟨3, 1, 0⟩ : Vec ℝ).distance ⟨1, 1, 0⟩ = 2 :=
    Vec.norm_eq (by norm_num) (by norm_num [Vec.normSq, Vec.dot])
  refine ⟨w, hw, hrange, hdistance.trans (add_le_add_left ?_ _)⟩
  exact htwo ▸ infDist_le hfoot _

end Wire

end WingBox
