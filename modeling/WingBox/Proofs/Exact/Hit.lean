import Mathlib.Data.Prod.Lex
import WingBox.Proofs.Exact.Distance

/-!
# Where wires first meet faces, with exact numbers

`Face.firstHit?` takes the first edge of a wire that pierces a facet, and on this edge the smallest
share.  A facet is passed over if the edge stays beyond the tolerance on one side, runs almost along
the plane, or comes to the plane away from the facet.  None of these happens where an edge
`Edge.Pierces` a facet.

* `Edge.Pierces.pierce?_eq`: the share at which an edge pierces a facet is the one that is found;
* `Face.exists_firstHit?_of_pierces`: so the wire is found to meet the face, there or before;
* `Face.firstHit?_exact`: what is found is on the wire and on the face, and no later than any share
  at which an edge pierces a facet.
-/

namespace WingBox

open Scalar

/-! ### One edge and one facet -/

/-- The share at which an edge between the sides of a plane comes to it. -/
theorem Plane.signedDistance_pointAt_eq_zero_iff {plane : Plane ℝ} {e : Edge ℝ}
    (hsides : plane.signedDistance e.start * plane.signedDistance e.stop < 0) {s : ℝ} :
    plane.signedDistance (e.pointAt s) = 0 ↔ plane.signedDistance e.start /
      (plane.signedDistance e.start - plane.signedDistance e.stop) = s := by
  have hne : plane.signedDistance e.start - plane.signedDistance e.stop ≠ 0 := by
    intro heq
    rw [sub_eq_zero.1 heq] at hsides
    exact (mul_self_nonneg _).not_gt hsides
  rw [signedDistance_pointAt, div_eq_iff hne]
  constructor
  · intro h
    linarith
  · intro h
    linarith

namespace Edge

/-- The edge passes through the facet at some share: it runs from one side of its plane to the
other, by more than the smallest difference that counts. -/
structure Pierces (e : Edge ℝ) (t : Triangle ℝ) (s : ℝ) : Prop where
  /-- The facet has a plane, -/
  area : tolerance * tolerance ≤ t.area
  /-- the ends of the edge are on opposite sides of it, -/
  sides : t.support.signedDistance e.start * t.support.signedDistance e.stop < 0
  /-- their distances from it differ by enough, -/
  apart : crossingGap ≤ |t.support.signedDistance e.start - t.support.signedDistance e.stop|
  nonneg : 0 ≤ s
  le_one : s ≤ 1
  /-- and at the share there is a point of the facet. -/
  holds : t.Holds (e.pointAt s)

variable {e : Edge ℝ} {t : Triangle ℝ} {s : ℝ}

/-- The share at which an edge pierces a facet is found. -/
theorem Pierces.pierce?_eq (h : e.Pierces t s) : e.pierce? t = some s := by
  have hshare := (Plane.signedDistance_pointAt_eq_zero_iff h.sides).1 h.holds.signedDistance_support
  have hclamp : clamp 0 1 s = s := clamp_of_mem h.nonneg h.le_one
  have hdistance : t.distance (e.pointAt s) ≤ tolerance := by
    rw [Triangle.distance_eq_zero h.area h.holds]
    exact tolerance_pos.le
  have hbetween : ¬ ((tolerance < t.support.signedDistance e.start ∧
      tolerance < t.support.signedDistance e.stop) ∨
      (t.support.signedDistance e.start < -tolerance ∧
        t.support.signedDistance e.stop < -tolerance)) := by
    have hpos := tolerance_pos
    have hsides := h.sides
    rintro (⟨hstart, hstop⟩ | ⟨hstart, hstop⟩)
    · exact (mul_pos (hpos.trans hstart) (hpos.trans hstop)).not_gt hsides
    · have hneg : -(tolerance : ℝ) < 0 := neg_neg_of_pos hpos
      exact (mul_pos_of_neg_of_neg (hstart.trans hneg) (hstop.trans hneg)).not_gt hsides
  unfold pierce?
  rw [Triangle.plane?_eq_support h.area]
  change (if _ then _ else _) = _
  dsimp only
  rw [if_neg hbetween, hshare, hclamp, if_pos hdistance]
  exact if_neg h.apart.not_gt

end Edge

/-! ### All edges and facets -/

/-- The wire passes through the point on one of its edges, given by its number, at some share. -/
def Wire.Passes (w : Wire ℝ) (i : ℕ) (s : ℝ) (q : Vec ℝ) : Prop :=
  ∃ e, w.edges[i]? = some e ∧ 0 ≤ s ∧ s ≤ 1 ∧ q = e.pointAt s

/-- What is found on an edge of a wire is on the wire. -/
theorem Wire.Passes.of_hit? {w : Wire ℝ} {i : ℕ} {e : Edge ℝ} (he : w.edges[i]? = some e)
    {f : Face ℝ} {q : Vec ℝ} (h : f.hit? e = some q) : ∃ s, w.Passes i s q := by
  obtain ⟨t, -, s, hpierce, hpoint⟩ := Face.exists_pierce?_of_hit? h
  obtain ⟨hnonneg, hle, -⟩ := Edge.of_pierce? hpierce
  exact ⟨s, e, he, hnonneg, hle, hpoint⟩

namespace Face

variable {f : Face ℝ} {w : Wire ℝ} {q : Vec ℝ}

/-- What is found is on an edge, and on no edge before it anything is found. -/
theorem exists_hit?_of_firstHit? (h : f.firstHit? w = some q) :
    ∃ (j : ℕ) (e : Edge ℝ), w.edges[j]? = some e ∧ f.hit? e = some q ∧
      ∀ i < j, ∀ e', w.edges[i]? = some e' → f.hit? e' = none := by
  obtain ⟨before, e, after, hedges, hhit, hnone⟩ := List.findSome?_eq_some_iff.1 h
  refine ⟨before.length, e, ?_, hhit, fun i hi e' he' => ?_⟩
  · rw [hedges, List.getElem?_append_right le_rfl, Nat.sub_self, List.getElem?_cons_zero]
  · rw [hedges, List.getElem?_append_left hi] at he'
    exact hnone e' (List.mem_of_getElem? he')

/-- If an edge pierces a facet the wire is found to meet the face, there or before. -/
theorem exists_firstHit?_of_pierces {i : ℕ} {e : Edge ℝ} (he : w.edges[i]? = some e)
    {t : Triangle ℝ} (ht : t ∈ f.facets) {s : ℝ} (h : e.Pierces t s) :
    ∃ q j r, f.firstHit? w = some q ∧ w.Passes j r q ∧ toLex (j, r) ≤ toLex (i, s) := by
  obtain ⟨r, hr, hnonneg, hle⟩ := exists_hit?_of_pierce? ht h.pierce?_eq
  cases hq : f.firstHit? w with
  | none =>
    have hnone := List.findSome?_eq_none_iff.1 hq e (List.mem_of_getElem? he)
    exact absurd (hr.symm.trans hnone) (Option.some_ne_none _)
  | some q =>
    obtain ⟨j, e', hj, hhit, hbefore⟩ := exists_hit?_of_firstHit? hq
    rcases lt_trichotomy j i with hlt | rfl | hgt
    case inl =>
      obtain ⟨r', hpasses⟩ := Wire.Passes.of_hit? hj hhit
      exact ⟨q, j, r', rfl, hpasses, Prod.Lex.toLex_le_toLex.2 (.inl hlt)⟩
    case inr.inl =>
      obtain rfl := Option.some.inj (hj.symm.trans he)
      obtain rfl := Option.some.inj (hhit.symm.trans hr)
      exact ⟨_, j, r, rfl, ⟨e', hj, hnonneg, hle.trans h.le_one, rfl⟩,
        Prod.Lex.toLex_le_toLex.2 (.inr ⟨rfl, hle⟩)⟩
    case inr.inr =>
      -- this edge comes before the one that is found
      exact absurd (hr.symm.trans (hbefore i hgt e he)) (Option.some_ne_none _)

/-- **The first hit.**  What is found is a point of the wire and within the tolerance of the face.
Where an edge of the wire pierces a facet of the face a point is found, no later along the wire. -/
theorem firstHit?_exact (f : Face ℝ) (w : Wire ℝ) :
    (∀ q, f.firstHit? w = some q →
      (∃ i s, w.Passes i s q) ∧ ∃ d, f.distance? q = some d ∧ d ≤ tolerance) ∧
    ∀ i e, w.edges[i]? = some e → ∀ t ∈ f.facets, ∀ s, e.Pierces t s →
      ∃ q j r, f.firstHit? w = some q ∧ w.Passes j r q ∧ toLex (j, r) ≤ toLex (i, s) := by
  refine ⟨fun q hq => ⟨?_, has_iff_distance?.1 (has_of_firstHit? hq).1⟩,
    fun i e he t ht s hs => exists_firstHit?_of_pierces he ht hs⟩
  obtain ⟨j, e, hj, hhit, -⟩ := exists_hit?_of_firstHit? hq
  exact ⟨j, Wire.Passes.of_hit? hj hhit⟩

/-- A facet across the span. -/
noncomputable def gate : Triangle ℝ := ⟨⟨-1, 0, -1⟩, ⟨1, 0, -1⟩, ⟨0, 0, 1⟩⟩

/-- A wire through the facet and back. -/
noncomputable def thereAndBack : Wire ℝ := ⟨[⟨0, -1, 0⟩, ⟨0, 1, 0⟩, ⟨0, -1, 0⟩], by decide⟩

theorem norm_cross_gate : gate.cross.norm = 4 := by
  refine Vec.norm_eq (by norm_num) ?_
  norm_num [gate, Triangle.cross, Vec.cross, Vec.normSq, Vec.dot]

theorem signedDistance_gate (y : ℝ) : gate.support.signedDistance ⟨0, y, 0⟩ = -y := by
  rw [Triangle.signedDistance_support, norm_cross_gate]
  norm_num [gate, Triangle.cross, Vec.cross, Vec.dot]
  ring

/-- Both edges pierce the facet in their middle. -/
theorem pierces_gate {a : ℝ} (ha : a * a = 1) :
    Edge.Pierces ⟨⟨0, a, 0⟩, ⟨0, -a, 0⟩⟩ gate 0.5 := by
  have hone : |a| = 1 := by rw [← abs_one, ← sq_eq_sq_iff_abs_eq_abs, sq, ha, one_pow]
  refine ⟨?_, ?_, ?_, by norm_num, by norm_num, (1 / 4, 1 / 2), ?_, ?_⟩
  · rw [Triangle.area, norm_cross_gate, tolerance]
    norm_num
  · rw [signedDistance_gate, signedDistance_gate]
    linarith
  · rw [signedDistance_gate, signedDistance_gate, Edge.crossingGap, tolerance]
    have hspan : |-a - -(-a)| = 2 := by
      rw [show -a - -(-a) = -(2 * a) by ring, abs_neg, abs_mul, hone]
      norm_num
    rw [hspan]
    norm_num
  · exact ⟨by norm_num, by norm_num, by norm_num⟩
  · unfold Edge.pointAt Vec.lerp Triangle.point gate
    ext <;> norm_num
    ring

theorem firstHit?_exact_gate : thereAndBack.edges[1]? = some ⟨⟨0, 1, 0⟩, ⟨0, -1, 0⟩⟩ ∧
    Edge.Pierces ⟨⟨0, 1, 0⟩, ⟨0, -1, 0⟩⟩ gate 0.5 ∧
    ∃ q j r, Face.firstHit? ⟨[gate]⟩ thereAndBack = some q ∧ thereAndBack.Passes j r q ∧
      toLex (j, r) ≤ toLex (0, 0.5) ∧ ∃ d, Face.distance? ⟨[gate]⟩ q = some d ∧ d ≤ tolerance := by
  have hback : Edge.Pierces ⟨⟨0, 1, 0⟩, ⟨0, -1, 0⟩⟩ gate 0.5 := pierces_gate (by norm_num)
  have hthere : Edge.Pierces ⟨⟨0, -1, 0⟩, ⟨0, 1, 0⟩⟩ gate 0.5 := by
    have hpierces := pierces_gate (a := -1) (by norm_num)
    rwa [neg_neg] at hpierces
  obtain ⟨hsound, hfirst⟩ := firstHit?_exact ⟨[gate]⟩ thereAndBack
  obtain ⟨q, j, r, hq, hpasses, hle⟩ :=
    hfirst 0 _ rfl gate (List.mem_singleton_self gate) 0.5 hthere
  exact ⟨rfl, hback, q, j, r, hq, hpasses, hle, (hsound q hq).2⟩

end Face

end WingBox
