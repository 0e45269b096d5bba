import WingBox.Proofs.Exact.Wire
import WingBox.Cut.Hit

/-!
# Where wires first meet planes, with exact numbers

A wire that runs through points on both sides of a plane may cross it several times.
`Plane.firstCrossing?` finds the first crossing, wherever the plane comes from.

* `Plane.spec_of_firstCrossing?`: up to the parameter that is found the wire keeps strictly to one
  side, and there it has come to the plane;
* `Plane.firstCrossing?_vertex`: so it is the parameter of a point in the plane if the wire is clear
  of the plane before this point, and else no later than that of the point before;
* `Plane.firstMet_of_firstCrossing?`: both together;
* `Plane.firstCrossing?_eq_none_iff`: no crossing is found exactly when all points of the wire are
  away from the plane on one side;
* `Plane.firstCrossing?_exact`: the search is sound, complete and finds no later crossing than the
  first.
-/

namespace WingBox

open Scalar

/-! ### Distances from a plane -/

theorem Plane.signedDistance_pointAt (plane : Plane ℝ) (e : Edge ℝ) (t : ℝ) :
    plane.signedDistance (e.pointAt t) =
      (1 - t) * plane.signedDistance e.start + t * plane.signedDistance e.stop := by
  simp only [signedDistance, Edge.pointAt, Vec.lerp, Vec.dot, Vec.add_x, Vec.add_y, Vec.add_z,
    Vec.sub_x, Vec.sub_y, Vec.sub_z, Vec.smul_x, Vec.smul_y, Vec.smul_z]
  ring

/-- Numbers with the sign of one number have the sign of each other. -/
theorem mul_pos_of_mul_pos {a b c : ℝ} (hab : 0 < a * b) (hbc : 0 < b * c) : 0 < a * c := by
  have hsquare : 0 < b * b := by
    rcases eq_or_ne b 0 with rfl | hb
    · rw [mul_zero] at hab
      exact absurd hab (lt_irrefl 0)
    · exact mul_self_pos.2 hb
  refine (mul_pos_iff_of_pos_left hsquare).1 ?_
  calc 0 < a * b * (b * c) := mul_pos hab hbc
    _ = b * b * (a * c) := by ring

namespace Plane

/-! ### One edge -/

section Edge

variable {plane : Plane ℝ} {e : Edge ℝ}

/-- An edge between points strictly on one side stays there. -/
theorem mul_signedDistance_pos_of_side
    (hside : 0 < plane.signedDistance e.start * plane.signedDistance e.stop) {t : ℝ} (ht : 0 ≤ t)
    (ht' : t ≤ 1) :
    0 < plane.signedDistance e.start * plane.signedDistance (e.pointAt t) := by
  rw [signedDistance_pointAt]
  set da := plane.signedDistance e.start
  set db := plane.signedDistance e.stop
  have hsquare : 0 < da * da := mul_self_pos.2 (left_ne_zero_of_mul hside.ne')
  have hsplit : da * ((1 - t) * da + t * db) = (1 - t) * (da * da) + t * (da * db) := by ring
  rw [hsplit]
  rcases ht.eq_or_lt with rfl | hpos
  · rw [sub_zero, one_mul, zero_mul, add_zero]
    exact hsquare
  · exact add_pos_of_nonneg_of_pos (mul_nonneg (sub_nonneg.2 ht') hsquare.le)
      (mul_pos hpos hside)

/-- The share of an edge at which it comes to the plane. -/
theorem spec_of_crosses (haway : tolerance < |plane.signedDistance e.start|)
    (hcrosses : plane.signedDistance e.start * plane.signedDistance e.stop < 0 ∨
      |plane.signedDistance e.stop| ≤ tolerance) :
    let t := clamp 0 1 (plane.signedDistance e.start /
      (plane.signedDistance e.start - plane.signedDistance e.stop))
    0 ≤ t ∧ t ≤ 1 ∧ |plane.signedDistance (e.pointAt t)| ≤ tolerance ∧
      ∀ u, 0 ≤ u → u < t →
        0 < plane.signedDistance e.start * plane.signedDistance (e.pointAt u) := by
  have htolerance := tolerance_pos
  simp only [signedDistance_pointAt]
  set da := plane.signedDistance e.start
  set db := plane.signedDistance e.stop
  have hda : da ≠ 0 := abs_pos.1 (htolerance.trans haway)
  have hsquare : 0 < da * da := mul_self_pos.2 hda
  have hshare : da / (da - db) = da * da / (da * (da - db)) := (mul_div_mul_left _ _ hda).symm
  rw [clamp_eq]
  rcases lt_or_ge (da * db) 0 with hopposite | hsame
  · -- the edge goes through the plane
    have hgap : 0 < da * (da - db) := by linarith [mul_sub da da db]
    have hnonneg : 0 ≤ da / (da - db) := by
      rw [hshare]
      exact div_nonneg hsquare.le hgap.le
    have hle : da / (da - db) ≤ 1 := by
      rw [hshare, div_le_one hgap]
      linarith [mul_sub da da db]
    rw [min_eq_right hle, max_eq_right hnonneg]
    have hmul : da / (da - db) * (da - db) = da :=
      div_mul_cancel₀ _ (right_ne_zero_of_mul hgap.ne')
    generalize da / (da - db) = t at *
    refine ⟨hnonneg, hle, ?_, fun u _ hut => ?_⟩
    · have hzero : (1 - t) * da + t * db = 0 := by linarith
      rw [hzero, abs_zero]
      exact htolerance.le
    · calc 0 < da * (da - db) * (t - u) := mul_pos hgap (sub_pos.2 hut)
        _ = da * ((1 - u) * da + u * db) := by linear_combination da * hmul
  · -- the edge stops near to the plane, on the side on which it starts
    have hnear : |db| ≤ tolerance := hcrosses.resolve_left hsame.not_gt
    have hgap : 0 < da * (da - db) := by
      have hlt : da * db < da * da := by
        calc da * db = |da| * |db| := by rw [← abs_mul, abs_of_nonneg hsame]
          _ < |da| * |da| := mul_lt_mul_of_pos_left (hnear.trans_lt haway) (abs_pos.2 hda)
          _ = da * da := abs_mul_abs_self da
      linarith [mul_sub da da db]
    have hone : 1 ≤ da / (da - db) := by
      rw [hshare, one_le_div hgap]
      linarith [mul_sub da da db]
    rw [min_eq_left hone, max_eq_right zero_le_one]
    refine ⟨zero_le_one, le_rfl, ?_, fun u hu hu' => ?_⟩
    · rwa [sub_self, zero_mul, zero_add, one_mul]
    · calc 0 < (1 - u) * (da * da) + u * (da * db) :=
          add_pos_of_pos_of_nonneg (mul_pos (sub_pos.2 hu') hsquare) (mul_nonneg hu hsame)
        _ = da * ((1 - u) * da + u * db) := by ring

end Edge

/-! ### Paths -/

section Path

open Wire (along Path)

variable {plane : Plane ℝ} {e : Edge ℝ} {es : List (Edge ℝ)}

/-- The ways in which the search comes to its result at the first edge, or goes on. -/
theorem crossingFrom_cases {b x : ℝ} (hx : plane.crossingFrom b (e :: es) = some x) :
    (|plane.signedDistance e.start| ≤ tolerance ∧ x = b) ∨
    (tolerance < |plane.signedDistance e.start| ∧
      (plane.signedDistance e.start * plane.signedDistance e.stop < 0 ∨
        |plane.signedDistance e.stop| ≤ tolerance) ∧
      x = b + clamp 0 1 (plane.signedDistance e.start /
        (plane.signedDistance e.start - plane.signedDistance e.stop)) * e.length) ∨
    (tolerance < |plane.signedDistance e.start| ∧ tolerance < |plane.signedDistance e.stop| ∧
      0 < plane.signedDistance e.start * plane.signedDistance e.stop ∧
      plane.crossingFrom (b + e.length) es = some x) := by
  have htolerance := tolerance_pos
  simp only [crossingFrom] at hx
  split at hx
  next hnear => exact .inl ⟨hnear, (Option.some.inj hx).symm⟩
  next haway =>
  split at hx
  next hcrosses => exact .inr (.inl ⟨not_le.1 haway, hcrosses, (Option.some.inj hx).symm⟩)
  next hpasses =>
    obtain ⟨hside, hstop⟩ := not_or.1 hpasses
    have haway : tolerance < |plane.signedDistance e.start| := not_le.1 haway
    have hstop : tolerance < |plane.signedDistance e.stop| := not_le.1 hstop
    refine .inr (.inr ⟨haway, hstop, (not_lt.1 hside).lt_of_ne' ?_, hx⟩)
    exact mul_ne_zero (abs_pos.1 (htolerance.trans haway)) (abs_pos.1 (htolerance.trans hstop))

/-- The point at a share of the first edge. -/
theorem along_head (h : Path (e :: es)) {t : ℝ} (ht : 0 ≤ t) (ht' : t ≤ 1) :
    along (e :: es) (t * e.length) = e.pointAt t := by
  have hspan := Wire.along_span (b := 0) h List.mem_cons_self ht ht'
  rwa [sub_self, zero_add] at hspan

/-- The search finds an arclength of the path at which it has come to the plane, and before which
it keeps strictly to the side on which it starts. -/
theorem spec_of_crossingFrom {e : Edge ℝ} {es : List (Edge ℝ)} (h : Path (e :: es)) {b x : ℝ}
    (hx : plane.crossingFrom b (e :: es) = some x) :
    b ≤ x ∧ x ≤ b + ((e :: es).map Edge.length).sum ∧
      |plane.signedDistance (along (e :: es) (x - b))| ≤ tolerance ∧
      ∀ s, 0 ≤ s → s < x - b →
        0 < plane.signedDistance e.start * plane.signedDistance (along (e :: es) s) := by
  have hlength := h.head_pos
  have hrest := h.tail.sum_nonneg
  rw [List.map_cons, List.sum_cons]
  obtain ⟨hnear, rfl⟩ | ⟨haway, hcrosses, rfl⟩ | ⟨-, -, hside, hx⟩ := crossingFrom_cases hx
  · -- the path starts near to the plane
    refine ⟨le_rfl, by linarith, ?_, fun s hs hs' => absurd hs (by linarith)⟩
    rwa [sub_self, Wire.along_zero h]
  · -- its first edge comes to the plane
    obtain ⟨ht, ht', hnear, hbefore⟩ := spec_of_crosses haway hcrosses
    generalize clamp (0 : ℝ) 1 _ = t at *
    have hle : t * e.length ≤ e.length := mul_le_of_le_one_left hlength.le ht'
    rw [add_sub_cancel_left, along_head h ht ht']
    refine ⟨le_add_of_nonneg_right (mul_nonneg ht hlength.le), by linarith, hnear,
      fun s hs hst => ?_⟩
    rw [Wire.along_of_lt h (hst.trans_le hle)]
    exact hbefore _ (div_nonneg hs hlength.le) ((div_lt_iff₀ hlength).2 hst)
  · -- its first edge keeps to one side
    match es, h, hx with
    | f :: es, h, hx =>
      obtain ⟨hlo, hhi, hnear, hbefore⟩ := spec_of_crossingFrom h.tail hx
      refine ⟨by linarith, by linarith, ?_, fun s hs hst => ?_⟩
      · rwa [Wire.along_of_le (by linarith), sub_sub]
      · rcases lt_or_ge s e.length with hlt | hge
        · rw [Wire.along_of_lt h hlt]
          exact mul_signedDistance_pos_of_side hside (div_nonneg hs hlength.le)
            ((div_le_one hlength).2 hlt.le)
        · rw [Wire.along_of_le hge]
          rw [h.stop_eq] at hside
          exact mul_pos_of_mul_pos hside (hbefore _ (sub_nonneg.2 hge) (by linarith))

end Path

end Plane

/-! ### Points -/

namespace Wire

/-- The arclengths of points in a row, if the first one has arclength `s`. -/
noncomputable def arclengthsFrom (s : ℝ) : List (Vec ℝ) → List ℝ
  | [] => []
  | [_] => [s]
  | p :: q :: ps => s :: arclengthsFrom (s + (q - p).norm) (q :: ps)

theorem partialSums_go_eq_arclengthsFrom (p : Vec ℝ) (ps : List (Vec ℝ)) (s : ℝ) :
    partialSums.go s ((List.zipWith Edge.mk (p :: ps) ps).map Edge.length) =
      arclengthsFrom s (p :: ps) := by
  induction ps generalizing p s with
  | nil => rfl
  | cons q ps ih => exact congrArg (s :: ·) (ih q (s + (q - p).norm))

/-- The parameters of the points of a wire are their shares of its length. -/
theorem parameters_eq (w : Wire ℝ) :
    w.parameters = (arclengthsFrom 0 w.points).map (· / w.length) := by
  obtain ⟨points, hlength⟩ := w
  match points, hlength with
  | p :: q :: ps, _ =>
    exact congrArg (List.map _) (partialSums_go_eq_arclengthsFrom p (q :: ps) 0)

/-- Every point of a wire has a parameter. -/
theorem exists_parameter {w : Wire ℝ} {k : ℕ} {v : Vec ℝ} (hv : w.points[k]? = some v) :
    ∃ t, w.parameters[k]? = some t := by
  have htwo := w.two_le_length
  obtain ⟨hlt, -⟩ := List.getElem?_eq_some_iff.1 hv
  have hlength : k < w.parameters.length := by
    rw [parameters, List.length_map, length_partialSums, List.length_map, length_edges]
    omega
  exact ⟨_, List.getElem?_eq_getElem hlength⟩

/-- The points of a path lie within it. -/
theorem bounds_of_getElem?_arclengthsFrom {p : Vec ℝ} {ps : List (Vec ℝ)} {b s : ℝ} {k : ℕ}
    (hs : (arclengthsFrom b (p :: ps))[k]? = some s) :
    b ≤ s ∧ s ≤ b + ((List.zipWith Edge.mk (p :: ps) ps).map Edge.length).sum := by
  have hsum : 0 ≤ ((List.zipWith Edge.mk (p :: ps) ps).map Edge.length).sum :=
    List.sum_nonneg (List.forall_mem_map.2 fun e _ => Vec.norm_nonneg _)
  match ps, k with
  | [], 0 | _ :: _, 0 =>
    obtain rfl : b = s := Option.some.inj hs
    exact ⟨le_rfl, le_add_of_nonneg_right hsum⟩
  | q :: ps, k + 1 =>
    have hnorm := Vec.norm_nonneg (q - p)
    have hs : (arclengthsFrom (b + (q - p).norm) (q :: ps))[k]? = some s := hs
    obtain ⟨hlo, hhi⟩ := bounds_of_getElem?_arclengthsFrom hs
    refine ⟨by linarith, hhi.trans_eq ?_⟩
    exact add_assoc _ _ _

/-- There is a point before another one. -/
theorem exists_arclengthsFrom {p : Vec ℝ} {ps : List (Vec ℝ)} {b s : ℝ} {k : ℕ}
    (hs : (arclengthsFrom b (p :: ps))[k + 1]? = some s) :
    ∃ t, (arclengthsFrom b (p :: ps))[k]? = some t ∧ b ≤ t := by
  obtain ⟨hlt, -⟩ := List.getElem?_eq_some_iff.1 hs
  have ht := List.getElem?_eq_getElem (Nat.lt_of_succ_lt hlt)
  exact ⟨_, ht, (bounds_of_getElem?_arclengthsFrom ht).1⟩

/-- The points of a path are found at their arclengths. -/
theorem along_arclengthsFrom {p q : Vec ℝ} {ps : List (Vec ℝ)}
    (h : Path (List.zipWith Edge.mk (p :: q :: ps) (q :: ps))) {b s : ℝ} {k : ℕ}
    (hs : (arclengthsFrom b (p :: q :: ps))[k]? = some s) {v : Vec ℝ}
    (hv : (p :: q :: ps)[k]? = some v) :
    along (List.zipWith Edge.mk (p :: q :: ps) (q :: ps)) (s - b) = v := by
  match k with
  | 0 =>
    obtain rfl : b = s := Option.some.inj hs
    obtain rfl : p = v := Option.some.inj hv
    rw [sub_self]
    exact along_zero h
  | k + 1 =>
    have hv : (q :: ps)[k]? = some v := hv
    have hs : (arclengthsFrom (b + (q - p).norm) (q :: ps))[k]? = some s := hs
    have hle := (bounds_of_getElem?_arclengthsFrom hs).1
    match ps with
    | [] =>
      obtain rfl : k = 0 := by simpa using (List.getElem?_eq_some_iff.1 hv).1
      obtain rfl : b + (q - p).norm = s := Option.some.inj hs
      obtain rfl : q = v := Option.some.inj hv
      have hpos : 0 < (q - p).norm := h.head_pos
      change (Edge.mk p q).pointAt ((b + (q - p).norm - b) / (q - p).norm) = q
      rw [add_sub_cancel_left, div_self hpos.ne', pointAt_one]
    | r :: ps =>
      have hrest := along_arclengthsFrom h.tail hs hv
      rw [← sub_sub] at hrest
      exact (along_of_le (le_sub_iff_add_le'.2 hle)).trans hrest

end Wire

namespace Plane

variable {plane : Plane ℝ}

/-- The points are away from the plane, on the side of `o`. -/
def Clears (plane : Plane ℝ) (o : Vec ℝ) (ps : List (Vec ℝ)) : Prop :=
  ∀ p ∈ ps, tolerance < |plane.signedDistance p| ∧
    0 < plane.signedDistance o * plane.signedDistance p

theorem clears_nil (plane : Plane ℝ) (o : Vec ℝ) : plane.Clears o [] := nofun

theorem clears_cons {o p : Vec ℝ} {ps : List (Vec ℝ)} : plane.Clears o (p :: ps) ↔
    (tolerance < |plane.signedDistance p| ∧ 0 < plane.signedDistance o * plane.signedDistance p) ∧
      plane.Clears o ps := List.forall_mem_cons

/-- A side of the plane is that of each of its points. -/
theorem clears_congr {o q : Vec ℝ} (h : 0 < plane.signedDistance o * plane.signedDistance q)
    (ps : List (Vec ℝ)) : plane.Clears o ps ↔ plane.Clears q ps := by
  have h' : 0 < plane.signedDistance q * plane.signedDistance o := by rwa [mul_comm]
  exact forall₂_congr fun p _ => and_congr_right fun _ =>
    ⟨mul_pos_of_mul_pos h', mul_pos_of_mul_pos h⟩

/-- Points are clear of a plane if all of them are farther than the tolerance above it, or below. -/
theorem clears_self_iff {p : Vec ℝ} {ps : List (Vec ℝ)} : plane.Clears p (p :: ps) ↔
    (∀ q ∈ p :: ps, tolerance < plane.signedDistance q) ∨
      ∀ q ∈ p :: ps, plane.signedDistance q < -tolerance := by
  have htolerance := tolerance_pos
  constructor
  · intro h
    obtain ⟨hp, -⟩ := h p List.mem_cons_self
    rcases lt_abs.1 hp with hp | hp
    · refine .inl fun q hq => ?_
      have hside := (h q hq).2
      have hpos : 0 < plane.signedDistance q := pos_of_mul_pos_right hside (by linarith)
      rw [← abs_of_pos hpos]
      exact (h q hq).1
    · refine .inr fun q hq => ?_
      have hside := (h q hq).2
      have hneg : plane.signedDistance q < 0 := neg_of_mul_pos_right hside (by linarith)
      rw [lt_neg, ← abs_of_neg hneg]
      exact (h q hq).1
  · rintro (h | h) q hq
    · have hp := h p List.mem_cons_self
      exact ⟨(h q hq).trans_le (le_abs_self _), mul_pos (by linarith) (htolerance.trans (h q hq))⟩
    · have hp := h p List.mem_cons_self
      have hneg : plane.signedDistance q < 0 := (h q hq).trans (neg_neg_of_pos htolerance)
      exact ⟨(lt_neg.1 (h q hq)).trans_le (neg_le_abs _), mul_pos_of_neg_of_neg (by linarith) hneg⟩

/-- The search finds nothing if and only if all points are clear of the plane. -/
theorem crossingFrom_eq_none_iff (p q : Vec ℝ) (ps : List (Vec ℝ)) (b : ℝ) :
    plane.crossingFrom b (List.zipWith Edge.mk (p :: q :: ps) (q :: ps)) = none ↔
      plane.Clears p (p :: q :: ps) := by
  have htolerance := tolerance_pos
  have hstep : plane.crossingFrom b (List.zipWith Edge.mk (p :: q :: ps) (q :: ps)) =
      if |plane.signedDistance p| ≤ tolerance then some b
      else if plane.signedDistance p * plane.signedDistance q < 0 ∨
          |plane.signedDistance q| ≤ tolerance then
        some (b + clamp 0 1 (plane.signedDistance p /
          (plane.signedDistance p - plane.signedDistance q)) * (q - p).norm)
      else plane.crossingFrom (b + (q - p).norm) (List.zipWith Edge.mk (q :: ps) ps) := rfl
  rw [hstep, clears_cons, clears_cons]
  split
  next hnear => exact iff_of_false (Option.some_ne_none _) fun h => h.1.1.not_ge hnear
  next haway =>
  split
  next hcrosses =>
    refine iff_of_false (Option.some_ne_none _) fun h => ?_
    exact not_or.2 ⟨h.2.1.2.not_gt, h.2.1.1.not_ge⟩ hcrosses
  next hpasses =>
    obtain ⟨hside, hfar⟩ := not_or.1 hpasses
    have haway : tolerance < |plane.signedDistance p| := not_le.1 haway
    have hfar : tolerance < |plane.signedDistance q| := not_le.1 hfar
    have hp : plane.signedDistance p ≠ 0 := abs_pos.1 (htolerance.trans haway)
    have hq : plane.signedDistance q ≠ 0 := abs_pos.1 (htolerance.trans hfar)
    have hside := (not_lt.1 hside).lt_of_ne' (mul_ne_zero hp hq)
    rw [and_iff_right ⟨haway, mul_self_pos.2 hp⟩, and_iff_right ⟨hfar, hside⟩]
    match ps with
    | [] => exact iff_of_true rfl (clears_nil _ _)
    | r :: ps =>
      have hself : plane.Clears q (q :: r :: ps) ↔ _ := clears_cons
      rw [crossingFrom_eq_none_iff q r ps, clears_congr hside, hself,
        and_iff_right ⟨hfar, mul_self_pos.2 hq⟩]

/-- A search that meets a point in the plane finds it if it is clear of the plane before, and else
nothing beyond the point before it. -/
theorem crossingFrom_vertex {p : Vec ℝ} {ps : List (Vec ℝ)} {b x : ℝ}
    (hx : plane.crossingFrom b (List.zipWith Edge.mk (p :: ps) ps) = some x) {k : ℕ} {v : Vec ℝ}
    (hv : (p :: ps)[k]? = some v) (hzero : plane.signedDistance v = 0) {s : ℝ}
    (hs : (Wire.arclengthsFrom b (p :: ps))[k]? = some s) :
    (plane.Clears p ((p :: ps).take k) → x = s) ∧
      (¬ plane.Clears p ((p :: ps).take k) →
        ∃ t, (Wire.arclengthsFrom b (p :: ps))[k - 1]? = some t ∧ x ≤ t) := by
  match ps with
  | [] => cases hx
  | q :: ps =>
    have htolerance := tolerance_pos
    have hcases := crossingFrom_cases hx
    match k with
    | 0 =>
      obtain rfl : b = s := Option.some.inj hs
      obtain rfl : p = v := Option.some.inj hv
      have hnear : ¬ tolerance < |plane.signedDistance p| := by
        rw [hzero, abs_zero]
        exact htolerance.not_gt
      obtain ⟨-, rfl⟩ | ⟨haway, -⟩ | ⟨haway, -⟩ := hcases
      · exact ⟨fun _ => rfl, fun h => absurd (fun _ h => nomatch h) h⟩
      · exact absurd haway hnear
      · exact absurd haway hnear
    | k + 1 =>
      have hs' := hs
      have hv : (q :: ps)[k]? = some v := hv
      have hs : (Wire.arclengthsFrom (b + (q - p).norm) (q :: ps))[k]? = some s := hs
      obtain ⟨hnear, rfl⟩ | ⟨haway, hcrosses, rfl⟩ | ⟨haway, -, hside, hx⟩ := hcases
      · -- the first point is near to the plane
        obtain ⟨t, ht, hle⟩ := Wire.exists_arclengthsFrom hs'
        refine ⟨fun h => absurd (clears_cons.1 h).1.1 hnear.not_gt, fun _ => ⟨t, ht, hle⟩⟩
      · -- the first edge comes to the plane
        have hsquare : 0 < plane.signedDistance p * plane.signedDistance p :=
          mul_self_pos.2 (abs_pos.1 (htolerance.trans haway))
        match k with
        | 0 =>
          obtain rfl : q = v := Option.some.inj hv
          obtain rfl : b + (q - p).norm = s := by cases ps <;> exact Option.some.inj hs
          have hclear : plane.Clears p [p] := clears_cons.2 ⟨⟨haway, hsquare⟩, clears_nil _ _⟩
          refine ⟨fun _ => ?_, fun h => absurd hclear h⟩
          dsimp only
          rw [hzero, sub_zero, div_self (abs_pos.1 (htolerance.trans haway)),
            clamp_of_mem zero_le_one le_rfl, one_mul]
          rfl
        | k + 1 =>
          obtain ⟨t, ht, hle⟩ := Wire.exists_arclengthsFrom hs
          refine ⟨fun h => ?_, fun _ => ⟨t, ht, ?_⟩⟩
          · obtain ⟨hq, hside⟩ := (clears_cons.1 (clears_cons.1 h).2).1
            exact absurd hcrosses (not_or.2 ⟨hside.not_gt, hq.not_ge⟩)
          · have hshare := mul_le_of_le_one_left (Vec.norm_nonneg (q - p))
              (spec_of_crosses haway hcrosses).2.1
            exact (add_le_add_right hshare b).trans hle
      · -- the first edge keeps to one side
        have hsquare : 0 < plane.signedDistance p * plane.signedDistance p :=
          mul_self_pos.2 (abs_pos.1 (htolerance.trans haway))
        have hclears : plane.Clears p ((p :: q :: ps).take (k + 1)) ↔
            plane.Clears q ((q :: ps).take k) := by
          rw [List.take_succ_cons, clears_cons, and_iff_right ⟨haway, hsquare⟩,
            clears_congr hside]
        obtain ⟨hclear, hunclear⟩ := crossingFrom_vertex hx hv hzero hs
        rw [hclears]
        refine ⟨hclear, fun h => ?_⟩
        match k with
        | 0 => exact absurd (clears_nil _ _) h
        | k + 1 => exact hunclear h

end Plane

/-! ### Wires -/

/-- A wire that starts near to a plane is found to meet it there. -/
theorem Plane.firstCrossing?_of_near_start {plane : Plane ℝ} {w : Wire ℝ}
    (h : |plane.signedDistance w.start| ≤ tolerance) : plane.firstCrossing? w = some 0 := by
  obtain ⟨points, hlength⟩ := w
  match points, hlength with
  | p :: q :: ps, _ =>
    have hfirst : plane.crossingFrom 0 (⟨p, q⟩ :: List.zipWith Edge.mk (q :: ps) ps) = some 0 :=
      if_pos h
    exact Option.map_eq_some_iff.2 ⟨0, hfirst, zero_div _⟩

theorem Plane.firstCrossing?_eq_none_iff (plane : Plane ℝ) (w : Wire ℝ) :
    plane.firstCrossing? w = none ↔ (∀ p ∈ w.points, tolerance < plane.signedDistance p) ∨
      ∀ p ∈ w.points, plane.signedDistance p < -tolerance := by
  obtain ⟨points, hlength⟩ := w
  match points, hlength with
  | p :: q :: ps, _ =>
    rw [firstCrossing?, Option.map_eq_none_iff, ← clears_self_iff]
    exact crossingFrom_eq_none_iff p q ps 0

section Wires

variable {w : Wire ℝ} (h : w.Spaced)
include h

namespace Wire

/-- An arclength on a wire is that of its share of the length. -/
theorem arclength_div_length {s : ℝ} (hs : 0 ≤ s) (hs' : s ≤ w.length) :
    w.arclength (s / w.length) = s := by
  have hlength := h.length_pos
  rw [arclength, clamp_of_mem (div_nonneg hs hlength.le) ((div_le_one hlength).2 hs'),
    div_mul_cancel₀ _ hlength.ne']

/-- The points of a wire are found at their parameters. -/
theorem pointAt_parameter {k : ℕ} {v : Vec ℝ} (hv : w.points[k]? = some v) {t : ℝ}
    (ht : w.parameters[k]? = some t) : w.pointAt t = v := by
  rw [parameters_eq, List.getElem?_map, Option.map_eq_some_iff] at ht
  obtain ⟨s, hs, rfl⟩ := ht
  have hlength := w.length_eq
  have hpath := h.path
  have hpoint (s : ℝ) (hs : 0 ≤ s) (hs' : s ≤ w.length) :
      w.pointAt (s / w.length) = along w.edges s := by
    rw [pointAt_eq_along h, arclength_div_length h hs hs']
  obtain ⟨points, htwo⟩ := w
  match points, htwo with
  | p :: q :: ps, _ =>
    obtain ⟨hlo, hhi⟩ := bounds_of_getElem?_arclengthsFrom hs
    rw [hpoint s hlo (by rw [hlength]; rwa [zero_add] at hhi)]
    have halong := along_arclengthsFrom hpath hs hv
    rwa [sub_zero] at halong

end Wire

namespace Plane

variable {plane : Plane ℝ} {eta : ℝ} (heta : plane.firstCrossing? w = some eta)
include heta

/-- A wire has come to the plane at the parameter that is found, and keeps strictly to the side on
which it starts before. -/
theorem spec_of_firstCrossing? : 0 ≤ eta ∧ eta ≤ 1 ∧
    |plane.signedDistance (w.pointAt eta)| ≤ tolerance ∧ ∀ t, 0 ≤ t → t < eta →
      0 < plane.signedDistance w.start * plane.signedDistance (w.pointAt t) := by
  obtain ⟨x, hx, rfl⟩ := Option.map_eq_some_iff.1 heta
  have hlength := h.length_pos
  have hpath := h.path
  obtain ⟨e, es, hedges⟩ := Wire.exists_edges w
  have hstart : e.start = w.start := by
    rw [← Wire.pointAt_start h, Wire.pointAt_eq_along h, hedges]
    have hzero := Wire.arclength_div_length h le_rfl hlength.le
    rw [zero_div] at hzero
    rw [hzero, Wire.along_zero (hedges ▸ hpath)]
  rw [hedges] at hx hpath
  obtain ⟨hlo, hhi, hnear, hbefore⟩ := spec_of_crossingFrom hpath hx
  rw [zero_add, ← hedges, ← Wire.length_eq] at hhi
  rw [sub_zero] at hnear hbefore
  refine ⟨div_nonneg hlo hlength.le, (div_le_one hlength).2 hhi, ?_, fun t ht ht' => ?_⟩
  · rwa [Wire.pointAt_eq_along h, Wire.arclength_div_length h hlo hhi, hedges]
  · have hlt : t * w.length < x := (lt_div_iff₀ hlength).1 ht'
    have hnonneg : 0 ≤ t * w.length := mul_nonneg ht hlength.le
    have harclength := Wire.arclength_div_length h hnonneg (hlt.le.trans hhi)
    rw [mul_div_cancel_right₀ _ hlength.ne'] at harclength
    rw [Wire.pointAt_eq_along h, harclength, hedges, ← hstart]
    exact hbefore _ hnonneg hlt

/-- A wire with a point in the plane is found to meet it there if it is clear of the plane before,
and else no later than at the point before it. -/
theorem firstCrossing?_vertex {k : ℕ} {v : Vec ℝ} (hv : w.points[k]? = some v)
    (hzero : plane.signedDistance v = 0) {t : ℝ} (ht : w.parameters[k]? = some t) :
    (plane.Clears w.start (w.points.take k) → eta = t) ∧
      (¬ plane.Clears w.start (w.points.take k) →
        ∃ u, w.parameters[k - 1]? = some u ∧ eta ≤ u) := by
  obtain ⟨x, hx, rfl⟩ := Option.map_eq_some_iff.1 heta
  have hlength := h.length_pos
  rw [Wire.parameters_eq, List.getElem?_map] at ht ⊢
  obtain ⟨s, hs, rfl⟩ := Option.map_eq_some_iff.1 ht
  obtain ⟨points, htwo⟩ := w
  match points, htwo with
  | p :: q :: ps, _ =>
    obtain ⟨hclear, hunclear⟩ := crossingFrom_vertex hx hv hzero hs
    refine ⟨fun hall => by rw [hclear hall], fun hall => ?_⟩
    obtain ⟨u, hu, hle⟩ := hunclear hall
    exact ⟨_, Option.map_eq_some_iff.2 ⟨u, hu, rfl⟩, by gcongr⟩

/-- The wire meets the plane through the point `p` at the parameter `eta`, and does not before. -/
structure FirstMet (plane : Plane ℝ) (w : Wire ℝ) (p : Vec ℝ) (eta : ℝ) : Prop where
  /-- The wire has come to the plane at the parameter, -/
  reaches : |plane.signedDistance (w.pointAt eta)| ≤ tolerance
  /-- and keeps strictly to one side of it before. -/
  before : ∀ t, 0 ≤ t → t < eta →
    0 < plane.signedDistance w.start * plane.signedDistance (w.pointAt t)
  /-- It is at the point if it is clear of the plane up to there, -/
  clear : ∀ k t, w.points[k]? = some p → w.parameters[k]? = some t →
    plane.Clears w.start (w.points.take k) → eta = t ∧ w.pointAt eta = p
  /-- and else no farther than at the point before. -/
  unclear : ∀ k t, w.points[k]? = some p → w.parameters[k]? = some t →
    ¬ plane.Clears w.start (w.points.take k) → ∃ u, w.parameters[k - 1]? = some u ∧ eta ≤ u
  /-- So if the wire is far from the point up to the one before, it is near to the point exactly if
  it is clear of the plane. -/
  near_iff : ∀ k u, w.points[k + 1]? = some p → w.parameters[k]? = some u →
    (∀ t, 0 ≤ t → t ≤ u → tolerance < (w.pointAt t).distance p) →
    ((w.pointAt eta).distance p ≤ tolerance ↔ plane.Clears w.start (w.points.take (k + 1)))

/-- The first crossing with a plane is where the wire first meets it. -/
theorem firstMet_of_firstCrossing? {p : Vec ℝ} (hzero : plane.signedDistance p = 0) :
    plane.FirstMet w p eta := by
  obtain ⟨hnonneg, -, hreaches, hbefore⟩ := spec_of_firstCrossing? h heta
  have hclear (k : ℕ) (t : ℝ) (hk : w.points[k]? = some p) (ht : w.parameters[k]? = some t)
      (hclears : plane.Clears w.start (w.points.take k)) : eta = t ∧ w.pointAt eta = p := by
    obtain rfl := (firstCrossing?_vertex h heta hk hzero ht).1 hclears
    exact ⟨rfl, Wire.pointAt_parameter h hk ht⟩
  have hunclear (k : ℕ) (t : ℝ) (hk : w.points[k]? = some p) (ht : w.parameters[k]? = some t) :=
    (firstCrossing?_vertex h heta hk hzero ht).2
  refine ⟨hreaches, hbefore, hclear, hunclear, fun k u hk hu hfar => ?_⟩
  obtain ⟨t, ht⟩ := Wire.exists_parameter hk
  constructor
  · intro hnear
    by_contra hnot
    obtain ⟨u', hu', hle⟩ := hunclear (k + 1) t hk ht hnot
    obtain rfl := Option.some.inj (hu.symm.trans hu')
    exact (hfar eta hnonneg hle).not_ge hnear
  · intro hclears
    rw [(hclear (k + 1) t hk ht hclears).2, Vec.distance_self]
    exact tolerance_pos.le

end Plane

end Wires

namespace Plane

/-- **The first crossing.**  No crossing is found if and only if all points of the wire are farther
than the tolerance from the plane and on one side of it.  A crossing that is found is a parameter
of the wire at which it is within the tolerance of the plane, and before which it keeps strictly to
the side on which it starts. -/
theorem firstCrossing?_exact {ps : List (Vec ℝ)} {w : Wire ℝ} (hw : Wire.ofPoints? ps = some w)
    (plane : Plane ℝ) :
    (plane.firstCrossing? w = none ↔ (∀ p ∈ w.points, tolerance < plane.signedDistance p) ∨
      ∀ p ∈ w.points, plane.signedDistance p < -tolerance) ∧
    ∀ t, plane.firstCrossing? w = some t → 0 ≤ t ∧ t ≤ 1 ∧
      |plane.signedDistance (w.pointAt t)| ≤ tolerance ∧ ∀ s, 0 ≤ s → s < t →
        0 < plane.signedDistance w.start * plane.signedDistance (w.pointAt s) :=
  ⟨firstCrossing?_eq_none_iff plane w,
    fun _ ht => spec_of_firstCrossing? (Wire.spaced_of_ofPoints? hw) ht⟩

/-- A peak, run up and down. -/
noncomputable def peak : List (Vec ℝ) := [⟨0, 0, 0⟩, ⟨0, 1, 1⟩, ⟨0, 2.0, 0⟩]

/-- The plane at a height. -/
noncomputable def level (z : ℝ) : Plane ℝ := ⟨⟨0, 0, z⟩, Vec.zAxis⟩

theorem signedDistance_level (z : ℝ) (p : Vec ℝ) : (level z).signedDistance p = p.z - z := by
  simp [signedDistance, level, Vec.dot, Vec.zAxis]

theorem exists_wire_peak : ∃ w, Wire.ofPoints? peak = some w ∧ w.points = peak := by
  have hfar (p q : Vec ℝ) (h : 1 ≤ |(q - p).y|) : tolerance ≤ (q - p).norm := by
    refine le_trans ?_ (h.trans (Vec.abs_y_le_norm (q - p)))
    unfold tolerance
    norm_num
  have hdistinct : Wire.distinct peak = peak := by
    refine Wire.distinct_of_isChain ?_
    refine .cons_cons (hfar _ _ ?_) (.cons_cons (hfar _ _ ?_) (.singleton _))
    · norm_num
    · norm_num
  refine ⟨⟨peak, by decide⟩, ?_, rfl⟩
  unfold Wire.ofPoints?
  simp only [hdistinct]
  rfl

/-- A wire over a peak meets a level below the top twice, of which the first is found, and none
above the top. -/
theorem firstCrossing?_exact_peak : ∃ w, Wire.ofPoints? peak = some w ∧
    (level 1.5).firstCrossing? w = none ∧ ∃ t, (level 0.5).firstCrossing? w = some t ∧
      0 ≤ t ∧ t ≤ 1 ∧ |(level 0.5).signedDistance (w.pointAt t)| ≤ tolerance ∧ ∀ s, 0 ≤ s → s < t →
        0 < (level 0.5).signedDistance w.start * (level 0.5).signedDistance (w.pointAt s) := by
  obtain ⟨w, hw, hpoints⟩ := exists_wire_peak
  refine ⟨w, hw, (firstCrossing?_exact hw _).1.2 (.inr ?_), ?_⟩
  · rw [hpoints]
    simp only [peak, List.forall_mem_cons, signedDistance_level, tolerance]
    norm_num
  · obtain ⟨hnone, hsome⟩ := firstCrossing?_exact hw (level 0.5)
    cases ht : (level 0.5).firstCrossing? w with
    | some t => exact ⟨t, rfl, hsome t ht⟩
    | none =>
      -- one point is below this level and one above it
      have hsides := hnone.1 ht
      rw [hpoints] at hsides
      simp only [peak, List.forall_mem_cons, signedDistance_level, tolerance] at hsides
      norm_num at hsides

end Plane

end WingBox
