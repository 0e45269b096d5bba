import WingBox.Proofs.Exact.Real
import WingBox.Wire

/-!
# Wires with exact numbers

The points of a wire that is made of a list of points are apart, so all its edges have some length
(`Wire.spaced_of_ofPoints?`).  Such a wire is a path, on which parameters are arclengths.

* `Wire.pointAt_start`, `Wire.pointAt_stop`: the path runs from the first point to the last one;
* `Wire.distance_pointAt_le`: points are no farther apart than the path between them is long;
* `Edge.distance_foot_le`: the point of an edge that is nearest to a point is its foot, moved to an
  end of the edge if it lies beyond;
* `Wire.Spaced.project_spec`: a point is projected to the nearest one of the path, but for the gap
  by which a later edge must be nearer than an earlier one.
-/

namespace WingBox

open Scalar

theorem Scalar.tolerance_pos : (0 : ℝ) < tolerance := by
  unfold tolerance
  norm_num

theorem Scalar.clamp_eq (x : ℝ) : clamp 0 1 x = max 0 (min 1 x) := by
  unfold clamp
  grind

theorem Scalar.clamp_mem (x : ℝ) : 0 ≤ clamp 0 1 x ∧ clamp 0 1 x ≤ 1 := by
  rw [clamp_eq]
  exact ⟨le_max_left _ _, max_le zero_le_one (min_le_left _ _)⟩

theorem Scalar.clamp_of_mem {x : ℝ} (hx : 0 ≤ x) (hx' : x ≤ 1) : clamp 0 1 x = x := by
  rw [clamp_eq, min_eq_right hx', max_eq_right hx]

theorem Scalar.abs_clamp_sub_le (x y : ℝ) : |clamp 0 1 x - clamp 0 1 y| ≤ |x - y| := by
  rw [clamp_eq, clamp_eq]
  grind

/-- No real number is the largest. -/
theorem Scalar.bounded (x : ℝ) : Bounded x := trivial

/-! ### Points of edges -/

theorem Edge.pointAt_reversed (e : Edge ℝ) (s : ℝ) : e.reversed.pointAt s = e.pointAt (1 - s) := by
  unfold pointAt reversed Vec.lerp
  module

/-- No point of an edge is nearer than the foot of a point, moved to an end if it lies beyond. -/
theorem Edge.distance_foot_le {e : Edge ℝ} (he : 0 < e.span.normSq) (p : Vec ℝ) {s : ℝ}
    (hs : 0 ≤ s) (hs' : s ≤ 1) :
    p.distance (e.start + clamp 0 1 ((p - e.start).dot e.span / e.span.normSq) • e.span) ≤
      p.distance (e.pointAt s) := by
  set r := (p - e.start).dot e.span / e.span.normSq with hr
  -- the square of the distance is least at the foot of the point
  have hsquare (k : ℝ) : (p - (e.start + k • e.span)).normSq =
      (p - e.start).normSq - r ^ 2 * e.span.normSq + (k - r) ^ 2 * e.span.normSq := by
    have hdot : (p - e.start).dot e.span = r * e.span.normSq := by
      rw [hr, div_mul_cancel₀ _ he.ne']
    have hexpand : (p - (e.start + k • e.span)).normSq =
        (p - e.start).normSq - 2 * k * (p - e.start).dot e.span + k ^ 2 * e.span.normSq := by
      simp only [Vec.normSq, Vec.dot, Vec.sub_x, Vec.sub_y, Vec.sub_z, Vec.add_x, Vec.add_y,
        Vec.add_z, Vec.smul_x, Vec.smul_y, Vec.smul_z]
      ring
    rw [hexpand, hdot]
    ring
  have hnearest : (clamp 0 1 r - r) ^ 2 ≤ (s - r) ^ 2 := by
    rw [clamp_eq, sq_le_sq]
    grind
  refine Real.sqrt_le_sqrt ?_
  change _ ≤ (p - (e.start + s • e.span)).normSq
  rw [hsquare, hsquare]
  exact add_le_add_right (mul_le_mul_of_nonneg_right hnearest he.le) _

namespace Wire

/-! ### Ends -/

theorem start_of_points {K : Type} {w : Wire K} {p : Vec K} {ps : List (Vec K)}
    (h : w.points = p :: ps) : w.start = p := by
  unfold start
  simp only [h, List.head_cons]

theorem stop_of_points {K : Type} {w : Wire K} {p : Vec K} {ps : List (Vec K)}
    (h : w.points = ps ++ [p]) : w.stop = p := by
  unfold stop
  simp only [h, List.getLast_concat]

section Closed

variable {K : Type} [Scalar K] {v : Wire K}

/-- A wire that is open is closed by adding its first point. -/
theorem points_closed (h : ¬ v.Closed) : v.closed.points = v.points ++ [v.start] := by
  rw [closed, if_neg h]

theorem start_closed (v : Wire K) : v.closed.start = v.start := by
  by_cases h : v.Closed
  · rw [closed, if_pos h]
  · obtain ⟨p, ps, hv⟩ := List.exists_cons_of_ne_nil v.points_ne_nil
    have hpoints := points_closed h
    rw [hv, List.cons_append] at hpoints
    rw [start_of_points hpoints, start_of_points hv]

/-- It is closed then if its first point is near to itself. -/
theorem closed_closed (h : v.start.Near v.start) : v.closed.Closed := by
  by_cases hclosed : v.Closed
  · rwa [closed, if_pos hclosed]
  · have htwo := v.two_le_length
    have hpoints := points_closed hclosed
    refine ⟨?_, ?_⟩
    · rw [hpoints, List.length_append, List.length_singleton]
      omega
    · rwa [start_closed, stop_of_points hpoints]

end Closed

/-- A wire whose ends are apart is closed by adding its first point. -/
theorem closed_of_apart {v : Wire ℝ} (h : tolerance ≤ (v.start - v.stop).norm) :
    v.closed.Closed ∧ v.closed.start = v.start ∧ v.closed.points = v.points ++ [v.start] := by
  refine ⟨closed_closed ?_, start_closed v, points_closed fun hclosed => hclosed.2.not_ge h⟩
  exact (Vec.distance_self v.start).trans_lt tolerance_pos

/-! ### Points -/

/-- Points that are apart are all kept. -/
theorem distinct_of_isChain {K : Type} [Scalar K] {ps : List (Vec K)}
    (h : ps.IsChain fun p q => tolerance ≤ (q - p).norm) : distinct ps = ps := by
  have hafter (q : Vec K) (ps : List (Vec K))
      (h : (q :: ps).IsChain fun p q => tolerance ≤ (q - p).norm) : distinctAfter q ps = ps := by
    induction ps generalizing q with
    | nil => rfl
    | cons p ps ih =>
      obtain ⟨hqp, hrest⟩ := List.isChain_cons_cons.1 h
      rw [distinctAfter, if_pos hqp, ih p hrest]
  cases ps with
  | nil => rfl
  | cons p ps => rw [distinct, hafter p ps h]

theorem points_of_ofPoints? {K : Type} [Scalar K] {ps : List (Vec K)} {w : Wire K}
    (h : ofPoints? ps = some w) : w.points = distinct ps := by
  unfold ofPoints? at h
  split at h
  · obtain rfl := Option.some.inj h
    rfl
  · cases h

theorem exists_segment? {K : Type} [Scalar K] {a b : Vec K} (h : tolerance ≤ (b - a).norm) :
    ∃ w, segment? a b = some w := by
  have hlength : 2 ≤ (distinct [a, b]).length := by
    rw [distinct, distinctAfter, if_pos h]
    exact le_rfl
  exact ⟨_, dif_pos hlength⟩

/-- The wire of a single edge has two points that are apart. -/
theorem points_of_segment? {K : Type} [Scalar K] {a b : Vec K} {w : Wire K}
    (h : segment? a b = some w) : w.points = [a, b] ∧ tolerance ≤ (b - a).norm := by
  have hpoints := points_of_ofPoints? h
  have htwo := w.two_le_length
  have hdistinct : distinct [a, b] = if tolerance ≤ (b - a).norm then [a, b] else [a] := by
    rw [distinct, distinctAfter]
    split <;> rfl
  rw [hpoints, hdistinct] at htwo
  rw [hpoints, hdistinct]
  split at htwo
  next hab => exact ⟨if_pos hab, hab⟩
  next hab => exact absurd htwo (Nat.not_succ_le_self 1)

/-! ### Edges -/

/-- No edge is shorter than the tolerance. -/
def Spaced (w : Wire ℝ) : Prop := ∀ e ∈ w.edges, tolerance ≤ e.length

theorem isChain_distinctAfter {K : Type} [Scalar K] (q : Vec K) (ps : List (Vec K)) :
    (q :: distinctAfter q ps).IsChain fun p p' => tolerance ≤ (p' - p).norm := by
  induction ps generalizing q with
  | nil => exact .singleton q
  | cons p ps ih =>
    unfold distinctAfter
    split
    next h => exact .cons_cons h (ih p)
    next => exact ih q

/-- The edges between points have what neighbouring points have. -/
theorem forall_mem_zipWith_tail_iff {K : Type} {R : Vec K → Vec K → Prop} {ps : List (Vec K)} :
    (∀ e ∈ List.zipWith Edge.mk ps ps.tail, R e.start e.stop) ↔ ps.IsChain R := by
  match ps with
  | [] => exact iff_of_true nofun .nil
  | [p] => exact iff_of_true nofun (.singleton p)
  | p :: q :: ps =>
    rw [List.isChain_cons_cons, ← forall_mem_zipWith_tail_iff]
    exact List.forall_mem_cons

theorem spaced_of_ofPoints? {ps : List (Vec ℝ)} {w : Wire ℝ} (h : ofPoints? ps = some w) :
    w.Spaced := by
  have hpoints := points_of_ofPoints? h
  unfold Spaced edges
  rw [hpoints]
  cases ps with
  | nil => nofun
  | cons p ps => exact forall_mem_zipWith_tail_iff.2 (isChain_distinctAfter p ps)

theorem length_eq (w : Wire ℝ) : w.length = (w.edges.map Edge.length).sum := sum_eq _

/-- A wire has some length if its edges have. -/
theorem length_pos {w : Wire ℝ} (h : ∀ e ∈ w.edges, 0 < e.length) : 0 < w.length := by
  rw [length_eq]
  refine List.sum_pos _ (List.forall_mem_map.2 h) ?_
  have hlength := w.length_edges
  have htwo := w.two_le_length
  intro hnil
  rw [List.map_eq_nil_iff.1 hnil, List.length_nil] at hlength
  omega

theorem Spaced.length_pos {w : Wire ℝ} (h : w.Spaced) : 0 < w.length :=
  Wire.length_pos fun e he => tolerance_pos.trans_le (h e he)

/-! ### Points along edges -/

/-- Every edge starts where the one before it stops, and all have some length. -/
structure Path (es : List (Edge ℝ)) : Prop where
  joined : es.IsChain fun e f => e.stop = f.start
  length_pos : ∀ e ∈ es, 0 < e.length

namespace Path

variable {e f : Edge ℝ} {es : List (Edge ℝ)}

theorem tail (h : Path (e :: es)) : Path es :=
  ⟨h.joined.of_cons, fun f hf => h.length_pos f (List.mem_cons_of_mem _ hf)⟩

theorem head_pos (h : Path (e :: es)) : 0 < e.length := h.length_pos e List.mem_cons_self

theorem sum_nonneg (h : Path es) : 0 ≤ (es.map Edge.length).sum :=
  List.sum_nonneg (List.forall_mem_map.2 fun f hf => (h.length_pos f hf).le)

theorem stop_eq (h : Path (e :: f :: es)) : e.stop = f.start :=
  (List.isChain_cons_cons.1 h.joined).1

end Path

theorem isChain_zipWith_tail (ps : List (Vec ℝ)) :
    (List.zipWith Edge.mk ps ps.tail).IsChain fun e f => e.stop = f.start := by
  match ps with
  | [] => exact .nil
  | [_] => exact .nil
  | [_, _] => exact .singleton _
  | _ :: q :: r :: ps => exact .cons_cons rfl (isChain_zipWith_tail (q :: r :: ps))

theorem Spaced.path {w : Wire ℝ} (h : w.Spaced) : Path w.edges :=
  ⟨isChain_zipWith_tail _, fun e he => tolerance_pos.trans_le (h e he)⟩

/-- The point at an arclength, on the last edge also beyond its end. -/
noncomputable def along : List (Edge ℝ) → ℝ → Vec ℝ
  | [], _ => 0
  | [e], s => e.pointAt (s / e.length)
  | e :: f :: es, s =>
    if s < e.length then e.pointAt (s / e.length) else along (f :: es) (s - e.length)

theorem pointAt_zero (e : Edge ℝ) : e.pointAt 0 = e.start := by
  unfold Edge.pointAt Vec.lerp
  module

theorem pointAt_one (e : Edge ℝ) : e.pointAt 1 = e.stop := by
  unfold Edge.pointAt Vec.lerp
  module

section Along

variable {e f : Edge ℝ} {es : List (Edge ℝ)}

theorem along_of_lt (h : Path (e :: es)) {s : ℝ} (hs : s < e.length) :
    along (e :: es) s = e.pointAt (s / e.length) := by
  cases es with
  | nil => rfl
  | cons f es => exact if_pos hs

theorem along_of_le {s : ℝ} (hs : e.length ≤ s) :
    along (e :: f :: es) s = along (f :: es) (s - e.length) := if_neg hs.not_gt

theorem along_zero (h : Path (e :: es)) : along (e :: es) 0 = e.start := by
  rw [along_of_lt h h.head_pos, zero_div, pointAt_zero]

/-- Points of one edge are as far apart as their arclengths tell. -/
theorem distance_pointAt_div (he : 0 < e.length) (s t : ℝ) :
    (e.pointAt (s / e.length)).distance (e.pointAt (t / e.length)) = |s - t| := by
  have hlength : (e.stop - e.start).norm = e.length := rfl
  unfold Edge.pointAt
  rw [Vec.distance_lerp, hlength, ← sub_div, abs_div, abs_of_pos he, div_mul_cancel₀ _ he.ne']

/-- A path is no shorter than the distance of its ends. -/
theorem distance_along_le (h : Path (e :: es)) {s t : ℝ} (hst : s ≤ t) :
    (along (e :: es) s).distance (along (e :: es) t) ≤ t - s := by
  induction es generalizing e s t with
  | nil =>
    change (e.pointAt (s / e.length)).distance (e.pointAt (t / e.length)) ≤ t - s
    rw [distance_pointAt_div h.head_pos, abs_sub_comm, abs_of_nonneg (sub_nonneg.2 hst)]
  | cons f es ih =>
    rcases lt_or_ge t e.length with ht | ht
    · -- both points lie on the first edge
      rw [along_of_lt h ht, along_of_lt h (hst.trans_lt ht), distance_pointAt_div h.head_pos,
        abs_sub_comm, abs_of_nonneg (sub_nonneg.2 hst)]
    rw [along_of_le ht]
    rcases lt_or_ge s e.length with hs | hs
    · -- the way leads through the end of the first edge
      have hfirst : (along (e :: f :: es) s).distance f.start = e.length - s := by
        have hstop : f.start = e.pointAt (e.length / e.length) := by
          rw [div_self h.head_pos.ne', pointAt_one, h.stop_eq]
        rw [along_of_lt h hs, hstop, distance_pointAt_div h.head_pos, abs_sub_comm,
          abs_of_pos (sub_pos.2 hs)]
      have hrest := ih h.tail (sub_nonneg.2 ht)
      rw [along_zero h.tail] at hrest
      have htriangle := Vec.distance_triangle (along (e :: f :: es) s) f.start
        (along (f :: es) (t - e.length))
      linarith
    · rw [along_of_le hs]
      have hrest := ih h.tail (sub_le_sub_right hst e.length)
      linarith

/-- The last point of a path. -/
theorem along_sum (h : Path (e :: es)) :
    along (e :: es) ((e :: es).map Edge.length).sum =
      ((e :: es).getLast (List.cons_ne_nil e es)).stop := by
  induction es generalizing e with
  | nil =>
    change e.pointAt ((e.length + 0) / e.length) = e.stop
    rw [add_zero, div_self h.head_pos.ne', pointAt_one]
  | cons f es ih =>
    rw [List.map_cons, List.sum_cons, along_of_le (le_add_of_nonneg_right h.tail.sum_nonneg),
      add_sub_cancel_left, ih h.tail, List.getLast_cons (List.cons_ne_nil f es)]

/-- The spans of a path lie within it. -/
theorem bounds_of_mem_spansFrom (h : Path es) {b : ℝ} {r : Span ℝ} (hr : r ∈ spansFrom b es) :
    b ≤ r.lo ∧ r.lo + r.edge.length ≤ b + (es.map Edge.length).sum := by
  induction es generalizing b with
  | nil => cases hr
  | cons e es ih =>
    rw [List.map_cons, List.sum_cons]
    rcases List.mem_cons.1 hr with rfl | hr
    · have hrest := h.tail.sum_nonneg
      exact ⟨le_rfl, by linarith⟩
    · obtain ⟨hlo, hhi⟩ := ih h.tail hr
      have hedge := h.head_pos
      exact ⟨by linarith, by linarith⟩

/-- The point of a span is found at its arclength. -/
theorem along_span (h : Path (e :: es)) {b : ℝ} {r : Span ℝ} (hr : r ∈ spansFrom b (e :: es))
    {t : ℝ} (ht : 0 ≤ t) (ht' : t ≤ 1) :
    along (e :: es) (r.lo - b + t * r.edge.length) = r.edge.pointAt t := by
  induction es generalizing e b with
  | nil =>
    obtain rfl := List.mem_singleton.1 hr
    change e.pointAt ((b - b + t * e.length) / e.length) = e.pointAt t
    rw [sub_self, zero_add, mul_div_cancel_right₀ _ h.head_pos.ne']
  | cons f es ih =>
    rcases List.mem_cons.1 hr with rfl | hr
    · change along (e :: f :: es) (b - b + t * e.length) = e.pointAt t
      rw [sub_self, zero_add]
      rcases ht'.lt_or_eq with hlt | rfl
      · rw [along_of_lt h (mul_lt_of_lt_one_left h.head_pos hlt),
          mul_div_cancel_right₀ _ h.head_pos.ne']
      · rw [one_mul, along_of_le le_rfl, sub_self, along_zero h.tail, pointAt_one, h.stop_eq]
    · obtain ⟨hlo, -⟩ := bounds_of_mem_spansFrom h.tail hr
      have hedge : 0 ≤ t * r.edge.length := mul_nonneg ht (Vec.norm_nonneg _)
      rw [along_of_le (by linarith)]
      convert ih h.tail hr using 2
      ring

/-- The span that is located at an arclength has the point there. -/
theorem pointAt_located {es : List (Edge ℝ)} (h : Path es) (b s : ℝ) (hne : spansFrom b es ≠ []) :
    let r := ((spansFrom b es).find? (s < ·.hi)).getD ((spansFrom b es).getLast hne)
    r.edge.pointAt (if 0 < r.hi - r.lo then (s - r.lo) / (r.hi - r.lo) else 0) =
      along es (s - b) := by
  induction es generalizing b with
  | nil => exact absurd rfl hne
  | cons e es ih =>
    have hsize : b + e.length - b = e.length := add_sub_cancel_left _ _
    have hspans : spansFrom b (e :: es) = ⟨e, b, b + e.length⟩ :: spansFrom (b + e.length) es := rfl
    rcases lt_or_ge s (b + e.length) with hs | hs
    · have hfound : (spansFrom b (e :: es)).find? (s < ·.hi) = some ⟨e, b, b + e.length⟩ := by
        rw [hspans]
        exact List.find?_cons_of_pos (decide_eq_true hs)
      rw [hfound, along_of_lt h (by linarith)]
      dsimp only [Option.getD_some]
      rw [hsize, if_pos h.head_pos]
    have hnext : (spansFrom b (e :: es)).find? (s < ·.hi) =
        (spansFrom (b + e.length) es).find? (s < ·.hi) := by
      rw [hspans]
      exact List.find?_cons_of_neg (by simpa using hs)
    cases es with
    | nil =>
      -- beyond the last edge this edge is extended
      rw [hnext]
      change e.pointAt (if 0 < b + e.length - b then (s - b) / (b + e.length - b) else 0) = _
      rw [hsize, if_pos h.head_pos]
      rfl
    | cons f es =>
      have hlast : (spansFrom b (e :: f :: es)).getLast hne =
          (spansFrom (b + e.length) (f :: es)).getLast nofun := List.getLast_cons _
      rw [hnext, hlast, along_of_le (by linarith), sub_sub]
      exact ih h.tail (b + e.length) nofun

end Along

/-! ### Parameters -/

theorem exists_edges (w : Wire ℝ) : ∃ e es, w.edges = e :: es := by
  refine List.exists_cons_of_length_pos ?_
  have htwo := w.two_le_length
  rw [length_edges]
  omega

theorem getLast_zipWith_tail (p q : Vec ℝ) (ps : List (Vec ℝ)) :
    ((List.zipWith Edge.mk (p :: q :: ps) (q :: ps)).getLast nofun).stop =
      (p :: q :: ps).getLast nofun := by
  induction ps generalizing p q with
  | nil => rfl
  | cons r ps ih => exact ih q r

section Parameters

variable {w : Wire ℝ} (h : w.Spaced)
include h

/-- The point at a parameter is the one at its arclength. -/
theorem pointAt_eq_along (t : ℝ) : w.pointAt t = along w.edges (w.arclength t) := by
  have hlocated := pointAt_located h.path 0 (w.arclength t) w.spans_ne_nil
  rwa [sub_zero] at hlocated

theorem pointAt_start : w.pointAt 0 = w.start := by
  have hzero : w.arclength 0 = 0 := by
    rw [arclength, clamp_of_mem le_rfl zero_le_one, zero_mul]
  have hpath := h.path
  obtain ⟨points, hlength⟩ := w
  match points, hlength with
  | p :: q :: ps, _ =>
    rw [pointAt_eq_along h, hzero]
    exact along_zero hpath

theorem pointAt_stop : w.pointAt 1 = w.stop := by
  have hone : w.arclength 1 = (w.edges.map Edge.length).sum := by
    rw [arclength, clamp_of_mem zero_le_one le_rfl, one_mul, length_eq]
  have hpath := h.path
  obtain ⟨points, hlength⟩ := w
  match points, hlength with
  | p :: q :: ps, _ =>
    rw [pointAt_eq_along h, hone]
    exact (along_sum hpath).trans (getLast_zipWith_tail p q ps)

/-- Points are no farther apart than their parameters, along the wire. -/
theorem distance_pointAt_le (s t : ℝ) :
    (w.pointAt s).distance (w.pointAt t) ≤ |clamp 0 1 s - clamp 0 1 t| * w.length := by
  obtain ⟨e, es, he⟩ := exists_edges w
  have hpath := h.path
  have hlength := h.length_pos
  rw [pointAt_eq_along h, pointAt_eq_along h, he]
  rw [he] at hpath
  rcases le_total (clamp 0 1 s) (clamp 0 1 t) with hst | hst
  · have hle : w.arclength s ≤ w.arclength t := mul_le_mul_of_nonneg_right hst hlength.le
    rw [abs_sub_comm, abs_of_nonneg (sub_nonneg.2 hst), sub_mul]
    exact distance_along_le hpath hle
  · have hle : w.arclength t ≤ w.arclength s := mul_le_mul_of_nonneg_right hst hlength.le
    rw [abs_of_nonneg (sub_nonneg.2 hst), sub_mul, Vec.distance_comm]
    exact distance_along_le hpath hle

end Parameters

/-! ### Nearest points -/

theorem projectionGap_nonneg : (0 : ℝ) ≤ projectionGap :=
  mul_nonneg tolerance_pos.le (by norm_num)

/-- Of all candidates one is taken that is nearly the best. -/
theorem foldl_nearer (c : ℝ × ℝ) (cs : List (ℝ × ℝ)) :
    ∃ b ∈ c :: cs, cs.foldl nearer (some c) = some b ∧ b.1 ≤ c.1 ∧
      ∀ c' ∈ c :: cs, b.1 ≤ c'.1 + projectionGap := by
  have hgap := projectionGap_nonneg
  induction cs generalizing c with
  | nil =>
    refine ⟨c, List.mem_singleton_self c, rfl, le_rfl, fun c' hc' => ?_⟩
    rw [List.mem_singleton.1 hc']
    linarith
  | cons d cs ih =>
    by_cases hd : d.1 < c.1 - projectionGap
    · obtain ⟨b, hb, hfold, hbd, hall⟩ := ih d
      refine ⟨b, List.mem_cons_of_mem _ hb, ?_, by linarith, ?_⟩
      · rw [List.foldl_cons, nearer, if_pos hd, hfold]
      · exact List.forall_mem_cons.2 ⟨by linarith, hall⟩
    · obtain ⟨b, hb, hfold, hbc, hall⟩ := ih c
      rw [List.forall_mem_cons] at hall
      refine ⟨b, ?_, ?_, hbc, ?_⟩
      · rcases List.mem_cons.1 hb with rfl | hb
        · exact List.mem_cons_self
        · exact List.mem_cons_of_mem _ (List.mem_cons_of_mem _ hb)
      · rw [List.foldl_cons, nearer, if_neg hd, hfold]
      · -- the candidate that is passed over is not much better than the one that is kept
        rw [List.forall_mem_cons, List.forall_mem_cons]
        exact ⟨hall.1, by linarith [not_lt.1 hd], hall.2⟩

/-- The parameter of the point of a span that is nearest to a point. -/
theorem exists_nearest_eq (r : Span ℝ) (p : Vec ℝ) : ∃ t, 0 ≤ t ∧ t ≤ 1 ∧
    r.nearest p = (p.distance (r.edge.pointAt t), r.lo + t * r.edge.length) := by
  obtain ⟨hnonneg, hle⟩ := clamp_mem ((p - r.edge.start).dot r.edge.span / r.edge.span.normSq)
  exact ⟨_, hnonneg, hle, rfl⟩

/-- No point of a span is nearer. -/
theorem nearest_le (r : Span ℝ) (hr : 0 < r.edge.length) (p : Vec ℝ) {t : ℝ} (ht : 0 ≤ t)
    (ht' : t ≤ 1) : (r.nearest p).1 ≤ p.distance (r.edge.pointAt t) :=
  Edge.distance_foot_le (Vec.norm_pos_iff.1 hr) p ht ht'

theorem exists_span {e : Edge ℝ} {es : List (Edge ℝ)} (he : e ∈ es) (b : ℝ) :
    ∃ r ∈ spansFrom b es, r.edge = e := by
  induction es generalizing b with
  | nil => cases he
  | cons f es ih =>
    rcases List.mem_cons.1 he with rfl | he
    · exact ⟨_, List.mem_cons_self, rfl⟩
    · obtain ⟨r, hr, hre⟩ := ih he (b + f.length)
      exact ⟨r, List.mem_cons_of_mem _ hr, hre⟩

theorem mem_of_mem_spansFrom {es : List (Edge ℝ)} {b : ℝ} {r : Span ℝ} (hr : r ∈ spansFrom b es) :
    r.edge ∈ es := by
  induction es generalizing b with
  | nil => cases hr
  | cons e es ih =>
    rcases List.mem_cons.1 hr with rfl | hr
    · exact List.mem_cons_self
    · exact List.mem_cons_of_mem _ (ih hr)

section Project

variable {w : Wire ℝ}

/-- The parameter leads to the nearest point of a span, to which no other span is much nearer. -/
theorem exists_project_eq (w : Wire ℝ) (p : Vec ℝ) : ∃ r ∈ w.spans,
    w.project p = (r.nearest p).2 / w.length ∧
      ∀ r' ∈ w.spans, (r.nearest p).1 ≤ (r'.nearest p).1 + projectionGap := by
  obtain ⟨r₀, rs, hspans⟩ := List.exists_cons_of_ne_nil w.spans_ne_nil
  obtain ⟨b, hb, hfold, -, hall⟩ := foldl_nearer (r₀.nearest p) (rs.map (·.nearest p))
  have hcandidates : r₀.nearest p :: rs.map (·.nearest p) = w.spans.map (·.nearest p) := by
    rw [hspans, List.map_cons]
  rw [hcandidates] at hb hall
  obtain ⟨r, hr, rfl⟩ := List.mem_map.1 hb
  refine ⟨r, hr, ?_, fun r' hr' => hall _ (List.mem_map_of_mem hr')⟩
  have hfirst : nearer none (r₀.nearest p) = some (r₀.nearest p) := by
    rw [nearer, if_pos (bounded _)]
  rw [project, hspans, List.foldl_cons, hfirst, ← List.foldl_map (g := nearer), hfold]

/-- The arclength of a point of a span lies within the wire, and leads back to the point. -/
theorem Spaced.pointAt_span (h : w.Spaced) {r : Span ℝ} (hr : r ∈ w.spans) {u : ℝ} (hu : 0 ≤ u)
    (hu' : u ≤ 1) :
    (0 ≤ (r.lo + u * r.edge.length) / w.length ∧ (r.lo + u * r.edge.length) / w.length ≤ 1) ∧
      w.pointAt ((r.lo + u * r.edge.length) / w.length) = r.edge.pointAt u := by
  have hlength := h.length_pos
  have hpath := h.path
  obtain ⟨hlo, hsum⟩ := bounds_of_mem_spansFrom hpath hr
  have hstart : 0 ≤ r.lo + u * r.edge.length := add_nonneg hlo (mul_nonneg hu (Vec.norm_nonneg _))
  have hstop : r.lo + u * r.edge.length ≤ w.length := by
    rw [zero_add, ← length_eq] at hsum
    exact (add_le_add_right (mul_le_of_le_one_left (Vec.norm_nonneg _) hu') _).trans hsum
  have hnonneg := div_nonneg hstart hlength.le
  have hle := (div_le_one hlength).2 hstop
  refine ⟨⟨hnonneg, hle⟩, ?_⟩
  obtain ⟨f, fs, hedges⟩ := exists_edges w
  rw [pointAt_eq_along h, arclength, clamp_of_mem hnonneg hle, div_mul_cancel₀ _ hlength.ne',
    hedges]
  rw [hedges] at hpath
  have hspan := along_span hpath (hedges ▸ hr : r ∈ spansFrom 0 (f :: fs)) hu hu'
  rwa [sub_zero] at hspan

/-- A point is projected to a parameter of the wire, and no point of an edge is much nearer. -/
theorem Spaced.project_spec (h : w.Spaced) (p : Vec ℝ) :
    (0 ≤ w.project p ∧ w.project p ≤ 1) ∧
      (∃ e ∈ w.edges, ∃ u, 0 ≤ u ∧ u ≤ 1 ∧ w.pointAt (w.project p) = e.pointAt u) ∧
      ∀ e ∈ w.edges, ∀ t, 0 ≤ t → t ≤ 1 →
        p.distance (w.pointAt (w.project p)) ≤ p.distance (e.pointAt t) + projectionGap := by
  obtain ⟨r, hr, hproject, hall⟩ := exists_project_eq w p
  obtain ⟨u, hu, hu', hnearest⟩ := exists_nearest_eq r p
  obtain ⟨hrange, hpoint⟩ := h.pointAt_span hr hu hu'
  rw [hnearest] at hproject hall
  rw [hproject, hpoint]
  refine ⟨hrange, ⟨_, mem_of_mem_spansFrom hr, u, hu, hu', rfl⟩, fun e he t ht ht' => ?_⟩
  obtain ⟨r', hr', rfl⟩ := exists_span he 0
  exact (hall r' hr').trans
    (add_le_add_left (nearest_le r' (h.path.length_pos _ he) p ht ht') _)

/-- A point of a wire is projected to a point that is hardly away from it. -/
theorem Spaced.distance_project_le (h : w.Spaced) {e : Edge ℝ} (he : e ∈ w.edges) {t : ℝ}
    (ht : 0 ≤ t) (ht' : t ≤ 1) :
    (w.pointAt (w.project (e.pointAt t))).distance (e.pointAt t) ≤ projectionGap := by
  obtain ⟨-, -, hall⟩ := h.project_spec (e.pointAt t)
  have hown := hall e he t ht ht'
  rwa [Vec.distance_self, zero_add, Vec.distance_comm] at hown

end Project

end Wire

end WingBox
