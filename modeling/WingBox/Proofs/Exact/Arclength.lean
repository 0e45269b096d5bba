import WingBox.Proofs.Exact.Crossing

/-!
# Wires by arclength, with exact numbers

A parameter of a wire names the point at that share of its length.  Two consecutive points with
their arclengths are a `Wire.Leg`; where a leg reaches over an arclength the point there divides the
leg as the arclength divides those of its ends.  At a point between two legs both say the same.

* `Wire.exists_leg`: some leg reaches over every arclength of the wire;
* `Wire.Leg.pointAt_eq`: whichever one does, it has the point at the parameter;
* `Wire.pointAt_reversed`: the wire run the other way passes the same points from its other end;
* `Wire.pointAt_arclength`: all together.
-/

namespace WingBox

open Scalar

namespace Wire

/-! ### Legs -/

/-- The arclengths of the points. -/
noncomputable def arclengths (w : Wire ℝ) : List ℝ := partialSums (w.edges.map Edge.length)

/-- Two consecutive points of a wire and their arclengths. -/
structure Leg (w : Wire ℝ) (i : ℕ) (p q : Vec ℝ) (lo hi : ℝ) : Prop where
  start : w.points[i]? = some p
  stop : w.points[i + 1]? = some q
  lo_eq : w.arclengths[i]? = some lo
  hi_eq : w.arclengths[i + 1]? = some hi

/-- An edge lies between the arclengths of its ends. -/
theorem mem_spansFrom {es : List (Edge ℝ)} {e : Edge ℝ} {b lo hi : ℝ} {i : ℕ}
    (he : es[i]? = some e) (hlo : (partialSums.go b (es.map Edge.length))[i]? = some lo)
    (hhi : (partialSums.go b (es.map Edge.length))[i + 1]? = some hi) :
    ⟨e, lo, hi⟩ ∈ spansFrom b es ∧ hi = lo + e.length := by
  induction es generalizing b i with
  | nil => cases he
  | cons f es ih =>
    cases i with
    | zero =>
      obtain rfl : f = e := Option.some.inj he
      obtain rfl : b = lo := Option.some.inj hlo
      obtain rfl : b + f.length = hi := by cases es <;> exact Option.some.inj hhi
      exact ⟨List.mem_cons_self, rfl⟩
    | succ i =>
      obtain ⟨hmem, hlength⟩ := ih (b := b + f.length) he hlo hhi
      exact ⟨List.mem_cons_of_mem _ hmem, hlength⟩

/-- Some edge reaches over every arclength of a path. -/
theorem exists_reach {e : Edge ℝ} {es : List (Edge ℝ)} {b s : ℝ} (hlo : b ≤ s)
    (hhi : s ≤ b + ((e :: es).map Edge.length).sum) :
    ∃ i f lo hi, (e :: es)[i]? = some f ∧
      (partialSums.go b ((e :: es).map Edge.length))[i]? = some lo ∧
      (partialSums.go b ((e :: es).map Edge.length))[i + 1]? = some hi ∧ lo ≤ s ∧ s ≤ hi := by
  induction es generalizing e b with
  | nil =>
    refine ⟨0, e, b, b + e.length, rfl, rfl, rfl, hlo, ?_⟩
    rwa [List.map_singleton, List.sum_singleton] at hhi
  | cons f es ih =>
    rcases le_total s (b + e.length) with hs | hs
    · exact ⟨0, e, b, b + e.length, rfl, rfl, rfl, hlo, hs⟩
    · rw [List.map_cons, List.sum_cons, ← add_assoc] at hhi
      obtain ⟨i, g, lo, hi, hg, hlo, hhi, hle⟩ := ih hs hhi
      exact ⟨i + 1, g, lo, hi, hg, hlo, hhi, hle⟩

/-- Two consecutive points are the ends of an edge. -/
theorem getElem?_edges_eq_some_iff {w : Wire ℝ} {i : ℕ} {p q : Vec ℝ} :
    w.edges[i]? = some ⟨p, q⟩ ↔ w.points[i]? = some p ∧ w.points[i + 1]? = some q := by
  rw [edges, List.getElem?_zipWith_eq_some, List.getElem?_tail]
  constructor
  · rintro ⟨x, y, hx, hy, hxy⟩
    obtain ⟨rfl, rfl⟩ := (Edge.mk.injEq ..).mp hxy
    exact ⟨hx, hy⟩
  · rintro ⟨hp, hq⟩
    exact ⟨p, q, hp, hq, rfl⟩

/-- Some leg reaches over every arclength of a wire. -/
theorem exists_leg (w : Wire ℝ) {s : ℝ} (hs : 0 ≤ s) (hs' : s ≤ w.length) :
    ∃ i p q lo hi, w.Leg i p q lo hi ∧ lo ≤ s ∧ s ≤ hi := by
  obtain ⟨e, es, hedges⟩ := exists_edges w
  rw [length_eq, ← zero_add (List.sum _), hedges] at hs'
  obtain ⟨i, ⟨p, q⟩, lo, hi, hpq, hlo, hhi, hle⟩ := exists_reach hs hs'
  rw [← hedges] at hpq hlo hhi
  obtain ⟨hp, hq⟩ := getElem?_edges_eq_some_iff.1 hpq
  exact ⟨i, p, q, lo, hi, ⟨hp, hq, hlo, hhi⟩, hle⟩

/-- The point at a parameter divides every leg that reaches over it. -/
theorem Leg.pointAt_eq {w : Wire ℝ} (h : w.Spaced) {i : ℕ} {p q : Vec ℝ} {lo hi : ℝ}
    (hleg : w.Leg i p q lo hi) {t : ℝ} (ht : 0 ≤ t) (ht' : t ≤ 1) (hlo : lo ≤ t * w.length)
    (hhi : t * w.length ≤ hi) :
    w.pointAt t = p + ((t * w.length - lo) / (hi - lo)) • (q - p) := by
  have hpq := getElem?_edges_eq_some_iff.2 ⟨hleg.start, hleg.stop⟩
  obtain ⟨hmem, hsize⟩ := mem_spansFrom hpq hleg.lo_eq hleg.hi_eq
  obtain ⟨e, es, hedges⟩ := exists_edges w
  have hpath := h.path
  have hgap : hi - lo = (q - p).norm := by
    rw [hsize, add_sub_cancel_left]
    rfl
  have hpos : 0 < hi - lo := hgap ▸ hpath.length_pos _ (List.mem_of_getElem? hpq)
  have harclength : w.arclength t = lo + (t * w.length - lo) / (hi - lo) * (q - p).norm := by
    rw [arclength, clamp_of_mem ht ht', ← hgap, div_mul_cancel₀ _ hpos.ne', add_sub_cancel]
  rw [hedges] at hmem hpath
  have hspan := along_span hpath hmem (div_nonneg (sub_nonneg.2 hlo) hpos.le)
    (div_le_one_of_le₀ (sub_le_sub_right hhi lo) hpos.le)
  rw [sub_zero] at hspan
  rw [pointAt_eq_along h, harclength, hedges]
  exact hspan

/-! ### The other way -/

theorem length_reversed (e : Edge ℝ) : e.reversed.length = e.length := Vec.distance_comm _ _

theorem Path.reversed {es : List (Edge ℝ)} (h : Path es) :
    Path (es.reverse.map Edge.reversed) := by
  refine ⟨?_, fun e he => ?_⟩
  · rw [List.isChain_map, List.isChain_reverse]
    exact h.joined.imp fun _ _ hjoined => hjoined.symm
  · obtain ⟨f, hf, rfl⟩ := List.mem_map.1 he
    rw [length_reversed]
    exact h.length_pos f (List.mem_reverse.1 hf)

theorem sum_length_reversed (es : List (Edge ℝ)) :
    ((es.reverse.map Edge.reversed).map Edge.length).sum = (es.map Edge.length).sum := by
  have hlength : Edge.length ∘ Edge.reversed = (Edge.length : Edge ℝ → ℝ) := funext length_reversed
  rw [List.map_map, hlength, List.map_reverse, List.sum_reverse]

section Concat

variable {e f : Edge ℝ} {es : List (Edge ℝ)}

/-- An edge at the end of a path does not change the points before. -/
theorem along_concat_of_lt (h : Path (e :: es ++ [f])) {s : ℝ}
    (hs : s < ((e :: es).map Edge.length).sum) :
    along (e :: es ++ [f]) s = along (e :: es) s := by
  induction es generalizing e s with
  | nil =>
    rw [List.map_singleton, List.sum_singleton] at hs
    exact along_of_lt h hs
  | cons g es ih =>
    rcases lt_or_ge s e.length with hlt | hge
    · exact (along_of_lt h hlt).trans (if_pos hlt).symm
    · rw [List.map_cons, List.sum_cons] at hs
      rw [along_of_le hge, ← ih h.tail (sub_lt_iff_lt_add'.2 hs)]
      exact along_of_le hge

/-- Beyond a path the points are those of the edge at its end. -/
theorem along_concat_of_le (h : Path (e :: es ++ [f])) {s : ℝ}
    (hs : ((e :: es).map Edge.length).sum ≤ s) :
    along (e :: es ++ [f]) s =
      f.pointAt ((s - ((e :: es).map Edge.length).sum) / f.length) := by
  induction es generalizing e s with
  | nil =>
    rw [List.map_singleton, List.sum_singleton] at hs ⊢
    exact along_of_le hs
  | cons g es ih =>
    rw [List.map_cons, List.sum_cons] at hs ⊢
    have hrest : 0 ≤ ((g :: es).map Edge.length).sum :=
      List.sum_nonneg (List.forall_mem_map.2 fun x _ => Vec.norm_nonneg _)
    rw [← sub_sub, ← ih h.tail (le_sub_iff_add_le'.2 hs)]
    exact along_of_le (by linarith)

end Concat

/-- A path that is run the other way has the same points. -/
theorem along_reversed {e : Edge ℝ} {es : List (Edge ℝ)} (h : Path (e :: es)) (s : ℝ) :
    along ((e :: es).reverse.map Edge.reversed) s =
      along (e :: es) (((e :: es).map Edge.length).sum - s) := by
  induction es generalizing e s with
  | nil =>
    have hpos := h.head_pos
    change e.reversed.pointAt (s / e.reversed.length) = e.pointAt ((e.length + 0 - s) / e.length)
    rw [Edge.pointAt_reversed, length_reversed, add_zero, sub_div, div_self hpos.ne']
  | cons f es ih =>
    have hpos := h.head_pos
    have hpath := h.reversed
    have hsum := sum_length_reversed (f :: es)
    rw [List.map_cons, List.sum_cons, List.reverse_cons, List.map_append, List.map_singleton]
    rw [List.reverse_cons, List.map_append, List.map_singleton] at hpath
    obtain ⟨g, gs, hgs⟩ : ∃ g gs, (f :: es).reverse.map Edge.reversed = g :: gs := by
      refine List.exists_cons_of_ne_nil ?_
      rw [ne_eq, List.map_eq_nil_iff, List.reverse_eq_nil_iff]
      exact List.cons_ne_nil f es
    rw [hgs] at hpath hsum ⊢
    rcases lt_or_ge s ((f :: es).map Edge.length).sum with hlt | hge
    · -- the point is on one of the later edges
      rw [along_concat_of_lt hpath (hsum ▸ hlt), ← hgs, ih h.tail, along_of_le (by linarith)]
      congr 1
      ring
    · -- it is on the first edge
      have hshare : 1 - (s - ((f :: es).map Edge.length).sum) / e.length =
          (e.length + ((f :: es).map Edge.length).sum - s) / e.length := by
        field_simp
        ring
      rw [along_concat_of_le hpath (hsum ▸ hge), hsum, Edge.pointAt_reversed, length_reversed,
        hshare]
      rcases hge.lt_or_eq with hlt | heq
      · exact (along_of_lt h (by linarith)).symm
      · -- where the edges meet
        rw [← heq, add_sub_cancel_right, div_self hpos.ne', along_of_le le_rfl, sub_self,
          along_zero h.tail, pointAt_one, h.stop_eq]

/-! ### Wires run the other way -/

theorem edges_reversed (w : Wire ℝ) : w.reversed.edges = w.edges.reverse.map Edge.reversed := by
  refine List.ext_getElem ?_ fun i hi hi' => ?_
  · rw [List.length_map, List.length_reverse, length_edges, length_edges, reversed,
      List.length_reverse]
  · have hlt : i < w.points.length - 1 := by
      rwa [length_edges, reversed, List.length_reverse] at hi
    have hstart : w.points.length - 1 - 1 - i + 1 = w.points.length - 1 - i := by omega
    simp [edges, reversed, Edge.reversed, hstart]

section Reversed

variable {w : Wire ℝ}

theorem Spaced.reversed (h : w.Spaced) : w.reversed.Spaced := by
  intro e he
  rw [edges_reversed] at he
  obtain ⟨f, hf, rfl⟩ := List.mem_map.1 he
  rw [length_reversed]
  exact h f (List.mem_reverse.1 hf)

theorem length_reversed_wire (w : Wire ℝ) : w.reversed.length = w.length := by
  rw [length_eq, length_eq, edges_reversed, sum_length_reversed]

/-- A wire that is run the other way has the same points, from its other end on. -/
theorem pointAt_reversed (h : w.Spaced) (t : ℝ) : w.reversed.pointAt t = w.pointAt (1 - t) := by
  obtain ⟨e, es, hedges⟩ := exists_edges w
  have hpath := h.path
  have harclength : w.arclength (1 - t) = w.length - w.reversed.arclength t := by
    have hclamp : clamp 0 1 (1 - t) = 1 - clamp 0 1 t := by
      rw [clamp_eq, clamp_eq]
      grind
    rw [arclength, arclength, hclamp, length_reversed_wire]
    ring
  rw [pointAt_eq_along h.reversed, pointAt_eq_along h, harclength, edges_reversed, length_eq w,
    hedges]
  exact along_reversed (hedges ▸ hpath) _

end Reversed

/-! ### Parameters -/

/-- The points of a wire are those at its parameters. -/
theorem map_pointAt_parameters {w : Wire ℝ} (h : w.Spaced) :
    w.parameters.map w.pointAt = w.points := by
  have htwo := w.two_le_length
  have hlength : w.parameters.length = w.points.length := by
    rw [parameters, List.length_map, length_partialSums, List.length_map, length_edges]
    omega
  refine List.ext_getElem (by rw [List.length_map, hlength]) fun k hk hk' => ?_
  rw [List.getElem_map]
  exact pointAt_parameter h (List.getElem?_eq_getElem hk') (List.getElem?_eq_getElem _)

/-- **Parameters are arclengths.**  Every parameter of a wire lies on some leg, and on each leg on
which it lies its point divides the leg as its arclength divides those of the ends.  The points of
the wire are those at its parameters, points are no farther apart than the path between them is
long, and the wire run the other way has the same points in reverse. -/
theorem pointAt_arclength {ps : List (Vec ℝ)} {w : Wire ℝ} (hw : ofPoints? ps = some w) :
    (∀ t, 0 ≤ t → t ≤ 1 →
      (∃ i p q lo hi, w.Leg i p q lo hi ∧ lo ≤ t * w.length ∧ t * w.length ≤ hi) ∧
      ∀ i p q lo hi, w.Leg i p q lo hi → lo ≤ t * w.length → t * w.length ≤ hi →
        w.pointAt t = p + ((t * w.length - lo) / (hi - lo)) • (q - p)) ∧
    w.parameters.map w.pointAt = w.points ∧
    (∀ s t, (w.pointAt s).distance (w.pointAt t) ≤ |s - t| * w.length) ∧
    ∀ t, w.reversed.pointAt t = w.pointAt (1 - t) := by
  have h := spaced_of_ofPoints? hw
  have hlength := h.length_pos
  refine ⟨fun t ht ht' => ⟨?_, fun i p q lo hi hleg hlo hhi => ?_⟩, map_pointAt_parameters h,
    fun s t => ?_, pointAt_reversed h⟩
  · exact exists_leg w (mul_nonneg ht hlength.le) (mul_le_of_le_one_left hlength.le ht')
  · exact hleg.pointAt_eq h ht ht' hlo hhi
  · refine (distance_pointAt_le h s t).trans ?_
    exact mul_le_mul_of_nonneg_right (abs_clamp_sub_le s t) hlength.le

/-- A bend with a short and a long leg. -/
noncomputable def bend : List (Vec ℝ) := [⟨0, 0, 0⟩, ⟨1, 0, 0⟩, ⟨1, 3.0, 0⟩]

theorem exists_wire_bend : ∃ w, ofPoints? bend = some w ∧ w.points = bend ∧ w.length = 4 ∧
    w.Leg 1 ⟨1, 0, 0⟩ ⟨1, 3.0, 0⟩ 1 4 := by
  have hshort : ((⟨1, 0, 0⟩ : Vec ℝ) - ⟨0, 0, 0⟩).norm = 1 :=
    Vec.norm_eq (by norm_num) (by norm_num [Vec.normSq, Vec.dot])
  have hlong : ((⟨1, 3.0, 0⟩ : Vec ℝ) - ⟨1, 0, 0⟩).norm = 3 :=
    Vec.norm_eq (by norm_num) (by norm_num [Vec.normSq, Vec.dot])
  have hdistinct : distinct bend = bend := by
    refine distinct_of_isChain (.cons_cons ?_ (.cons_cons ?_ (.singleton _)))
    · rw [hshort, tolerance]
      norm_num
    · rw [hlong, tolerance]
      norm_num
  have harclengths : arclengths ⟨bend, by decide⟩ = [0, 1, 4] := by
    change [0, 0 + ((⟨1, 0, 0⟩ : Vec ℝ) - ⟨0, 0, 0⟩).norm,
      0 + ((⟨1, 0, 0⟩ : Vec ℝ) - ⟨0, 0, 0⟩).norm + ((⟨1, 3.0, 0⟩ : Vec ℝ) - ⟨1, 0, 0⟩).norm] = _
    rw [hshort, hlong]
    norm_num
  refine ⟨⟨bend, by decide⟩, ?_, rfl, ?_, rfl, rfl, ?_, ?_⟩
  · unfold ofPoints?
    simp only [hdistinct]
    rfl
  · rw [length_eq]
    change ((⟨1, 0, 0⟩ : Vec ℝ) - ⟨0, 0, 0⟩).norm +
      (((⟨1, 3.0, 0⟩ : Vec ℝ) - ⟨1, 0, 0⟩).norm + 0) = 4
    rw [hshort, hlong]
    norm_num
  · rw [harclengths]
    rfl
  · rw [harclengths]
    rfl

/-- The bend lies a quarter of the way along, and half of the way lies on the long leg, from either
end. -/
theorem pointAt_arclength_bend : ∃ w, ofPoints? bend = some w ∧
    w.Leg 1 ⟨1, 0, 0⟩ ⟨1, 3.0, 0⟩ 1 4 ∧ w.pointAt 0.25 = ⟨1, 0, 0⟩ ∧ w.pointAt 0.5 = ⟨1, 1, 0⟩ ∧
      w.reversed.pointAt 0.5 = ⟨1, 1, 0⟩ := by
  obtain ⟨w, hw, -, hlength, hleg⟩ := exists_wire_bend
  obtain ⟨hdivides, -, -, hreversed⟩ := pointAt_arclength hw
  have hlong (t : ℝ) (ht : 0.25 ≤ t) (ht' : t ≤ 1) : w.pointAt t = ⟨1, 4 * t - 1, 0⟩ := by
    norm_num at ht
    have hlo : 1 ≤ t * w.length := by
      rw [hlength]
      linarith
    have hhi : t * w.length ≤ 4 := by
      rw [hlength]
      linarith
    rw [(hdivides t (by linarith) ht').2 1 _ _ _ _ hleg hlo hhi, hlength]
    ext <;> norm_num
    ring
  refine ⟨w, hw, hleg, ?_, ?_, ?_⟩
  · rw [hlong _ le_rfl (by norm_num)]
    norm_num
  · rw [hlong _ (by norm_num) (by norm_num)]
    norm_num
  · rw [hreversed, hlong _ (by norm_num) (by norm_num)]
    norm_num

end Wire

end WingBox
