import WingBox.Proofs.Build.Chain

/-!
# Wires made of edges

With ends of edges that are one point or apart, `Wire.chain` uses every edge that has some length
once (`Wire.perm_segments_chain`).  At a point wires pass by, closed wires have their seam and open
wires end.

* `Wire.IsTrail.countP_segments`: two segments of a wire end at a point for each of its visits, but
  one where the wire ends;
* `Wire.ending_le_one`: no two wires end at the same point, since the first one would have grown;
* `Wire.chain_branches`: so what becomes of a point is told by the number of edges that end there,
  and branch points are passed by like others.
-/

namespace WingBox

open Scalar

variable {K : Type} [Scalar K] {es : List (Edge K)} {p q : Vec K} {w : Wire K}
  {ws : List (Wire K)}

/-! ### Chains as wires -/

/-- The wire through the points of a chain. -/
def Chain.wire (c : Chain K) : Wire K := ⟨c.points, c.two_le_length_points⟩

namespace Wire

/-- The segments of a wire. -/
def segments (w : Wire K) : List (Sym2 (Vec K)) := w.edges.map Edge.segment

/-- The points between the first and the last one. -/
def inner (w : Wire K) : List (Vec K) := w.points.tail.dropLast

/-- The wire has edges with some length only, and is closed if its ends are one point. -/
structure IsTrail (w : Wire K) : Prop where
  proper : ∀ s ∈ w.segments, ¬ s.IsDiag
  closed_iff : w.Closed ↔ w.start = w.stop

end Wire

namespace Chain

variable {c : Chain K}

omit [Scalar K] in
theorem start_wire (c : Chain K) : c.wire.start = c.front := rfl

omit [Scalar K] in
theorem stop_wire (c : Chain K) : c.wire.stop = c.back := by
  have hpoints : c.wire.points = (c.front :: c.inner) ++ [c.back] := rfl
  simp only [Wire.stop, hpoints, List.getLast_append_singleton]

theorem closed_wire_iff (c : Chain K) : c.wire.Closed ↔ c.Closed := by
  rw [Wire.Closed, start_wire, stop_wire, Closed]
  refine and_congr_left fun _ => ?_
  rw [← List.length_pos_iff]
  simp [wire, points]

section Separated

variable (h : Edge.Separated es) (hc : c.MadeOf (Edge.proper es))

include h hc

omit h in
theorem madeOf_of_proper : c.MadeOf es := fun _ hs =>
  List.map_subset _ (Edge.proper_subset es) (hc hs)

theorem not_isDiag_of_mem_segments : ∀ s ∈ c.segments, ¬ s.IsDiag := by
  intro s hs
  obtain ⟨e, he, rfl⟩ := List.mem_map.1 (hc hs)
  exact h.not_isDiag_of_mem_proper he

theorem isTrail_wire : c.wire.IsTrail := by
  have hproper := not_isDiag_of_mem_segments h hc
  refine ⟨hproper, ?_⟩
  rw [closed_wire_iff, closed_iff h (madeOf_of_proper hc), start_wire, stop_wire,
    and_iff_right_iff_imp]
  -- a chain of one edge has different ends
  intro heq hinner
  refine hproper s(c.front, c.back) ?_ (Sym2.mk_isDiag_iff.2 heq)
  simp [segments, points, hinner, Vec.segments, Edge.segment]

/-- The last point does not have to be moved. -/
theorem snapped_eq : c.snapped = c := by
  have hmade := madeOf_of_proper hc
  obtain ⟨front, inner, back⟩ := c
  unfold snapped
  split
  next hnear =>
    obtain rfl : front = back := (h.near_iff (hmade.mem_ends (front_mem_points _))
      (hmade.mem_ends (back_mem_points _))).1 hnear.2
    rfl
  next => rfl

/-- No point coincides with the one before it. -/
theorem ofPoints?_points : Wire.ofPoints? c.points = some c.wire := by
  have hmade := madeOf_of_proper hc
  have hchain : c.points.IsChain fun p q => tolerance ≤ (q - p).norm := by
    have hends : ∀ p ∈ c.points, p ∈ Edge.ends es := fun p => hmade.mem_ends
    refine (Vec.isChain_ne (not_isDiag_of_mem_segments h hc)).imp_of_mem_imp ?_
    intro p q hp hq hne
    exact (h.apart q (hends q hq) p (hends p hp) hne.symm).2
  have hdistinct : Wire.distinct c.points = c.points := Wire.distinct_of_isChain hchain
  unfold Wire.ofPoints?
  simp only [hdistinct, c.two_le_length_points, dite_true]
  rfl

end Separated

end Chain

namespace Wire

variable (h : Edge.Separated es)

include h

theorem madeOf_of_mem_all {c : Chain K} (hc : c ∈ Chain.all (Edge.proper es)) :
    c.MadeOf (Edge.proper es) := fun _ hs =>
  (Chain.all_spec h (Edge.proper_subset es)).1.subset (List.mem_flatMap.2 ⟨c, hc, hs⟩)

/-- The wires run through the points of the chains. -/
theorem chain_eq : chain es = (Chain.all (Edge.proper es)).map Chain.wire := by
  rw [chain, ← List.filterMap_eq_map]
  refine List.filterMap_congr fun c hc => ?_
  have hmade := madeOf_of_mem_all h hc
  rw [Chain.snapped_eq h hmade, Chain.ofPoints?_points h hmade]
  rfl

/-- Every edge with some length is an edge of one wire. -/
theorem perm_segments_chain :
    ((chain es).flatMap segments).Perm ((Edge.proper es).map Edge.segment) := by
  rw [chain_eq h, List.flatMap_map]
  exact (Chain.all_spec h (Edge.proper_subset es)).1

theorem isTrail_of_mem_chain (hw : w ∈ chain es) : w.IsTrail := by
  rw [chain_eq h] at hw
  obtain ⟨c, hc, rfl⟩ := List.mem_map.1 hw
  exact Chain.isTrail_wire h (madeOf_of_mem_all h hc)

/-- After an open wire there is none through its ends. -/
theorem pairwise_chain :
    (chain es).Pairwise fun w v => w.Closed ∨ w.start ∉ v.points ∧ w.stop ∉ v.points := by
  rw [chain_eq h, List.pairwise_map]
  refine (Chain.all_spec h (Edge.proper_subset es)).2.imp fun {c d} hcd => ?_
  rw [Chain.closed_wire_iff, Chain.start_wire, Chain.stop_wire]
  exact hcd

end Wire

/-! ### Visits -/

namespace Wire

omit [Scalar K] in
theorem points_eq (w : Wire K) : w.points = w.start :: (w.inner ++ [w.stop]) := by
  obtain ⟨p, ps, hps⟩ := List.exists_cons_of_ne_nil w.points_ne_nil
  have hne : ps ≠ [] := by
    have htwo := w.two_le_length
    rintro rfl
    simp [hps] at htwo
  simp only [start, stop, inner, hps, List.head_cons, List.tail_cons, List.getLast_cons hne,
    List.dropLast_append_getLast hne]

omit [Scalar K] in
theorem segments_eq (w : Wire K) :
    w.segments = Vec.segments (w.start :: (w.inner ++ [w.stop])) := by
  rw [← points_eq]
  rfl

/-- A wire ends at a point. -/
def EndsAt (p : Vec K) (w : Wire K) : Prop := ¬ w.Closed ∧ (w.start = p ∨ w.stop = p)

/-- The points of a wire in order, without the last one if the wire is closed. -/
def visits (w : Wire K) : List (Vec K) :=
  if w.Closed then w.start :: w.inner else w.points

namespace IsTrail

theorem mem_visits_iff (hw : w.IsTrail) : p ∈ w.visits ↔ p ∈ w.points := by
  unfold visits
  split
  next hclosed =>
    rw [points_eq, ← hw.closed_iff.1 hclosed, List.mem_cons, List.mem_cons, List.mem_append,
      List.mem_singleton]
    tauto
  next => rfl

open Classical in
/-- At each visit of a point two segments end there, but one where the wire ends. -/
theorem countP_segments (hw : w.IsTrail) (p : Vec K) :
    w.segments.countP (p ∈ ·) + (if w.EndsAt p then 1 else 0) = 2 * p.times w.visits := by
  rw [segments_eq, Vec.countP_segments (w.segments_eq ▸ hw.proper)]
  by_cases hclosed : w.Closed
  · have heq := hw.closed_iff.1 hclosed
    simp only [EndsAt, visits, hclosed, not_true, false_and, if_true, if_false, Vec.times_cons, heq]
    omega
  · have hne := mt hw.closed_iff.2 hclosed
    simp only [EndsAt, visits, hclosed, not_false_iff, true_and, if_false, points_eq w,
      Vec.times_cons, Vec.times_append, Vec.times_nil]
    grind

open Classical in
/-- A visit is one between the ends, at the seam or at an end. -/
theorem times_visits (hw : w.IsTrail) (p : Vec K) :
    p.times w.visits = p.times w.inner + (if w.Closed ∧ w.start = p then 1 else 0) +
      if w.EndsAt p then 1 else 0 := by
  by_cases hclosed : w.Closed
  · simp [visits, EndsAt, hclosed]
  · have hne := mt hw.closed_iff.2 hclosed
    simp only [visits, EndsAt, hclosed, not_false_iff, false_and, true_and, if_false,
      points_eq w, Vec.times_cons, Vec.times_append, Vec.times_nil]
    grind

end IsTrail

/-! ### Wires through a point -/

open Classical in
/-- The number of wires that end at a point. -/
noncomputable def ending (ws : List (Wire K)) (p : Vec K) : ℕ := ws.countP (EndsAt p)

open Classical in
/-- The number of closed wires that start at a point. -/
noncomputable def seams (ws : List (Wire K)) (p : Vec K) : ℕ :=
  ws.countP fun w => w.Closed ∧ w.start = p

/-- How often wires pass by a point. -/
noncomputable def passes (ws : List (Wire K)) (p : Vec K) : ℕ := p.times (ws.flatMap inner)

open Classical in
theorem countP_flatMap_segments (hws : ∀ w ∈ ws, w.IsTrail) (p : Vec K) :
    (ws.flatMap segments).countP (p ∈ ·) + ending ws p = 2 * p.times (ws.flatMap visits) := by
  induction ws with
  | nil => rfl
  | cons w ws ih =>
    rw [List.forall_mem_cons] at hws
    have hw := hws.1.countP_segments p
    have hrest := ih hws.2
    simp only [ending, List.flatMap_cons, List.countP_append, List.countP_cons, Vec.times_append,
      decide_eq_true_eq] at hw hrest ⊢
    omega

theorem times_flatMap_visits (hws : ∀ w ∈ ws, w.IsTrail) (p : Vec K) :
    p.times (ws.flatMap visits) = passes ws p + seams ws p + ending ws p := by
  classical
  induction ws with
  | nil => rfl
  | cons w ws ih =>
    rw [List.forall_mem_cons] at hws
    have hw := hws.1.times_visits p
    have hrest := ih hws.2
    simp only [passes, seams, ending, List.flatMap_cons, List.countP_cons, Vec.times_append,
      decide_eq_true_eq] at hw hrest ⊢
    omega

theorem EndsAt.mem_points (h : w.EndsAt p) : p ∈ w.points := by
  rcases h.2 with rfl | rfl
  · exact List.head_mem _
  · exact List.getLast_mem _

theorem ending_pos_iff : 0 < ending ws p ↔ ∃ w ∈ ws, w.EndsAt p := by
  simp [ending, List.countP_pos_iff]

theorem ending_le_one
    (hws : ws.Pairwise fun w v => w.Closed ∨ w.start ∉ v.points ∧ w.stop ∉ v.points)
    (p : Vec K) : ending ws p ≤ 1 := by
  classical
  induction ws with
  | nil => exact Nat.zero_le 1
  | cons w ws ih =>
    obtain ⟨hw, hrest⟩ := List.pairwise_cons.1 hws
    rw [ending, List.countP_cons, ← ending]
    by_cases hend : w.EndsAt p
    · have hnone : ending ws p = 0 := by
        refine List.countP_eq_zero.2 fun v hv hvp => ?_
        have hp := (of_decide_eq_true hvp).mem_points
        obtain ⟨hstart, hstop⟩ := (hw v hv).resolve_left hend.1
        rcases hend.2 with rfl | rfl
        · exact hstart hp
        · exact hstop hp
      simp [hend, hnone]
    · simpa [hend] using ih hrest

section Separated

variable (h : Edge.Separated es)

include h

/-- At each visit of a point two edges end there, but one where a wire ends. -/
theorem degree_add_ending (p : Vec K) :
    Edge.degree es p + ending (chain es) p = 2 * p.times ((chain es).flatMap visits) := by
  have htrails : ∀ w ∈ chain es, w.IsTrail := fun w hw => isTrail_of_mem_chain h hw
  rw [← countP_flatMap_segments htrails, (perm_segments_chain h).countP_eq, List.countP_map]
  rfl

theorem degree_eq (p : Vec K) : Edge.degree es p =
    2 * passes (chain es) p + 2 * seams (chain es) p + ending (chain es) p := by
  have hvisits := times_flatMap_visits (fun w hw => isTrail_of_mem_chain h hw) p
  have hdegree := degree_add_ending h p
  omega

end Separated

omit [Scalar K] in
theorem passes_pos_iff : 0 < passes ws p ↔ ∃ w ∈ ws, p ∈ w.inner := by
  rw [passes, Vec.times_pos_iff, List.mem_flatMap]

/-- **The edges at a point are passed by in pairs.**  All edges at a point go in pairs through wires
that pass by or have their seam there, but one that ends an open wire if their number is odd.  So no
wire passes by a branch point if and only if the wires at branch points have their seams there.
`Edge.Separated` leaves out ends that are not near themselves, which are infinite or undefined: a
wire that comes back to such an end is not closed there. -/
theorem chain_branches (h : Edge.Separated es) :
    (∀ p, Edge.degree es p =
        2 * passes (chain es) p + 2 * seams (chain es) p + ending (chain es) p ∧
      ending (chain es) p ≤ 1) ∧
    ((∀ w ∈ chain es, ∀ p ∈ w.inner, Edge.degree es p < 3) ↔
      ∀ p, 3 ≤ Edge.degree es p → seams (chain es) p = Edge.degree es p / 2) := by
  have hending := ending_le_one (pairwise_chain h)
  refine ⟨fun p => ⟨degree_eq h p, hending p⟩, ?_, ?_⟩
  · intro hsplit p hbranch
    have hnone : ¬ 0 < passes (chain es) p := by
      rw [passes_pos_iff]
      rintro ⟨w, hw, hp⟩
      exact absurd (hsplit w hw p hp) (by omega)
    have hdegree := degree_eq h p
    have hle := hending p
    omega
  · intro hseams w hw p hp
    by_contra hbranch
    have hpos := passes_pos_iff.2 ⟨w, hw, hp⟩
    have hhalf := hseams p (by omega)
    have hdegree := degree_eq h p
    have hle := hending p
    omega

end Wire

/-! A wire runs through the point in which three edges meet. -/

namespace Edge

/-- Three edges that meet in a point. -/
def fork : List (Edge ℝ) :=
  [⟨⟨0, 0, 0⟩, ⟨1, 0, 0⟩⟩, ⟨⟨1, 0, 0⟩, ⟨1, 1, 0⟩⟩, ⟨⟨1, 0, 0⟩, ⟨1, 0, 1⟩⟩]

theorem separated_fork : Separated fork := by
  refine separated_of_whole ?_
  simp only [ends, fork, List.flatMap_cons, List.flatMap_nil, List.cons_append, List.nil_append,
    List.append_nil, List.forall_mem_cons]
  exact ⟨⟨0, 0, 0, by simp⟩, ⟨1, 0, 0, by simp⟩, ⟨1, 0, 0, by simp⟩, ⟨1, 1, 0, by simp⟩,
    ⟨1, 0, 0, by simp⟩, ⟨1, 0, 1, by simp⟩, List.forall_mem_nil _⟩

theorem proper_fork : proper fork = fork := separated_fork.proper_eq (by simp [fork])

theorem degree_fork_branch : degree fork ⟨1, 0, 0⟩ = 3 := by
  rw [degree, proper_fork]
  simp [fork, segment]

theorem degree_fork_cases (p : Vec ℝ) : degree fork p = 3 ∨ degree fork p ≤ 1 := by
  classical
  by_cases hp : p = ⟨1, 0, 0⟩
  · rw [hp]
    exact .inl degree_fork_branch
  · right
    rw [degree, proper_fork]
    simp only [fork, segment, List.countP_cons, List.countP_nil, Sym2.mem_iff, hp,
      decide_eq_true_eq]
    grind

end Edge

namespace Wire

theorem chain_branches_fork : Edge.Separated Edge.fork ∧
    ∃ w ∈ chain Edge.fork, ∃ p ∈ w.inner, 3 ≤ Edge.degree Edge.fork p := by
  have hseparated := Edge.separated_fork
  obtain ⟨hcount, hsplit⟩ := chain_branches hseparated
  refine ⟨hseparated, ?_⟩
  by_contra hnone
  push Not at hnone
  have hbranch := Edge.degree_fork_branch
  have hseams := hsplit.1 hnone ⟨1, 0, 0⟩ (by omega)
  -- the wire with its seam at the branch point would pass by a point at which one edge ends
  have hseam : 0 < seams (chain Edge.fork) ⟨1, 0, 0⟩ := by omega
  obtain ⟨w, hw, hclosed⟩ := List.countP_pos_iff.1 hseam
  have hinner : w.inner ≠ [] := by
    have hlength := (of_decide_eq_true hclosed).1.1
    rw [← List.length_pos_iff, inner, List.length_dropLast, List.length_tail]
    omega
  obtain ⟨q, hq⟩ := List.exists_mem_of_ne_nil _ hinner
  have hpasses := passes_pos_iff.2 ⟨w, hw, hq⟩
  have hdegree := (hcount q).1
  have hfew := hnone w hw q hq
  rcases Edge.degree_fork_cases q with hthree | hone
  · omega
  · omega

end Wire

end WingBox
