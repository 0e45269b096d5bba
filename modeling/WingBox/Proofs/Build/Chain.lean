import WingBox.Proofs.Build.Ends

/-!
# Chains of edges

A chain grows by edges that touch it, and what it is made of are these edges.

* `Vec.countP_segments`: a path takes two segments to each point between its ends;
* `Chain.grow_cases`: a chain grows by one point, at its back or at its front;
* `Chain.growAll_spec`: no edge is lost while it grows, and none that is left touches it in the end
  unless it is closed;
* `Chain.all_spec`: so the chains are made of all edges, and no later chain leads through the ends
  of an open one.
-/

namespace WingBox

open Scalar

variable {K : Type} [Scalar K] {es : List (Edge K)} {e : Edge K} {c : Chain K} {p q r : Vec K}

/-! ### Segments between points -/

namespace Vec

variable {ps : List (Vec K)}

omit [Scalar K]

/-- The segments between neighbouring points. -/
def segments (ps : List (Vec K)) : List (Sym2 (Vec K)) :=
  (List.zipWith Edge.mk ps ps.tail).map Edge.segment

theorem segments_cons_cons (p q : Vec K) (ps : List (Vec K)) :
    segments (p :: q :: ps) = s(p, q) :: segments (q :: ps) := rfl

theorem segments_concat (ps : List (Vec K)) (p q : Vec K) :
    segments (ps ++ [p, q]) = segments (ps ++ [p]) ++ [s(p, q)] := by
  induction ps with
  | nil => rfl
  | cons r ps ih =>
    cases ps with
    | nil => rfl
    | cons r' ps => simpa only [List.cons_append, segments_cons_cons, List.cons.injEq, true_and]

/-- The points of a list with at least two points are the ends of its segments. -/
theorem mem_iff_exists_segment (h : 2 ≤ ps.length) : p ∈ ps ↔ ∃ s ∈ segments ps, p ∈ s := by
  obtain ⟨q, r, ps, rfl⟩ : ∃ q r ps', ps = q :: r :: ps' := by
    match ps, h with
    | q :: r :: ps, _ => exact ⟨q, r, ps, rfl⟩
  induction ps generalizing q r with
  | nil => simp [segments, Edge.segment]
  | cons r' ps ih =>
    have hrest := ih (q := r) (r := r') (by simp)
    rw [segments_cons_cons, List.mem_cons, hrest, List.exists_mem_cons_iff, Sym2.mem_iff]
    constructor
    · rintro (rfl | hp)
      · exact .inl (.inl rfl)
      · exact .inr hp
    · rintro ((rfl | rfl) | hp)
      · exact .inl rfl
      · exact .inr ⟨s(p, r'), List.mem_cons_self, Sym2.mem_mk_left _ _⟩
      · exact .inr hp

/-- Neighbouring points are different if no segment has equal ends. -/
theorem isChain_ne (h : ∀ s ∈ segments ps, ¬ s.IsDiag) : ps.IsChain (· ≠ ·) := by
  induction ps with
  | nil => exact .nil
  | cons p ps ih =>
    cases ps with
    | nil => exact .singleton p
    | cons q ps =>
      rw [segments_cons_cons, List.forall_mem_cons] at h
      exact .cons_cons (fun heq => h.1 (Sym2.mk_isDiag_iff.2 heq)) (ih h.2)

open Classical in
theorem countP_segment (hne : q ≠ r) (p : Vec K) :
    (if decide (p ∈ s(q, r)) = true then 1 else 0) =
      (if q = p then 1 else 0) + if r = p then 1 else 0 := by
  by_cases hq : q = p
  · have hr : r ≠ p := fun hr => hne (hq.trans hr.symm)
    simp [hq, hr]
  · by_cases hr : r = p
    · simp [hq, hr]
    · simp [hq, hr, Ne.symm hq, Ne.symm hr]

open Classical in
/-- At each visit of a point two segments end there, but for the first and the last point. -/
theorem countP_segments (h : ∀ s ∈ segments (q :: (ps ++ [r])), ¬ s.IsDiag) (p : Vec K) :
    (segments (q :: (ps ++ [r]))).countP (p ∈ ·) =
      2 * p.times ps + (if q = p then 1 else 0) + if r = p then 1 else 0 := by
  induction ps generalizing q with
  | nil =>
    rw [List.nil_append, segments_cons_cons, List.forall_mem_cons, Sym2.mk_isDiag_iff] at h
    rw [List.nil_append, segments_cons_cons, List.countP_cons, countP_segment h.1]
    simp [segments]
  | cons q' ps ih =>
    rw [List.cons_append, segments_cons_cons, List.forall_mem_cons, Sym2.mk_isDiag_iff] at h
    rw [List.cons_append, segments_cons_cons, List.countP_cons, countP_segment h.1, ih h.2,
      times_cons]
    omega

end Vec

/-! ### Picking edges -/

section TakeLast

variable {α : Type} {f : α → Bool} {xs rest : List α} {y : α}

theorem takeLast?_eq_none_iff : takeLast? f xs = none ↔ ∀ x ∈ xs, f x = false := by
  induction xs with
  | nil => simp [takeLast?]
  | cons x xs ih =>
    rw [takeLast?, List.forall_mem_cons]
    split
    next y ys hy =>
      refine iff_of_false (by simp) fun hall => ?_
      rw [ih.2 hall.2] at hy
      cases hy
    next hnone =>
      rw [← ih]
      simp [hnone]

theorem of_takeLast?_eq_some (h : takeLast? f xs = some (y, rest)) :
    f y ∧ (y :: rest).Perm xs := by
  induction xs generalizing y rest with
  | nil => cases h
  | cons x xs ih =>
    rw [takeLast?] at h
    split at h
    next z zs hz =>
      obtain ⟨rfl, rfl⟩ := Prod.mk.inj (Option.some.inj h)
      obtain ⟨hy, hperm⟩ := ih hz
      exact ⟨hy, (List.Perm.swap x z zs).trans (hperm.cons x)⟩
    next =>
      split at h
      next hx =>
        obtain ⟨rfl, rfl⟩ := Prod.mk.inj (Option.some.inj h)
        exact ⟨hx, .refl _⟩
      next => cases h

end TakeLast

/-! ### Growing chains -/

namespace Chain

/-- The segments of a chain. -/
def segments (c : Chain K) : List (Sym2 (Vec K)) := Vec.segments c.points

omit [Scalar K] in
theorem two_le_length_points (c : Chain K) : 2 ≤ c.points.length := by
  simp [points]

omit [Scalar K] in
theorem mem_points_iff : p ∈ c.points ↔ ∃ s ∈ c.segments, p ∈ s :=
  Vec.mem_iff_exists_segment c.two_le_length_points

/-- The chain is made of edges of a list. -/
def MadeOf (es : List (Edge K)) (c : Chain K) : Prop := c.segments ⊆ es.map Edge.segment

omit [Scalar K] in
theorem MadeOf.mem_ends (hc : c.MadeOf es) (hp : p ∈ c.points) : p ∈ Edge.ends es := by
  obtain ⟨s, hs, hps⟩ := mem_points_iff.1 hp
  obtain ⟨e, he, rfl⟩ := List.mem_map.1 (hc hs)
  exact Edge.mem_ends_iff.2 ⟨e, he, hps⟩

omit [Scalar K] in
theorem front_mem_points (c : Chain K) : c.front ∈ c.points := List.mem_cons_self

omit [Scalar K] in
theorem back_mem_points (c : Chain K) : c.back ∈ c.points := by simp [points]

section Separated

variable (h : Edge.Separated es) (hc : c.MadeOf es) (he : e ∈ es)

include h hc

theorem closed_iff : c.Closed ↔ c.inner ≠ [] ∧ c.front = c.back := by
  rw [Closed, h.near_iff (hc.mem_ends c.front_mem_points) (hc.mem_ends c.back_mem_points)]

include he

theorem start_near_iff (hp : p ∈ c.points) : e.start.Near p ↔ e.start = p :=
  h.near_iff (Edge.mem_ends_iff.2 ⟨e, he, Sym2.mem_mk_left _ _⟩) (hc.mem_ends hp)

theorem stop_near_iff (hp : p ∈ c.points) : e.stop.Near p ↔ e.stop = p :=
  h.near_iff (Edge.mem_ends_iff.2 ⟨e, he, Sym2.mem_mk_right _ _⟩) (hc.mem_ends hp)

theorem touches_iff : c.touches e ↔ c.back ∈ e.segment ∨ c.front ∈ e.segment := by
  simp only [touches, Bool.or_eq_true, decide_eq_true_eq,
    start_near_iff h hc he c.back_mem_points, stop_near_iff h hc he c.back_mem_points,
    start_near_iff h hc he c.front_mem_points, stop_near_iff h hc he c.front_mem_points,
    Edge.segment, Sym2.mem_iff]
  grind

/-- A chain grows at its back or at its front, by the other end of the edge. -/
theorem grow_cases (htouches : c.touches e) :
    (∃ q, e.segment = s(c.back, q) ∧ c.grow e = ⟨c.front, c.inner ++ [c.back], q⟩) ∨
      ∃ q, e.segment = s(q, c.front) ∧ c.grow e = ⟨q, c.front :: c.inner, c.back⟩ := by
  have hstartBack := start_near_iff h hc he c.back_mem_points
  have hstopBack := stop_near_iff h hc he c.back_mem_points
  have hstopFront := stop_near_iff h hc he c.front_mem_points
  unfold grow
  split
  next hnear =>
    have heq := hstartBack.1 hnear
    exact .inl ⟨e.stop, by rw [Edge.segment, heq], rfl⟩
  next hnotStartBack =>
    split
    next hnear =>
      have heq := hstopBack.1 hnear
      exact .inl ⟨e.start, by rw [Edge.segment, heq, Sym2.eq_swap], rfl⟩
    next hnotStopBack =>
      split
      next hnear =>
        have heq := hstopFront.1 hnear
        exact .inr ⟨e.start, by rw [Edge.segment, heq], rfl⟩
      next hnotStopFront =>
        -- the edge touches the chain, and only one end is left for that
        have heq : e.start = c.front := by
          have hend := (touches_iff h hc he).1 htouches
          rw [hstartBack] at hnotStartBack
          rw [hstopBack] at hnotStopBack
          rw [hstopFront] at hnotStopFront
          simp only [Edge.segment, Sym2.mem_iff] at hend
          grind
        exact .inr ⟨e.stop, by rw [Edge.segment, heq, Sym2.eq_swap], rfl⟩

/-- Growing by an edge adds its segment. -/
theorem perm_segments_grow (htouches : c.touches e) :
    (c.grow e).segments.Perm (e.segment :: c.segments) := by
  rcases grow_cases h hc he htouches with ⟨q, hsegment, hgrow⟩ | ⟨q, hsegment, hgrow⟩
  · have hpoints : (c.grow e).points = (c.front :: c.inner) ++ [c.back, q] := by
      simp [hgrow, points]
    rw [segments, hpoints, Vec.segments_concat, ← hsegment]
    exact List.perm_append_singleton _ _
  · have hpoints : (c.grow e).points = q :: c.front :: (c.inner ++ [c.back]) := by
      simp [hgrow, points]
    rw [segments, hpoints, Vec.segments_cons_cons, ← hsegment]
    exact .refl _

end Separated

/-- A chain that grows takes up edges, until it is closed or no edge is left that ends where it
ends. -/
theorem growAll_spec (h : Edge.Separated es) {c : Chain K} {l : List (Edge K)} (hl : l ⊆ es)
    (hc : c.MadeOf es) :
    ((c.growAll l).1.segments ++ (c.growAll l).2.map Edge.segment).Perm
        (c.segments ++ l.map Edge.segment) ∧
      (c.growAll l).2 ⊆ l ∧
      ((c.growAll l).1.Closed ∨ ∀ e ∈ (c.growAll l).2,
        (c.growAll l).1.front ∉ e.segment ∧ (c.growAll l).1.back ∉ e.segment) := by
  fun_induction growAll c l with
  | case1 c l hclosed => exact ⟨.refl _, List.Subset.refl _, .inl hclosed⟩
  | case2 c l _ hnone =>
    refine ⟨.refl _, List.Subset.refl _, .inr fun e he => ?_⟩
    have htouches := takeLast?_eq_none_iff.1 hnone e he
    rw [← Bool.not_eq_true, touches_iff h hc (hl he), not_or] at htouches
    exact htouches.symm
  | case3 c l _ e rest hsome _ ih =>
    obtain ⟨htouches, hperm⟩ := of_takeLast?_eq_some hsome
    have hrest : rest ⊆ l := fun x hx => hperm.subset (List.mem_cons_of_mem e hx)
    have he : e ∈ l := hperm.subset List.mem_cons_self
    have hgrow := perm_segments_grow h hc (hl he) htouches
    have hmade : (c.grow e).MadeOf es := by
      intro s hs
      rcases List.mem_cons.1 (hgrow.subset hs) with rfl | hs
      · exact List.mem_map_of_mem (hl he)
      · exact hc hs
    obtain ⟨hsegments, hsub, hend⟩ := ih (List.Subset.trans hrest hl) hmade
    refine ⟨hsegments.trans ?_, List.Subset.trans hsub hrest, hend⟩
    refine (hgrow.append_right _).trans ?_
    rw [List.cons_append]
    exact List.perm_middle.symm.trans ((hperm.map Edge.segment).append_left _)

omit [Scalar K] in
theorem segments_ofEdge (e : Edge K) : (ofEdge e).segments = [e.segment] := rfl

/-- The chains of some edges are made of all of them; after a chain that is not closed there is none
through its ends. -/
theorem all_spec (h : Edge.Separated es) {l : List (Edge K)} (hl : l ⊆ es) :
    ((all l).flatMap segments).Perm (l.map Edge.segment) ∧
      (all l).Pairwise fun c d => c.Closed ∨ c.front ∉ d.points ∧ c.back ∉ d.points := by
  fun_induction all l with
  | case1 => exact ⟨.refl _, .nil⟩
  | case2 e l grown _ ih =>
    have hmade : (ofEdge e).MadeOf es := by
      rw [MadeOf, segments_ofEdge, List.cons_subset]
      exact ⟨List.mem_map_of_mem (hl List.mem_cons_self), List.nil_subset _⟩
    have hrest : l ⊆ es := fun x hx => hl (List.mem_cons_of_mem e hx)
    obtain ⟨hperm, hsub, hend⟩ := growAll_spec h hrest hmade
    obtain ⟨hsegments, hpairwise⟩ := ih (List.Subset.trans hsub hrest)
    refine ⟨?_, List.pairwise_cons.2 ⟨fun d hd => hend.imp id fun hends => ?_, hpairwise⟩⟩
    · rw [List.flatMap_cons]
      exact (hsegments.append_left _).trans hperm
    · have hpoint {p : Vec K} (hp : ∀ e ∈ grown.2, p ∉ e.segment) : p ∉ d.points := by
        intro hmem
        obtain ⟨s, hs, hps⟩ := mem_points_iff.1 hmem
        have hs' : s ∈ (all grown.2).flatMap segments := List.mem_flatMap.2 ⟨d, hd, hs⟩
        obtain ⟨f, hf, rfl⟩ := List.mem_map.1 (hsegments.subset hs')
        exact hp f hf hps
      exact ⟨hpoint fun e he => (hends e he).1, hpoint fun e he => (hends e he).2⟩

/-! ### Two and three edges -/

/-- A chain grows by the last edge that touches it. -/
theorem growAll_of_takeLast? {rest : List (Edge K)} (hopen : ¬ c.Closed)
    (h : takeLast? c.touches es = some (e, rest)) : c.growAll es = (c.grow e).growAll rest := by
  rw [growAll, if_neg hopen]
  split
  next hnone => cases hnone.symm.trans h
  next hsome =>
    cases hsome.symm.trans h
    rfl

@[simp] theorem growAll_nil : c.growAll [] = (c, []) := by
  rw [growAll]
  exact ite_self _

end Chain

namespace Wire

variable [Vec.Measured K] {a b c : Vec K}

theorem not_degenerate_of_le (h : tolerance ≤ (q - p).norm) : ¬ (⟨p, q⟩ : Edge K).Degenerate :=
  (Vec.not_near_or_near_of_le h).2

/-- Two edges with a common end are one wire. -/
theorem chain_pair (hb : b.Near b) (hab : tolerance ≤ (b - a).norm)
    (hbc : tolerance ≤ (c - b).norm) (hac : tolerance ≤ (c - a).norm) :
    ∃ w, chain [⟨b, c⟩, ⟨a, b⟩] = [w] ∧ w.points = [a, b, c] := by
  have hgrown : (Chain.ofEdge ⟨b, c⟩).growAll [⟨a, b⟩] = (⟨a, [b], c⟩, []) := by
    have htouches : takeLast? (Chain.ofEdge ⟨b, c⟩).touches [⟨a, b⟩] = some (⟨a, b⟩, []) := by
      simp [takeLast?, Chain.touches, Chain.ofEdge, hb]
    have hgrow : (Chain.ofEdge ⟨b, c⟩).grow ⟨a, b⟩ = ⟨a, [b], c⟩ := by
      simp [Chain.grow, Chain.ofEdge, hb, Vec.not_near_or_near_of_le hbc,
        Vec.not_near_or_near_of_le hac]
    rw [Chain.growAll_of_takeLast? (fun h => h.1 rfl) htouches, hgrow, Chain.growAll_nil]
  have hall : Chain.all [⟨b, c⟩, ⟨a, b⟩] = [⟨a, [b], c⟩] := by
    rw [Chain.all, hgrown, Chain.all]
  have hsnapped : (⟨a, [b], c⟩ : Chain K).snapped.points = [a, b, c] := by
    simp [Chain.snapped, Chain.points]
  have hwire : ofPoints? [a, b, c] = some ⟨[a, b, c], Nat.le_add_left 2 1⟩ := by
    have hdistinct : distinct [a, b, c] = [a, b, c] :=
      distinct_of_isChain (.cons_cons hab (.cons_cons hbc (.singleton c)))
    simp [ofPoints?, hdistinct]
  refine ⟨⟨[a, b, c], Nat.le_add_left 2 1⟩, ?_, rfl⟩
  rw [chain]
  simp only [List.filter_cons, not_degenerate_of_le hbc, not_degenerate_of_le hab, decide_not,
    decide_false, Bool.not_false, if_true, List.filter_nil, hall, List.filterMap_cons, hsnapped,
    hwire, List.filterMap_nil]

/-- Three edges round make an open wire if the point between the first two is not near itself. -/
theorem chain_triple (ha : a.Near a) (hb : ¬ b.Near b) (hc : c.Near c)
    (hab : tolerance ≤ (b - a).norm) (hbc : tolerance ≤ (c - b).norm)
    (hca : tolerance ≤ (a - c).norm) :
    ∃ w, chain [⟨a, b⟩, ⟨b, c⟩, ⟨c, a⟩] = [w] ∧ w.points = [b, c, a, b] ∧ ¬ w.Closed := by
  have hab' := Vec.not_near_or_near_of_le hab
  have hbc' := Vec.not_near_or_near_of_le hbc
  have hgrown : (Chain.ofEdge ⟨a, b⟩).growAll [⟨b, c⟩, ⟨c, a⟩] = (⟨b, [c, a], b⟩, []) := by
    have hfirst : takeLast? (Chain.ofEdge ⟨a, b⟩).touches [⟨b, c⟩, ⟨c, a⟩] =
        some (⟨c, a⟩, [⟨b, c⟩]) := by
      simp [takeLast?, Chain.touches, Chain.ofEdge, ha]
    have hgrow : (Chain.ofEdge ⟨a, b⟩).grow ⟨c, a⟩ = ⟨c, [a], b⟩ := by
      simp [Chain.grow, Chain.ofEdge, ha, hab', hbc']
    have hopen : ¬ (⟨c, [a], b⟩ : Chain K).Closed := fun h => hbc'.2 h.2
    have hsecond : takeLast? (⟨c, [a], b⟩ : Chain K).touches [⟨b, c⟩] = some (⟨b, c⟩, []) := by
      simp [takeLast?, Chain.touches, hc]
    have hgrow' : (⟨c, [a], b⟩ : Chain K).grow ⟨b, c⟩ = ⟨b, [c, a], b⟩ := by
      simp [Chain.grow, hb, hbc', hc]
    rw [Chain.growAll_of_takeLast? (fun h => h.1 rfl) hfirst, hgrow,
      Chain.growAll_of_takeLast? hopen hsecond, hgrow', Chain.growAll_nil]
  have hall : Chain.all [⟨a, b⟩, ⟨b, c⟩, ⟨c, a⟩] = [⟨b, [c, a], b⟩] := by
    rw [Chain.all, hgrown, Chain.all]
  have hsnapped : (⟨b, [c, a], b⟩ : Chain K).snapped.points = [b, c, a, b] := by
    simp [Chain.snapped, Chain.points, hb]
  have hwire : ofPoints? [b, c, a, b] = some ⟨[b, c, a, b], Nat.le_add_left 2 2⟩ := by
    have hdistinct : distinct [b, c, a, b] = [b, c, a, b] :=
      distinct_of_isChain (.cons_cons hbc (.cons_cons hca (.cons_cons hab (.singleton b))))
    simp [ofPoints?, hdistinct]
  refine ⟨⟨[b, c, a, b], Nat.le_add_left 2 2⟩, ?_, rfl, fun h => hb h.2⟩
  rw [chain]
  simp only [List.filter_cons, not_degenerate_of_le hab, not_degenerate_of_le hbc,
    not_degenerate_of_le hca, decide_not, decide_false, Bool.not_false, if_true, List.filter_nil,
    hall, List.filterMap_cons, hsnapped, hwire, List.filterMap_nil]

end Wire

end WingBox
