import Mathlib.Data.Sym.Sym2
import WingBox.Proofs.Space.Near
import WingBox.Build.Chain

/-!
# Ends of edges

Edges make a graph: its nodes are the points at which edges with some length end.

* `Edge.degree` is the number of these edges that end at a point;
* `Edge.Separated` says that ends are one point or at least the tolerance apart, so points that are
  near each other are the same (`Edge.Separated.near_iff`), and that each is near itself, as finite
  ones are (`Edge.separated_of_finite`);
* `Edge.mem_looseEnds_iff`: the loose ends are the points of degree one.
-/

namespace WingBox

open Scalar

variable {K : Type} [Scalar K] {es : List (Edge K)} {p q : Vec K}

/-! ### Points of lists -/

namespace Vec

open Classical in
/-- How often a point occurs in a list. -/
noncomputable def times (p : Vec K) (ps : List (Vec K)) : ℕ := ps.countP (· = p)

variable {ps qs : List (Vec K)}

omit [Scalar K]

@[simp] theorem times_nil : p.times [] = 0 := rfl

open Classical in
@[simp] theorem times_cons : p.times (q :: ps) = p.times ps + if q = p then 1 else 0 := by
  simp [times, List.countP_cons]

@[simp] theorem times_append : p.times (ps ++ qs) = p.times ps + p.times qs := List.countP_append

theorem times_pos_iff : 0 < p.times ps ↔ p ∈ ps := by
  simp [times, List.countP_pos_iff]

theorem times_eq_zero_iff : p.times ps = 0 ↔ p ∉ ps := by
  rw [← times_pos_iff, Nat.pos_iff_ne_zero, not_not]

end Vec

namespace Edge

/-! ### The graph of edges -/

omit [Scalar K] in
/-- The ends of an edge, in no order. -/
def segment (e : Edge K) : Sym2 (Vec K) := s(e.start, e.stop)

omit [Scalar K] in
/-- The ends of all edges. -/
def ends (es : List (Edge K)) : List (Vec K) := es.flatMap fun e => [e.start, e.stop]

/-- The edges that have some length. -/
def proper (es : List (Edge K)) : List (Edge K) := es.filter fun e => ¬ e.Degenerate

open Classical in
/-- The number of edges with some length that end at a point. -/
noncomputable def degree (es : List (Edge K)) (p : Vec K) : ℕ :=
  (proper es).countP (p ∈ ·.segment)

/-- Ends of the edges are one point, which is near itself, or at least the tolerance apart. -/
structure Separated (es : List (Edge K)) : Prop where
  near_self : ∀ p ∈ ends es, p.Near p
  apart : ∀ p ∈ ends es, ∀ q ∈ ends es, p ≠ q → ¬ p.Near q ∧ tolerance ≤ (p - q).norm

/-- Ends that are finite are near themselves. -/
theorem separated_of_finite [Vec.Measured K] (hfinite : ∀ p ∈ ends es, p.Finite)
    (h : ∀ p ∈ ends es, ∀ q ∈ ends es, p = q ∨ tolerance ≤ (p - q).norm) : Separated es where
  near_self p hp := (hfinite p hp).near_self
  apart p hp q hq hpq := by
    have hapart := (h p hp q hq).resolve_left hpq
    exact ⟨(Vec.not_near_or_near_of_le hapart).2, hapart⟩

/-- With exact numbers nothing else has to be said than that different ends are apart. -/
theorem separated_iff {es : List (Edge ℝ)} :
    Separated es ↔ ∀ p ∈ ends es, ∀ q ∈ ends es, p = q ∨ tolerance ≤ p.distance q := by
  constructor
  · intro h p hp q hq
    by_cases hpq : p = q
    · exact .inl hpq
    · exact .inr (h.apart p hp q hq hpq).2
  · exact separated_of_finite fun p _ => p.finite

/-- Points with whole coordinates are apart. -/
theorem separated_of_whole {es : List (Edge ℝ)}
    (h : ∀ p ∈ ends es, ∃ i j k : ℤ, p = ⟨i, j, k⟩) : Separated es := by
  refine separated_iff.2 fun p hp q hq => ?_
  have hx := Vec.abs_x_le_norm (p - q)
  have hy := Vec.abs_y_le_norm (p - q)
  have hz := Vec.abs_z_le_norm (p - q)
  obtain ⟨i, j, k, rfl⟩ := h p hp
  obtain ⟨i', j', k', rfl⟩ := h q hq
  have hone {m n : ℤ} (hne : m ≠ n) : (tolerance : ℝ) ≤ |(m : ℝ) - n| := by
    have habs : (1 : ℝ) ≤ |(m : ℝ) - n| := by exact_mod_cast Int.one_le_abs (sub_ne_zero.2 hne)
    refine le_trans ?_ habs
    unfold tolerance
    norm_num
  by_cases hi : i = i'
  · by_cases hj : j = j'
    · by_cases hk : k = k'
      · exact .inl (by rw [hi, hj, hk])
      · exact .inr ((hone hk).trans hz)
    · exact .inr ((hone hj).trans hy)
  · exact .inr ((hone hi).trans hx)

omit [Scalar K] in
theorem mem_ends_iff : p ∈ ends es ↔ ∃ e ∈ es, p ∈ e.segment := by
  simp [ends, segment]

theorem mem_proper_iff {e : Edge K} : e ∈ proper es ↔ e ∈ es ∧ ¬ e.Degenerate := by
  simp [proper]

theorem proper_subset (es : List (Edge K)) : proper es ⊆ es := List.filter_subset_self es

namespace Separated

variable (h : Separated es)

include h

theorem near_iff (hp : p ∈ ends es) (hq : q ∈ ends es) : p.Near q ↔ p = q := by
  constructor
  · intro hnear
    by_contra hpq
    exact (h.apart p hp q hq hpq).1 hnear
  · rintro rfl
    exact h.near_self p hp

/-- An edge has some length if its ends are different. -/
theorem degenerate_iff {e : Edge K} (he : e ∈ es) : e.Degenerate ↔ e.segment.IsDiag := by
  have hstart : e.start ∈ ends es := mem_ends_iff.2 ⟨e, he, Sym2.mem_mk_left _ _⟩
  have hstop : e.stop ∈ ends es := mem_ends_iff.2 ⟨e, he, Sym2.mem_mk_right _ _⟩
  change e.stop.Near e.start ↔ _
  rw [h.near_iff hstop hstart, segment, Sym2.mk_isDiag_iff, eq_comm]

theorem proper_eq (hes : ∀ e ∈ es, e.start ≠ e.stop) : proper es = es := by
  refine List.filter_eq_self.2 fun e he => ?_
  rw [decide_eq_true_iff, h.degenerate_iff he, segment, Sym2.mk_isDiag_iff]
  exact hes e he

theorem not_isDiag_of_mem_proper {e : Edge K} (he : e ∈ proper es) : ¬ e.segment.IsDiag := by
  obtain ⟨hes, hlong⟩ := mem_proper_iff.1 he
  rwa [← h.degenerate_iff hes]

end Separated

omit [Scalar K] in
open Classical in
/-- A point occurs among the ends of edges as often as edges with different ends end there. -/
theorem times_ends (hes : ∀ e ∈ es, ¬ e.segment.IsDiag) (p : Vec K) :
    p.times (ends es) = es.countP (p ∈ ·.segment) := by
  induction es with
  | nil => rfl
  | cons e es ih =>
    rw [List.forall_mem_cons] at hes
    have hne : e.start ≠ e.stop := fun heq => hes.1 (Sym2.mk_isDiag_iff.2 heq)
    rw [ends, List.flatMap_cons, Vec.times_append, ← ends, ih hes.2, List.countP_cons]
    by_cases hstart : e.start = p
    · have hstop : e.stop ≠ p := fun h => hne (hstart.trans h.symm)
      simp [segment, hstart, hstop, Nat.add_comm]
    · by_cases hstop : e.stop = p
      · simp [segment, hstart, hstop, Nat.add_comm]
      · simp [segment, hstart, hstop, Ne.symm hstart, Ne.symm hstop]

/-! ### Loose ends -/

/-- Nodes for the points of a list, one for each, which count how often it occurs. -/
structure Counted (ps : List (Vec K)) (ns : List (Node K)) : Prop where
  count_eq : ∀ n ∈ ns, n.count = n.point.times ps
  mem_points : ∀ n ∈ ns, n.point ∈ ps
  exists_node : ∀ p ∈ ps, ∃ n ∈ ns, n.point = p
  points_ne : ns.Pairwise fun n m => n.point ≠ m.point

section Nodes

variable {ps : List (Vec K)} {ns : List (Node K)}

theorem add_of_forall_not_near (hns : ∀ n ∈ ns, ¬ n.point.Near p) :
    Node.add p ns = ns ++ [⟨p, 1⟩] := by
  induction ns with
  | nil => rfl
  | cons n ns ih =>
    rw [List.forall_mem_cons] at hns
    rw [Node.add, if_neg hns.1, ih hns.2, List.cons_append]

open Classical in
theorem add_of_near (hns : ∀ n ∈ ns, n.point.Near p ↔ n.point = p)
    (hne : ns.Pairwise fun n m => n.point ≠ m.point) (hmem : ∃ n ∈ ns, n.point = p) :
    Node.add p ns = ns.map fun n => if n.point = p then ⟨n.point, n.count + 1⟩ else n := by
  induction ns with
  | nil => simp at hmem
  | cons n ns ih =>
    rw [List.forall_mem_cons] at hns
    rw [List.pairwise_cons] at hne
    by_cases hn : n.point = p
    · have hrest : ∀ m ∈ ns, (if m.point = p then ⟨m.point, m.count + 1⟩ else m) = m :=
        fun m hm => if_neg fun heq => hne.1 m hm (hn.trans heq.symm)
      rw [Node.add, if_pos (hns.1.2 hn), List.map_cons, if_pos hn, List.map_congr_left hrest,
        List.map_id']
    · have hrest : ∃ m ∈ ns, m.point = p := by
        obtain ⟨m, hm, hpoint⟩ := hmem
        rcases List.mem_cons.1 hm with rfl | hm
        · exact absurd hpoint hn
        · exact ⟨m, hm, hpoint⟩
      rw [Node.add, if_neg fun hnear => hn (hns.1.1 hnear), List.map_cons, if_neg hn,
        ih hns.2 hne.2 hrest]

/-- One more end keeps the counts. -/
theorem Counted.add (h : Counted ps ns) (hns : ∀ n ∈ ns, n.point.Near p ↔ n.point = p) :
    Counted (p :: ps) (Node.add p ns) := by
  by_cases hmem : ∃ n ∈ ns, n.point = p
  · rw [add_of_near hns h.points_ne hmem]
    refine ⟨?_, ?_, ?_, ?_⟩
    · simp only [List.forall_mem_map]
      intro n hn
      by_cases hpoint : n.point = p
      · simp [hpoint, h.count_eq n hn]
      · simp [hpoint, Ne.symm hpoint, h.count_eq n hn]
    · simp only [List.forall_mem_map]
      intro n hn
      split <;> exact List.mem_cons_of_mem _ (h.mem_points n hn)
    · intro q hq
      have hnode : ∃ n ∈ ns, n.point = q := by
        rcases List.mem_cons.1 hq with rfl | hq
        · exact hmem
        · exact h.exists_node q hq
      obtain ⟨n, hn, hpoint⟩ := hnode
      refine ⟨_, List.mem_map_of_mem hn, ?_⟩
      split <;> exact hpoint
    · refine List.pairwise_map.2 (h.points_ne.imp fun {n m} hne => ?_)
      split <;> split <;> exact hne
  · have hnone : ∀ n ∈ ns, n.point ≠ p := fun n hn heq => hmem ⟨n, hn, heq⟩
    rw [add_of_forall_not_near fun n hn hnear => hnone n hn ((hns n hn).1 hnear)]
    refine ⟨fun n hn => ?_, fun n hn => ?_, fun q hq => ?_, ?_⟩
    · rcases List.mem_append.1 hn with hn | hn
      · simp [h.count_eq n hn, (hnone n hn).symm]
      · have hps : p ∉ ps := fun hp => hmem (h.exists_node p hp)
        simp [List.mem_singleton.1 hn, Vec.times_eq_zero_iff.2 hps]
    · rcases List.mem_append.1 hn with hn | hn
      · exact List.mem_cons_of_mem _ (h.mem_points n hn)
      · rw [List.mem_singleton.1 hn]
        exact List.mem_cons_self
    · rcases List.mem_cons.1 hq with rfl | hq
      · exact ⟨⟨q, 1⟩, by simp, rfl⟩
      · obtain ⟨n, hn, hpoint⟩ := h.exists_node q hq
        exact ⟨n, List.mem_append_left _ hn, hpoint⟩
    · refine List.pairwise_append.2 ⟨h.points_ne, List.pairwise_singleton _ _, fun n hn m hm => ?_⟩
      rw [List.mem_singleton.1 hm]
      exact hnone n hn

end Nodes

/-- The nodes of edges count how many ends there are at each point. -/
theorem Separated.counted_nodes (h : Separated es) :
    ∃ ps, ps.Perm (ends (proper es)) ∧ Counted ps (nodes es) := by
  suffices hfold : ∀ l : List (Edge K), l ⊆ es → ∃ ps, ps.Perm (ends l) ∧
      Counted ps (l.foldl (fun ns e => Node.add e.stop (Node.add e.start ns)) []) from
    hfold _ (proper_subset es)
  intro l hl
  induction l using List.reverseRecOn with
  | nil => exact ⟨[], .refl _, by constructor <;> simp⟩
  | append_singleton l e ih =>
    obtain ⟨hbefore, he⟩ := List.append_subset.1 hl
    obtain ⟨ps, hperm, hcounted⟩ := ih hbefore
    have hmem : e ∈ es := he (List.mem_singleton_self e)
    have hends : ∀ p ∈ ps, p ∈ ends es := by
      intro p hp
      obtain ⟨f, hf, hpf⟩ := mem_ends_iff.1 (hperm.mem_iff.1 hp)
      exact mem_ends_iff.2 ⟨f, hbefore hf, hpf⟩
    have hstart : e.start ∈ ends es := mem_ends_iff.2 ⟨e, hmem, Sym2.mem_mk_left _ _⟩
    have hstop : e.stop ∈ ends es := mem_ends_iff.2 ⟨e, hmem, Sym2.mem_mk_right _ _⟩
    have hadd := hcounted.add fun n hn => h.near_iff (hends _ (hcounted.mem_points n hn)) hstart
    have hadd' := hadd.add fun n hn => by
      refine h.near_iff ?_ hstop
      rcases List.mem_cons.1 (hadd.mem_points n hn) with heq | hp
      · exact heq ▸ hstart
      · exact hends _ hp
    rw [List.foldl_append]
    refine ⟨_, ?_, hadd'⟩
    rw [ends, List.flatMap_append, ← ends]
    have hpair : [e.stop, e.start].Perm [e.start, e.stop] := .swap _ _ _
    exact List.perm_append_comm.trans (hperm.append (by simpa using hpair))

/-- The loose ends are the points at which one edge with some length ends. -/
theorem Separated.mem_looseEnds_iff (h : Separated es) : p ∈ looseEnds es ↔ degree es p = 1 := by
  obtain ⟨ps, hperm, hcounted⟩ := h.counted_nodes
  have htimes : p.times ps = degree es p := by
    have hproper : ∀ e ∈ proper es, ¬ e.segment.IsDiag := fun e he => h.not_isDiag_of_mem_proper he
    rw [Vec.times, hperm.countP_eq, ← Vec.times, times_ends hproper]
    rfl
  rw [← htimes, looseEnds, List.mem_map]
  constructor
  · rintro ⟨n, hn, rfl⟩
    obtain ⟨hn, hone⟩ := List.mem_filter.1 hn
    rw [← hcounted.count_eq n hn]
    simpa using hone
  · intro hone
    obtain ⟨n, hn, rfl⟩ := hcounted.exists_node p (Vec.times_pos_iff.1 (by omega))
    exact ⟨n, List.mem_filter.2 ⟨hn, by simp [hcounted.count_eq n hn, hone]⟩, rfl⟩

end Edge

end WingBox
