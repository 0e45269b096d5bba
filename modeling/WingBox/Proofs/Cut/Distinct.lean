import WingBox.Cut.Intersect
import WingBox.Proofs.Space.Near

/-!
# Edges without repeats

`Edge.distinct` goes through a list of edges and keeps those that are not degenerate and do not
coincide with one that is kept already.  To coincide is not transitive, so there are no classes of
which it could keep one edge each; which edges are kept depends on their order.

* `Edge.distinct_concat`: what the last edge of a list changes, on which the inductions rest;
* `Edge.KeptAt`: the places of the edges that are kept, said by a rule that leads from the first
  edge to the last one (`Edge.KeptAt.unique`, `Edge.exists_keptAt`);
* `Edge.KeptAt.turned`: turning edges round changes none of these places;
* `Edge.distinct_represents`: the edges that are kept represent all others.
-/

namespace WingBox

open Scalar

namespace Edge

variable {K : Type} [Scalar K] {es fs : List (Edge K)} {e f u : Edge K}

/-! ### Turning edges round -/

/-- The edges are the same, or the same run the other way. -/
def Turned (e f : Edge K) : Prop := f = e ∨ f = e.reversed

theorem coincide_reversed_left : e.reversed.Coincide f ↔ e.Coincide f := by
  unfold Coincide reversed
  rw [or_comm, and_comm (a := e.stop.Near f.stop), and_comm (a := e.stop.Near f.start)]

theorem coincide_reversed_right : e.Coincide f.reversed ↔ e.Coincide f := or_comm

theorem Turned.coincide_iff {e' f' : Edge K} (he : Turned e e') (hf : Turned f f') :
    e'.Coincide f' ↔ e.Coincide f := by
  rcases he with rfl | rfl <;> rcases hf with rfl | rfl <;>
    simp only [coincide_reversed_left, coincide_reversed_right]

section Measured

variable [Vec.Measured K]

theorem degenerate_reversed : e.reversed.Degenerate ↔ e.Degenerate := by
  unfold Degenerate length span reversed
  rw [Vec.Measured.norm_sub_comm]

theorem Turned.degenerate_iff (h : Turned e f) : f.Degenerate ↔ e.Degenerate := by
  rcases h with rfl | rfl
  · exact Iff.rfl
  · exact degenerate_reversed

theorem Coincide.symm (h : e.Coincide f) : f.Coincide e :=
  h.imp (fun hsame => ⟨hsame.1.symm, hsame.2.symm⟩) fun hturned => ⟨hturned.2.symm, hturned.1.symm⟩

end Measured

/-- The ends of the edge have coordinates that are neither infinite nor undefined. -/
def Finite (e : Edge K) : Prop := e.start.Finite ∧ e.stop.Finite

theorem Finite.coincide_self [Vec.Measured K] (h : e.Finite) : e.Coincide e :=
  .inl ⟨h.1.near_self, h.2.near_self⟩

/-! ### The last edge -/

/-- The edge is not degenerate and coincides with none of those that are kept. -/
def Fresh (kept : List (Edge K)) (e : Edge K) : Prop :=
  ¬ e.Degenerate ∧ ∀ u ∈ kept, ¬ u.Coincide e

open Classical in
/-- The last edge of a list is kept if it is fresh. -/
theorem distinct_concat (es : List (Edge K)) (e : Edge K) :
    distinct (es ++ [e]) = distinct es ++ if Fresh (distinct es) e then [e] else [] := by
  have hstep : distinct (es ++ [e]) = if e.Degenerate ∨ ∃ u ∈ distinct es, u.Coincide e then
      distinct es else distinct es ++ [e] := List.foldl_concat ..
  have hfresh : Fresh (distinct es) e ↔ ¬ (e.Degenerate ∨ ∃ u ∈ distinct es, u.Coincide e) := by
    rw [not_or, not_exists]
    exact and_congr_right fun _ => forall_congr' fun u => not_and.symm
  rw [hstep]
  split
  next h => rw [if_neg fun hnew => hfresh.1 hnew h, List.append_nil]
  next h => rw [if_pos (hfresh.2 h)]

theorem distinct_concat_of_fresh (h : Fresh (distinct es) e) :
    distinct (es ++ [e]) = distinct es ++ [e] := by
  rw [distinct_concat, if_pos h]

theorem distinct_concat_of_not_fresh (h : ¬ Fresh (distinct es) e) :
    distinct (es ++ [e]) = distinct es := by
  rw [distinct_concat, if_neg h, List.append_nil]

theorem distinct_pair (he : ¬ e.Degenerate) (hf : ¬ f.Degenerate) (h : ¬ e.Coincide f) :
    distinct [e, f] = [e, f] := by
  have hnone : Fresh (distinct []) e := ⟨he, nofun⟩
  have hone : distinct [e] = [e] := distinct_concat_of_fresh hnone
  have hfresh : Fresh (distinct [e]) f := by
    rw [hone]
    exact ⟨hf, fun u hu => List.mem_singleton.1 hu ▸ h⟩
  have hpair := distinct_concat_of_fresh hfresh
  rwa [hone] at hpair

/-! ### What is kept -/

theorem distinct_sublist (es : List (Edge K)) : (distinct es).Sublist es := by
  induction es using List.reverseRecOn with
  | nil => exact .slnil
  | append_singleton es e ih =>
    by_cases h : Fresh (distinct es) e
    · rw [distinct_concat_of_fresh h]
      exact ih.append (.refl [e])
    · rw [distinct_concat_of_not_fresh h]
      exact ih.trans (List.sublist_append_left es [e])

theorem not_degenerate_of_mem_distinct (h : e ∈ distinct es) : ¬ e.Degenerate := by
  induction es using List.reverseRecOn with
  | nil => cases h
  | append_singleton es f ih =>
    by_cases hf : Fresh (distinct es) f
    · rw [distinct_concat_of_fresh hf, List.mem_append, List.mem_singleton] at h
      rcases h with h | rfl
      · exact ih h
      · exact hf.1
    · rw [distinct_concat_of_not_fresh hf] at h
      exact ih h

/-- No edge that is kept coincides with one that is kept later. -/
theorem pairwise_distinct (es : List (Edge K)) :
    (distinct es).Pairwise fun u v => ¬ u.Coincide v := by
  induction es using List.reverseRecOn with
  | nil => exact .nil
  | append_singleton es e ih =>
    by_cases h : Fresh (distinct es) e
    · rw [distinct_concat_of_fresh h, List.pairwise_append]
      refine ⟨ih, List.pairwise_singleton _ e, fun u hu v hv => ?_⟩
      rw [List.mem_singleton.1 hv]
      exact h.2 u hu
    · rwa [distinct_concat_of_not_fresh h]

/-- An edge that is not degenerate is kept, or coincides with one that is kept. -/
theorem mem_distinct_or_coincide (he : e ∈ es) (hlong : ¬ e.Degenerate) :
    e ∈ distinct es ∨ ∃ u ∈ distinct es, u.Coincide e := by
  induction es using List.reverseRecOn with
  | nil => cases he
  | append_singleton es f ih =>
    have hkept : distinct es ⊆ distinct (es ++ [f]) := by
      rw [distinct_concat]
      exact List.subset_append_left ..
    rcases List.mem_append.1 he with he | he
    · rcases ih he with hmem | ⟨u, hu, hcoincide⟩
      · exact .inl (hkept hmem)
      · exact .inr ⟨u, hkept hu, hcoincide⟩
    obtain rfl := List.mem_singleton.1 he
    by_cases h : Fresh (distinct es) e
    · rw [distinct_concat_of_fresh h]
      exact .inl (List.mem_append_right _ (List.mem_singleton_self e))
    · -- the edge is dropped for the sake of one that is kept
      unfold Fresh at h
      push Not at h
      obtain ⟨u, hu, hcoincide⟩ := h hlong
      exact .inr ⟨u, hkept hu, hcoincide⟩

/-- If its ends are finite, it coincides with one that is kept in any case. -/
theorem exists_coincide_of_mem [Vec.Measured K] (he : e ∈ es) (hlong : ¬ e.Degenerate)
    (hfinite : e.Finite) : ∃ u ∈ distinct es, u.Coincide e := by
  rcases mem_distinct_or_coincide he hlong with hmem | h
  · exact ⟨e, hmem, hfinite.coincide_self⟩
  · exact h

theorem distinct_distinct (es : List (Edge K)) : distinct (distinct es) = distinct es := by
  induction es using List.reverseRecOn with
  | nil => rfl
  | append_singleton es e ih =>
    by_cases h : Fresh (distinct es) e
    · have hagain : Fresh (distinct (distinct es)) e := by rwa [ih]
      rw [distinct_concat_of_fresh h, distinct_concat_of_fresh hagain, ih]
    · rwa [distinct_concat_of_not_fresh h]

/-! ### Where edges are kept -/

/-- The places of the edges that are kept, in order: an edge is kept if it is not degenerate and
coincides with no edge at an earlier one of these places. -/
structure KeptAt (es : List (Edge K)) (ks : List ℕ) : Prop where
  increasing : ks.Pairwise (· < ·)
  lt_length : ∀ k ∈ ks, k < es.length
  mem_iff : ∀ k e, es[k]? = some e → (k ∈ ks ↔
    ¬ e.Degenerate ∧ ∀ j ∈ ks, j < k → ∀ u, es[j]? = some u → ¬ u.Coincide e)

/-- The rule leaves no choice. -/
theorem KeptAt.unique {ks ls : List ℕ} (hks : KeptAt es ks) (hls : KeptAt es ls) : ks = ls := by
  have hmem (k : ℕ) : k ∈ ks ↔ k ∈ ls := by
    induction k using Nat.strong_induction_on with
    | _ k ih =>
      rcases hk : es[k]? with _ | e
      · have hlength := List.getElem?_eq_none_iff.1 hk
        exact iff_of_false (fun h => (hks.lt_length k h).not_ge hlength)
          fun h => (hls.lt_length k h).not_ge hlength
      · rw [hks.mem_iff k e hk, hls.mem_iff k e hk]
        refine and_congr_right fun _ => forall_congr' fun j => ?_
        constructor <;> intro h hj hlt
        · exact h ((ih j hlt).2 hj) hlt
        · exact h ((ih j hlt).1 hj) hlt
  exact List.Pairwise.eq_of_mem_iff hks.increasing hls.increasing hmem

/-- One more edge at the end leaves the places before it alone. -/
theorem KeptAt.concat {ks ls : List ℕ} (h : KeptAt es ks) (hls : ls = [] ∨ ls = [es.length])
    (hlast : es.length ∈ ls ↔
      ¬ e.Degenerate ∧ ∀ j ∈ ks, ∀ u, es[j]? = some u → ¬ u.Coincide e) :
    KeptAt (es ++ [e]) (ks ++ ls) := by
  have hle : ∀ l ∈ ls, l = es.length := by
    rcases hls with rfl | rfl
    · exact nofun
    · exact fun l => List.mem_singleton.1
  have hmem {j : ℕ} (hj : j < es.length) : j ∈ ks ++ ls ↔ j ∈ ks := by
    rw [List.mem_append]
    exact or_iff_left fun hjl => hj.ne (hle j hjl)
  have hrule {k : ℕ} (hk : k ≤ es.length) (f : Edge K) :
      (∀ j ∈ ks ++ ls, j < k → ∀ u, (es ++ [e])[j]? = some u → ¬ u.Coincide f) ↔
        ∀ j ∈ ks, j < k → ∀ u, es[j]? = some u → ¬ u.Coincide f := by
    refine forall_congr' fun j => ?_
    constructor <;> intro hall hj hlt
    · rw [← List.getElem?_append_left (hlt.trans_le hk)]
      exact hall ((hmem (hlt.trans_le hk)).2 hj) hlt
    · rw [List.getElem?_append_left (hlt.trans_le hk)]
      exact hall ((hmem (hlt.trans_le hk)).1 hj) hlt
  refine ⟨List.pairwise_append.2 ⟨h.increasing, ?_, fun k hk l hl => ?_⟩, fun k hk => ?_,
    fun k f hf => ?_⟩
  · rcases hls with rfl | rfl
    · exact .nil
    · exact List.pairwise_singleton _ _
  · rw [hle l hl]
    exact h.lt_length k hk
  · rw [List.length_append, List.length_singleton]
    rcases List.mem_append.1 hk with hk | hk
    · exact (h.lt_length k hk).trans (Nat.lt_succ_self _)
    · exact (hle k hk).trans_lt (Nat.lt_succ_self _)
  rcases lt_or_ge k es.length with hk | hk
  · rw [List.getElem?_append_left hk] at hf
    rw [hmem hk, hrule hk.le, h.mem_iff k f hf]
  · -- the last place
    have hend : k = es.length := by
      obtain ⟨hlt, -⟩ := List.getElem?_eq_some_iff.1 hf
      rw [List.length_append, List.length_singleton] at hlt
      omega
    subst hend
    obtain rfl : e = f := by
      rw [List.getElem?_concat_length] at hf
      exact Option.some.inj hf
    rw [hrule le_rfl, List.mem_append,
      or_iff_right fun hmem => (h.lt_length _ hmem).ne rfl, hlast]
    refine and_congr_right fun _ => forall₂_congr fun j hj => ?_
    exact ⟨fun hall _ => hall, fun hall => hall (h.lt_length j hj)⟩

/-- There are such places, and the edges there are those that are kept. -/
theorem exists_keptAt (es : List (Edge K)) :
    ∃ ks, KeptAt es ks ∧ distinct es = ks.filterMap (es[·]?) := by
  induction es using List.reverseRecOn with
  | nil => exact ⟨[], ⟨.nil, nofun, nofun⟩, rfl⟩
  | append_singleton es e ih =>
    obtain ⟨ks, hks, hdistinct⟩ := ih
    have hfresh : Fresh (distinct es) e ↔
        ¬ e.Degenerate ∧ ∀ j ∈ ks, ∀ u, es[j]? = some u → ¬ u.Coincide e := by
      refine and_congr_right fun _ => ?_
      rw [hdistinct]
      constructor
      · exact fun hall j hj u hu => hall u (List.mem_filterMap.2 ⟨j, hj, hu⟩)
      · intro hall u hu
        obtain ⟨j, hj, hu⟩ := List.mem_filterMap.1 hu
        exact hall j hj u hu
    have hbefore : ks.filterMap ((es ++ [e])[·]?) = distinct es := by
      rw [hdistinct]
      exact List.filterMap_congr fun k hk => List.getElem?_append_left (hks.lt_length k hk)
    by_cases h : Fresh (distinct es) e
    · refine ⟨ks ++ [es.length], hks.concat (.inr rfl) ?_, ?_⟩
      · exact iff_of_true (List.mem_singleton_self _) (hfresh.1 h)
      · rw [distinct_concat_of_fresh h, List.filterMap_append, hbefore]
        simp
    · refine ⟨ks ++ [], hks.concat (.inl rfl) ?_, ?_⟩
      · exact iff_of_false List.not_mem_nil (mt hfresh.2 h)
      · rw [distinct_concat_of_not_fresh h, List.append_nil, hbefore]

theorem KeptAt.distinct_eq {ks : List ℕ} (h : KeptAt es ks) :
    distinct es = ks.filterMap (es[·]?) := by
  obtain ⟨ls, hls, hdistinct⟩ := exists_keptAt es
  rw [h.unique hls, hdistinct]

/-- Turning edges round leaves the places alone. -/
theorem KeptAt.turned [Vec.Measured K] {ks : List ℕ} (h : KeptAt es ks)
    (hturned : List.Forall₂ Turned es fs) : KeptAt fs ks := by
  have hlength := hturned.length_eq
  have hget {k : ℕ} {e f : Edge K} (he : es[k]? = some e) (hf : fs[k]? = some f) :
      Turned e f := by
    obtain ⟨hk, rfl⟩ := List.getElem?_eq_some_iff.1 he
    obtain ⟨hk', rfl⟩ := List.getElem?_eq_some_iff.1 hf
    exact hturned.get hk hk'
  have hsome {k : ℕ} {f : Edge K} (hf : fs[k]? = some f) : ∃ e, es[k]? = some e := by
    obtain ⟨hk, -⟩ := List.getElem?_eq_some_iff.1 hf
    exact ⟨_, List.getElem?_eq_getElem (hlength ▸ hk)⟩
  have hsome' {k : ℕ} {e : Edge K} (he : es[k]? = some e) : ∃ f, fs[k]? = some f := by
    obtain ⟨hk, -⟩ := List.getElem?_eq_some_iff.1 he
    exact ⟨_, List.getElem?_eq_getElem (hlength ▸ hk)⟩
  refine ⟨h.increasing, fun k hk => hlength ▸ h.lt_length k hk, fun k f hf => ?_⟩
  obtain ⟨e, he⟩ := hsome hf
  rw [h.mem_iff k e he, (hget he hf).degenerate_iff]
  refine and_congr_right fun _ => forall₃_congr fun j _ _ => ?_
  constructor <;> intro hall u hu
  · obtain ⟨v, hv⟩ := hsome hu
    rw [(hget hv hu).coincide_iff (hget he hf)]
    exact hall v hv
  · obtain ⟨v, hv⟩ := hsome' hu
    rw [← (hget hu hv).coincide_iff (hget he hf)]
    exact hall v hv

/-! ### The edges that represent all others -/

/-- **What is kept represents all edges.**  The edges that are kept are some of the edges in order;
none of them is degenerate and no two coincide; an edge that is not degenerate is kept or coincides
with one that is kept, and it does coincide with one if it coincides with itself, that is if its
ends are finite; and nothing more is dropped the next time.  The places at which edges are kept stay
the same, one after the other, when any of the edges are turned round. -/
theorem distinct_represents [Vec.Measured K] (es : List (Edge K)) :
    (distinct es).Sublist es ∧
      (∀ e ∈ distinct es, ¬ e.Degenerate) ∧
      (distinct es).Pairwise (fun u v => ¬ u.Coincide v ∧ ¬ v.Coincide u) ∧
      (∀ e ∈ es, ¬ e.Degenerate → (e ∈ distinct es ∨ ∃ u ∈ distinct es, u.Coincide e) ∧
        (e.Finite → ∃ u ∈ distinct es, u.Coincide e)) ∧
      distinct (distinct es) = distinct es ∧
      ∃ ks, KeptAt es ks ∧
        ∀ fs, List.Forall₂ Turned es fs → KeptAt fs ks ∧ distinct fs = ks.filterMap (fs[·]?) := by
  obtain ⟨ks, hks, -⟩ := exists_keptAt es
  refine ⟨distinct_sublist es, fun e => not_degenerate_of_mem_distinct,
    (pairwise_distinct es).imp fun huv => ⟨huv, mt Coincide.symm huv⟩,
    fun e he hlong => ⟨mem_distinct_or_coincide he hlong, exists_coincide_of_mem he hlong⟩,
    distinct_distinct es, ks, hks, fun fs hturned => ?_⟩
  have hturned := hks.turned hturned
  exact ⟨hturned, hturned.distinct_eq⟩

/-- With exact numbers all ends are finite. -/
example (es : List (Edge ℝ)) (e : Edge ℝ) (he : e ∈ es) (hlong : ¬ e.Degenerate) :
    ∃ u ∈ distinct es, u.Coincide e :=
  exists_coincide_of_mem he hlong ⟨e.start.finite, e.stop.finite⟩

/-- An edge that starts infinitely far away. -/
def unboundedEdge : Edge Float := ⟨⟨1 / 0, 0, 0⟩, ⟨0, 0, 0⟩⟩

/-- Such an edge is kept each time, as it does not even coincide with itself. -/
theorem distinct_unboundedEdge : ¬ unboundedEdge.Degenerate ∧
    distinct [unboundedEdge, unboundedEdge] = [unboundedEdge, unboundedEdge] ∧
      ∀ u ∈ distinct [unboundedEdge, unboundedEdge], ¬ u.Coincide unboundedEdge := by
  have hlong : ¬ unboundedEdge.Degenerate := by decide +kernel
  have hself : ¬ unboundedEdge.Coincide unboundedEdge := by decide +kernel
  have hdistinct := distinct_pair hlong hlong hself
  refine ⟨hlong, hdistinct, ?_⟩
  rw [hdistinct]
  simp only [List.forall_mem_cons]
  exact ⟨hself, hself, nofun⟩

/-- Three edges side by side, each near to the next one, and the last one of them turned round. -/
def sideBySide : List (Edge Float) :=
  [⟨⟨0, 0, 0⟩, ⟨1, 0, 0⟩⟩, ⟨⟨0, 6e-8, 0⟩, ⟨1, 6e-8, 0⟩⟩, ⟨⟨1, 1.2e-7, 0⟩, ⟨0, 1.2e-7, 0⟩⟩]

/-- The edge in the middle is dropped for the sake of the first one, so the last one stays although
it coincides with the one in the middle. -/
theorem distinct_represents_sideBySide : ∃ m ∈ sideBySide, ¬ m.Degenerate ∧ m.Finite ∧
    (distinct sideBySide).length = 2 ∧ (∃ u ∈ distinct sideBySide, u.Coincide m) ∧
      distinct (distinct sideBySide) = distinct sideBySide := by
  have hfinite : Edge.Finite (⟨⟨0, 6e-8, 0⟩, ⟨1, 6e-8, 0⟩⟩ : Edge Float) :=
    ⟨Vec.finite_iff_isFinite.2 (by decide +kernel), Vec.finite_iff_isFinite.2 (by decide +kernel)⟩
  have hlong : ¬ Edge.Degenerate (⟨⟨0, 6e-8, 0⟩, ⟨1, 6e-8, 0⟩⟩ : Edge Float) := by decide +kernel
  have hmem : (⟨⟨0, 6e-8, 0⟩, ⟨1, 6e-8, 0⟩⟩ : Edge Float) ∈ sideBySide :=
    List.mem_cons_of_mem _ List.mem_cons_self
  obtain ⟨-, -, -, hcomplete, hagain, -⟩ := distinct_represents sideBySide
  exact ⟨_, hmem, hlong, hfinite, by decide +kernel, (hcomplete _ hmem hlong).2 hfinite, hagain⟩

end Edge

end WingBox
