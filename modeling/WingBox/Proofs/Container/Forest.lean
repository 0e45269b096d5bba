import Mathlib.Data.Fintype.Card
import Mathlib.Data.List.Nodup
import Mathlib.Logic.Function.Iterate
import Mathlib.Logic.Relation
import WingBox.Container.Forest

/-!
# Groups of a forest

Two items of a forest are in one group if they have the same root.

* `Forest.root_compress`: letting items point to their root leaves the roots alone;
* `Forest.root_union`: a union gives all items of the second group the root of the first one, so
  after any unions the groups are the classes that the united pairs generate
  (`Forest.root_foldl_union_iff`);
* `Forest.filed_trees`: the trees of a forest are its groups, in order;
* `Forest.length_path_lt`: the way to a root has fewer steps than there are items.
-/

namespace WingBox

namespace Forest

open Relation

variable {n : ℕ} {f : Forest n} {i j r : Fin n}

/-! ### Edits -/

theorem root_compress (f : Forest n) (i j : Fin n) : (f.compress i).root j = f.root j := by
  induction j using f.induction_root with
  | root j hj => rw [(hj.compress i).root_eq, hj.root_eq]
  | parent j hj ih =>
    rw [← root_parent]
    by_cases hpath : j ∈ f.path i
    · have hparent : (f.compress i).parent j = f.root i := parent_redirect_of_mem hpath
      rw [hparent, ((f.isRoot_root i).compress i).root_eq, (of_mem_path hpath).2]
    · have hparent : (f.compress i).parent j = f.parent j := parent_redirect_of_not_mem hpath
      rw [hparent, ih, root_parent]

/-- A root that is redirected takes its group along. -/
theorem root_redirect_singleton {hr : f.IsRoot r} {hmem : r ∉ [j]} (hj : f.IsRoot j)
    (i : Fin n) : (f.redirect [j] r hr hmem).root i = if f.root i = j then r else f.root i := by
  induction i using f.induction_root with
  | root i hi =>
    rw [hi.root_eq]
    by_cases hij : i = j
    · rw [if_pos hij, ← root_parent, parent_redirect_of_mem (List.mem_singleton.2 hij),
        (IsRoot.redirect hr hmem).root_eq]
    · rw [if_neg hij, (IsRoot.redirect hi (mt List.mem_singleton.1 hij)).root_eq]
  | parent i hi ih =>
    have hij : i ∉ [j] := fun h => hi (List.mem_singleton.1 h ▸ hj)
    rw [← root_parent, parent_redirect_of_not_mem hij, ih, root_parent]

theorem root_union (f : Forest n) (i j x : Fin n) :
    (f.union i j).root x = if f.root x = f.root j then f.root i else f.root x := by
  have hroot (x : Fin n) : ((f.compress i).compress j).root x = f.root x := by
    rw [root_compress, root_compress]
  have hj : (f.compress i).root j = f.root j := root_compress f i j
  by_cases h : f.root i = f.root j
  · have hunion : f.union i j = (f.compress i).compress j := dif_pos (h.trans hj.symm)
    rw [hunion, hroot, h]
    split
    next hx => exact hx
    next => rfl
  · have hne : ¬ f.root i = (f.compress i).root j := fun heq => h (heq.trans hj)
    have hunion : f.union i j = ((f.compress i).compress j).redirect [(f.compress i).root j]
        (f.root i) (((f.isRoot_root i).compress i).compress j)
        (fun hmem => hne (List.mem_singleton.1 hmem)) := dif_neg hne
    rw [hunion, root_redirect_singleton (((f.compress i).isRoot_root j).compress j), hroot, hj]

theorem root_singles (i : Fin n) : (singles n).root i = i := IsRoot.root_eq (get_ofFn_id i)

/-! ### Classes -/

/-- Related pairs of a relation that another one generates are generated by it too. -/
theorem eqvGen_of_forall {α : Type} {R S : α → α → Prop} (h : ∀ x y, R x y → EqvGen S x y)
    {x y : α} (hxy : EqvGen R x y) : EqvGen S x y := by
  induction hxy with
  | rel x y hxy => exact h x y hxy
  | refl x => exact .refl x
  | symm x y _ ih => exact .symm _ _ ih
  | trans x y z _ _ ihxy ihyz => exact .trans _ _ _ ihxy ihyz

/-- After unions items have the same root if a chain of united pairs and of items with the same
root before leads from one to the other. -/
theorem root_foldl_union_iff (f : Forest n) (ps : List (Fin n × Fin n)) (x y : Fin n) :
    (ps.foldl (fun f p => f.union p.1 p.2) f).root x =
        (ps.foldl (fun f p => f.union p.1 p.2) f).root y ↔
      EqvGen (fun i j => f.root i = f.root j ∨ (i, j) ∈ ps) x y := by
  induction ps generalizing f with
  | nil =>
    have hequivalence : Equivalence fun i j => f.root i = f.root j ∨ (i, j) ∈ [] := by
      simpa using ⟨fun _ => rfl, fun h => h.symm, fun h h' => h.trans h'⟩
    rw [hequivalence.eqvGen_iff]
    simp
  | cons p ps ih =>
    obtain ⟨a, b⟩ := p
    rw [List.foldl_cons, ih]
    have hroot {i j : Fin n} (h : f.root i = f.root j) :
        EqvGen (fun i j => f.root i = f.root j ∨ (i, j) ∈ (a, b) :: ps) i j := .rel _ _ (.inl h)
    have hpair : EqvGen (fun i j => f.root i = f.root j ∨ (i, j) ∈ (a, b) :: ps) a b :=
      .rel _ _ (.inr List.mem_cons_self)
    constructor
    · refine eqvGen_of_forall fun i j hij => ?_
      rcases hij with hij | hij
      · rw [root_union, root_union] at hij
        split at hij <;> split at hij
        next hi hj => exact hroot (hi.trans hj.symm)
        next hi hj => exact .trans _ _ _ (.trans _ _ _ (hroot hi) (.symm _ _ hpair)) (hroot hij)
        next hi hj =>
          exact .trans _ _ _ (.trans _ _ _ (hroot hij) hpair) (hroot hj.symm)
        next hi hj => exact hroot hij
      · exact .rel _ _ (.inr (List.mem_cons_of_mem _ hij))
    · refine eqvGen_of_forall fun i j hij => ?_
      rcases hij with hij | hij
      · exact .rel _ _ (.inl (by rw [root_union, root_union, hij]))
      · rcases List.mem_cons.1 hij with hij | hij
        · obtain ⟨rfl, rfl⟩ := Prod.mk.inj hij
          refine .rel _ _ (.inl ?_)
          simp [root_union]
        · exact .rel _ _ (.inr hij)

/-- Items of which some pairs are united are in one group if these pairs connect them. -/
theorem root_foldl_union_singles_iff (ps : List (Fin n × Fin n)) (x y : Fin n) :
    (ps.foldl (fun f p => f.union p.1 p.2) (singles n)).root x =
        (ps.foldl (fun f p => f.union p.1 p.2) (singles n)).root y ↔
      EqvGen (fun i j => (i, j) ∈ ps) x y := by
  rw [root_foldl_union_iff]
  constructor
  · refine eqvGen_of_forall fun i j hij => ?_
    rcases hij with hij | hij
    · rw [root_singles, root_singles] at hij
      exact hij ▸ .refl i
    · exact .rel _ _ hij
  · exact eqvGen_of_forall fun i j hij => .rel _ _ (.inr hij)

/-! ### Trees -/

/-- Trees that hold the items of a list by their roots, in the order of their first items. -/
structure Filed (key : Fin n → Fin n) (items : List (Fin n)) (ts : List (Tree n)) : Prop where
  /-- A tree holds the items with its root, in order. -/
  items_eq : ∀ t ∈ ts, t.items = items.filter (key · = t.root)
  /-- No tree is empty. -/
  nonempty : ∀ t ∈ ts, t.items ≠ []
  /-- Every item has a tree. -/
  exists_tree : ∀ i ∈ items, ∃ t ∈ ts, t.root = key i
  /-- An item of a tree comes before all items of later trees. -/
  ordered : ts.Pairwise fun t u => ∃ i ∈ t.items, ∀ j ∈ u.items, i < j

namespace Filed

variable {key : Fin n → Fin n} {items : List (Fin n)} {ts : List (Tree n)} {q : Fin n}

theorem mem_items_iff (h : Filed key items ts) {t : Tree n} (ht : t ∈ ts) :
    i ∈ t.items ↔ i ∈ items ∧ key i = t.root := by
  rw [h.items_eq t ht, List.mem_filter, decide_eq_true_iff]

/-- Trees have different roots. -/
theorem roots_ne (h : Filed key items ts) : ts.Pairwise fun t u => t.root ≠ u.root := by
  refine h.ordered.imp_of_mem fun {t u} ht hu ⟨i, hi, hlt⟩ heq => ?_
  have hmem : i ∈ u.items := by
    rw [h.items_eq u hu, ← heq, ← h.items_eq t ht]
    exact hi
  exact absurd (hlt i hmem) (lt_irrefl i)

/-- Every item is in one tree. -/
theorem perm (h : Filed key items ts) (hitems : items.Nodup) :
    (ts.flatMap Tree.items).Perm items := by
  have hdisjoint : ts.Pairwise (Function.onFun List.Disjoint Tree.items) := by
    refine h.roots_ne.imp_of_mem fun {t u} ht hu hne i hit hiu => hne ?_
    exact ((h.mem_items_iff ht).1 hit).2.symm.trans ((h.mem_items_iff hu).1 hiu).2
  have hnodup : ∀ t ∈ ts, t.items.Nodup := fun t ht => h.items_eq t ht ▸ hitems.filter _
  have hall : (ts.flatMap Tree.items).Nodup := List.nodup_flatMap.2 ⟨hnodup, hdisjoint⟩
  refine (List.perm_ext_iff_of_nodup hall hitems).2 fun i => ?_
  rw [List.mem_flatMap]
  constructor
  · rintro ⟨t, ht, hi⟩
    exact ((h.mem_items_iff ht).1 hi).1
  · intro hi
    obtain ⟨t, ht, hroot⟩ := h.exists_tree i hi
    exact ⟨t, ht, (h.mem_items_iff ht).2 ⟨hi, hroot.symm⟩⟩

end Filed

theorem add_of_forall_ne {ts : List (Tree n)} (h : ∀ t ∈ ts, t.root ≠ r) :
    Tree.add r i ts = ts ++ [⟨r, [i]⟩] := by
  induction ts with
  | nil => rfl
  | cons t ts ih =>
    rw [List.forall_mem_cons] at h
    rw [Tree.add, if_neg h.1, ih h.2, List.cons_append]

theorem add_of_mem {ts : List (Tree n)} (hne : ts.Pairwise fun t u => t.root ≠ u.root)
    (h : ∃ t ∈ ts, t.root = r) :
    Tree.add r i ts = ts.map fun t => if t.root = r then ⟨t.root, t.items ++ [i]⟩ else t := by
  induction ts with
  | nil => simp at h
  | cons t ts ih =>
    rw [List.pairwise_cons] at hne
    by_cases ht : t.root = r
    · have hrest : ∀ u ∈ ts, (if u.root = r then ⟨u.root, u.items ++ [i]⟩ else u) = u :=
        fun u hu => if_neg fun heq => hne.1 u hu (ht.trans heq.symm)
      rw [Tree.add, if_pos ht, List.map_cons, if_pos ht, List.map_congr_left hrest, List.map_id']
    · have hmem : ∃ u ∈ ts, u.root = r := by
        obtain ⟨u, hu, hroot⟩ := h
        rcases List.mem_cons.1 hu with rfl | hu
        · exact absurd hroot ht
        · exact ⟨u, hu, hroot⟩
      rw [Tree.add, if_neg ht, List.map_cons, if_neg ht, ih hne.2 hmem]

section Add

variable {key : Fin n → Fin n} {items : List (Fin n)} {ts : List (Tree n)} {q : Fin n}

/-- An item with a new root becomes a tree of its own, which comes last. -/
theorem Filed.append (h : Filed key items ts) (hq : ∀ i ∈ items, i < q)
    (hne : ∀ t ∈ ts, t.root ≠ key q) : Filed key (items ++ [q]) (ts ++ [⟨key q, [q]⟩]) where
  items_eq t ht := by
    rw [List.filter_append, List.filter_singleton]
    rcases List.mem_append.1 ht with ht | ht
    · rw [h.items_eq t ht]
      simp [(hne t ht).symm]
    · rw [List.mem_singleton.1 ht]
      have hnone : items.filter (key · = key q) = [] := by
        refine List.filter_eq_nil_iff.2 fun i hi => ?_
        obtain ⟨u, hu, hroot⟩ := h.exists_tree i hi
        simpa [← hroot] using hne u hu
      simp [hnone]
  nonempty t ht := by
    rcases List.mem_append.1 ht with ht | ht
    · exact h.nonempty t ht
    · simp [List.mem_singleton.1 ht]
  exists_tree i hi := by
    rcases List.mem_append.1 hi with hi | hi
    · obtain ⟨t, ht, hroot⟩ := h.exists_tree i hi
      exact ⟨t, List.mem_append_left _ ht, hroot⟩
    · exact ⟨⟨key q, [q]⟩, by simp, by rw [List.mem_singleton.1 hi]⟩
  ordered := by
    refine List.pairwise_append.2 ⟨h.ordered, List.pairwise_singleton _ _, fun t ht u hu => ?_⟩
    obtain ⟨i, hi⟩ := List.exists_mem_of_ne_nil _ (h.nonempty t ht)
    refine ⟨i, hi, fun j hj => ?_⟩
    rw [List.mem_singleton.1 hu, List.mem_singleton] at hj
    exact hj ▸ hq i ((h.mem_items_iff ht).1 hi).1

/-- An item whose root has a tree is added to that tree. -/
theorem Filed.map (h : Filed key items ts) (hq : ∀ i ∈ items, i < q)
    (hmem : ∃ t ∈ ts, t.root = key q) :
    Filed key (items ++ [q])
      (ts.map fun t => if t.root = key q then ⟨t.root, t.items ++ [q]⟩ else t) where
  items_eq := by
    simp only [List.forall_mem_map]
    intro t ht
    rw [List.filter_append, List.filter_singleton]
    by_cases hroot : t.root = key q
    · simp [h.items_eq t ht, hroot]
    · simp [if_neg hroot, h.items_eq t ht, Ne.symm hroot]
  nonempty := by
    simp only [List.forall_mem_map]
    intro t ht
    split
    · simp
    · exact h.nonempty t ht
  exists_tree i hi := by
    have htree : ∃ t ∈ ts, t.root = key i := by
      rcases List.mem_append.1 hi with hi | hi
      · exact h.exists_tree i hi
      · rwa [List.mem_singleton.1 hi]
    obtain ⟨t, ht, hroot⟩ := htree
    refine ⟨_, List.mem_map_of_mem ht, ?_⟩
    split <;> exact hroot
  ordered := by
    refine List.pairwise_map.2 (h.ordered.imp_of_mem fun {t u} ht hu ⟨i, hi, hlt⟩ => ⟨i, ?_, ?_⟩)
    · split
      · exact List.mem_append_left _ hi
      · exact hi
    · intro j hj
      split at hj
      · rcases List.mem_append.1 hj with hj | hj
        · exact hlt j hj
        · exact List.mem_singleton.1 hj ▸ hq i ((h.mem_items_iff ht).1 hi).1
      · exact hlt j hj

/-- An item that comes after all others keeps the trees what they are. -/
theorem Filed.add (h : Filed key items ts) (hq : ∀ i ∈ items, i < q) :
    Filed key (items ++ [q]) (Tree.add (key q) q ts) := by
  by_cases hmem : ∃ t ∈ ts, t.root = key q
  · rw [add_of_mem h.roots_ne hmem]
    exact h.map hq hmem
  · have hne : ∀ t ∈ ts, t.root ≠ key q := fun t ht heq => hmem ⟨t, ht, heq⟩
    rw [add_of_forall_ne hne]
    exact h.append hq hne

end Add

/-- The trees of a forest hold all items by their roots. -/
theorem filed_trees (f : Forest n) : Filed f.root (List.finRange n) f.trees := by
  suffices hfold : ∀ items : List (Fin n), items.Pairwise (· < ·) →
      (∀ i, (items.foldl (fun s i => ((s.1.find i).2, Tree.add (s.1.find i).1 i s.2))
        (f, [])).1.root i = f.root i) ∧
      Filed f.root items (items.foldl
        (fun s i => ((s.1.find i).2, Tree.add (s.1.find i).1 i s.2)) (f, [])).2 from
    (hfold _ (List.pairwise_lt_finRange n)).2
  intro items hitems
  induction items using List.reverseRecOn with
  | nil => exact ⟨fun _ => rfl, by constructor <;> simp⟩
  | append_singleton items q ih =>
    obtain ⟨hbefore, -, hlast⟩ := List.pairwise_append.1 hitems
    obtain ⟨hroot, hfiled⟩ := ih hbefore
    rw [List.foldl_append, List.foldl_cons, List.foldl_nil]
    refine ⟨fun i => (root_compress _ _ _).trans (hroot i), ?_⟩
    have hadd := hfiled.add fun i hi => hlast i hi q (List.mem_singleton_self q)
    rwa [← hroot q] at hadd

/-! ### The way to a root -/

theorem length_path_parent (h : ¬ f.IsRoot i) :
    (f.path i).length = (f.path (f.parent i)).length + 1 := by
  rw [path, if_neg h, List.length_cons]

theorem length_path_le_of_mem (h : j ∈ f.path i) : (f.path j).length ≤ (f.path i).length := by
  induction i using f.induction_root with
  | root i hi =>
    rw [path, if_pos hi] at h
    cases h
  | parent i hi ih =>
    have hlength := length_path_parent hi
    rw [path, if_neg hi, List.mem_cons] at h
    rcases h with rfl | h
    · exact le_rfl
    · have := ih h
      omega

theorem nodup_path (f : Forest n) (i : Fin n) : (f.path i).Nodup := by
  induction i using f.induction_root with
  | root i hi =>
    rw [path, if_pos hi]
    exact .nil
  | parent i hi ih =>
    rw [path, if_neg hi]
    refine List.nodup_cons.2 ⟨fun hmem => ?_, ih⟩
    have hle := length_path_le_of_mem hmem
    have := length_path_parent hi
    omega

/-- The way to a root has fewer steps than there are items. -/
theorem length_path_lt (f : Forest n) (i : Fin n) : (f.path i).length < n := by
  have hnodup : (f.root i :: f.path i).Nodup :=
    List.nodup_cons.2 ⟨f.root_not_mem_path i, f.nodup_path i⟩
  have hcard := hnodup.length_le_card
  rwa [List.length_cons, Fintype.card_fin] at hcard

/-- Following the parents leads to the root, and to no root before. -/
theorem iterate_parent (f : Forest n) (i : Fin n) :
    f.parent^[(f.path i).length] i = f.root i ∧
      ∀ k < (f.path i).length, ¬ f.IsRoot (f.parent^[k] i) := by
  induction i using f.induction_root with
  | root i hi =>
    rw [path, if_pos hi, hi.root_eq]
    simp
  | parent i hi ih =>
    rw [length_path_parent hi, Function.iterate_succ_apply, ih.1, root_parent]
    refine ⟨rfl, fun k hk => ?_⟩
    cases k with
    | zero => exact hi
    | succ k => exact ih.2 k (by omega)

end Forest

end WingBox
