/-!
# Forests

A `Forest` puts items into groups: every item points to a parent, and the items from which the
parents lead to one root are a group.

* `Forest.find` goes from an item to its root, and lets all items on the way point to the root;
* `Forest.union` makes one group of the groups of two items;
* `Forest.trees` are the groups, in the order of their first items.

Parents never lead in a circle.  That is part of the type, so an edit has to keep it; both edits
redirect items to a root.
-/

namespace WingBox

/-- Trees over `n` items. -/
structure Forest (n : Nat) where
  /-- The parent of every item; a root is its own parent. -/
  parents : Vector (Fin n) n
  /-- Parents do not lead on for ever. -/
  wellFounded : WellFounded fun p i : Fin n => parents.get i = p ∧ p ≠ i

namespace Forest

variable {n : Nat}

theorem get_ofFn_id (i : Fin n) : (Vector.ofFn id).get i = i := by
  have hget (ps : Vector (Fin n) n) : ps.get i = ps[i] := rfl
  rw [hget]
  simp

/-- The forest of single items. -/
def singles (n : Nat) : Forest n where
  parents := .ofFn id
  wellFounded :=
    ⟨fun i => ⟨i, fun _ ⟨hp, hne⟩ => absurd (hp.symm.trans (get_ofFn_id i)) hne⟩⟩

/-! ### Roots -/

/-- The parent of an item. -/
def parent (f : Forest n) (i : Fin n) : Fin n := f.parents.get i

/-- The item is its own parent. -/
def IsRoot (f : Forest n) (i : Fin n) : Prop := f.parent i = i

instance (f : Forest n) (i : Fin n) : Decidable (f.IsRoot i) := inferInstanceAs (Decidable (_ = _))

/-- The root to which the parents lead from an item. -/
def root (f : Forest n) (i : Fin n) : Fin n :=
  if f.IsRoot i then i else f.root (f.parent i)
termination_by f.wellFounded.wrap i
decreasing_by exact ⟨rfl, ‹_›⟩

/-- The items from `i` up to its root, which is left out. -/
def path (f : Forest n) (i : Fin n) : List (Fin n) :=
  if f.IsRoot i then [] else i :: f.path (f.parent i)
termination_by f.wellFounded.wrap i
decreasing_by exact ⟨rfl, ‹_›⟩

/-- What holds of roots, and of an item if it holds of the parent, holds of all items. -/
theorem induction_root (f : Forest n) {P : Fin n → Prop} (root : ∀ i, f.IsRoot i → P i)
    (parent : ∀ i, ¬ f.IsRoot i → P (f.parent i) → P i) (i : Fin n) : P i := by
  induction i using f.wellFounded.induction with
  | _ i ih =>
    by_cases hi : f.IsRoot i
    · exact root i hi
    · exact parent i hi (ih _ ⟨rfl, hi⟩)

theorem IsRoot.root_eq {f : Forest n} {i : Fin n} (h : f.IsRoot i) : f.root i = i := by
  rw [root, if_pos h]

theorem root_parent (f : Forest n) (i : Fin n) : f.root (f.parent i) = f.root i := by
  by_cases hi : f.IsRoot i
  · rw [hi]
  · rw [root.eq_1 f i, if_neg hi]

theorem isRoot_root (f : Forest n) (i : Fin n) : f.IsRoot (f.root i) := by
  induction i using f.induction_root with
  | root i hi => rwa [hi.root_eq]
  | parent i hi ih => rwa [← root_parent]

/-- The items on the way to a root lead there and are no roots. -/
theorem of_mem_path {f : Forest n} {i j : Fin n} (h : j ∈ f.path i) :
    ¬ f.IsRoot j ∧ f.root j = f.root i := by
  induction i using f.induction_root with
  | root i hi =>
    rw [path, if_pos hi] at h
    cases h
  | parent i hi ih =>
    rw [path, if_neg hi, List.mem_cons] at h
    rcases h with rfl | h
    · exact ⟨hi, rfl⟩
    · rw [← f.root_parent i]
      exact ih h

theorem root_not_mem_path (f : Forest n) (i : Fin n) : f.root i ∉ f.path i :=
  fun h => (of_mem_path h).1 (f.isRoot_root i)

/-! ### Redirecting items -/

theorem get_foldl_set_of_not_mem {parents : Vector (Fin n) n} {items : List (Fin n)} {r i : Fin n}
    (h : i ∉ items) :
    (items.foldl (fun ps j => ps.set j.val r j.isLt) parents).get i = parents.get i := by
  have hget (ps : Vector (Fin n) n) : ps.get i = ps[i] := rfl
  induction items generalizing parents with
  | nil => rfl
  | cons j js ih =>
    rw [List.mem_cons, not_or] at h
    have hne : j.val ≠ i.val := fun heq => h.1 (Fin.ext heq.symm)
    rw [List.foldl_cons, ih h.2, hget, hget]
    simp [hne]

theorem get_foldl_set_of_mem {parents : Vector (Fin n) n} {items : List (Fin n)} {r i : Fin n}
    (h : i ∈ items) :
    (items.foldl (fun ps j => ps.set j.val r j.isLt) parents).get i = r := by
  have hget (ps : Vector (Fin n) n) : ps.get i = ps[i] := rfl
  induction items generalizing parents with
  | nil => cases h
  | cons j js ih =>
    rw [List.foldl_cons]
    by_cases hi : i ∈ js
    · exact ih hi
    · rw [get_foldl_set_of_not_mem hi, hget, (List.mem_cons.1 h).resolve_right hi]
      simp

/-- The forest in which some items point to a root that is not one of them. -/
def redirect (f : Forest n) (items : List (Fin n)) (r : Fin n) (hr : f.IsRoot r)
    (hmem : r ∉ items) : Forest n where
  parents := items.foldl (fun ps j => ps.set j.val r j.isLt) f.parents
  wellFounded := by
    have hroot : Acc (fun p i => (items.foldl (fun ps j => ps.set j.val r j.isLt) f.parents).get i
        = p ∧ p ≠ i) r := by
      refine ⟨r, fun p ⟨hp, hne⟩ => absurd ?_ hne⟩
      rw [get_foldl_set_of_not_mem hmem] at hp
      exact hp.symm.trans hr
    refine ⟨fun i => f.induction_root (fun i hi => ⟨i, fun p ⟨hp, hne⟩ => ?_⟩)
      (fun i hi ih => ⟨i, fun p ⟨hp, hne⟩ => ?_⟩) i⟩
    · by_cases hitem : i ∈ items
      · exact (get_foldl_set_of_mem hitem).symm.trans hp ▸ hroot
      · exact absurd (hp.symm.trans ((get_foldl_set_of_not_mem hitem).trans hi)) hne
    · by_cases hitem : i ∈ items
      · exact (get_foldl_set_of_mem hitem).symm.trans hp ▸ hroot
      · exact (get_foldl_set_of_not_mem hitem).symm.trans hp ▸ ih

section Redirect

variable {f : Forest n} {items : List (Fin n)} {r : Fin n} {hr : f.IsRoot r} {hmem : r ∉ items}

theorem parent_redirect_of_mem {i : Fin n} (hi : i ∈ items) :
    (f.redirect items r hr hmem).parent i = r :=
  get_foldl_set_of_mem hi

theorem parent_redirect_of_not_mem {i : Fin n} (hi : i ∉ items) :
    (f.redirect items r hr hmem).parent i = f.parent i :=
  get_foldl_set_of_not_mem hi

theorem IsRoot.redirect {i : Fin n} (h : f.IsRoot i) (hi : i ∉ items) :
    (f.redirect items r hr hmem).IsRoot i :=
  (parent_redirect_of_not_mem hi).trans h

end Redirect

/-- The forest in which all items from `i` to its root point to the root. -/
def compress (f : Forest n) (i : Fin n) : Forest n :=
  f.redirect (f.path i) (f.root i) (f.isRoot_root i) (f.root_not_mem_path i)

theorem IsRoot.compress {f : Forest n} {i : Fin n} (h : f.IsRoot i) (j : Fin n) :
    (f.compress j).IsRoot i :=
  IsRoot.redirect h fun hmem => (of_mem_path hmem).1 h

/-- The root of an item, and the forest in which all items on the way point to it. -/
def find (f : Forest n) (i : Fin n) : Fin n × Forest n := (f.root i, f.compress i)

/-! ### Groups -/

/-- The forest in which the groups of two items are one: the root of the second one points to that
of the first one. -/
def union (f : Forest n) (i j : Fin n) : Forest n :=
  let first := f.find i
  let second := first.2.find j
  if hne : first.1 = second.1 then second.2
  else
    second.2.redirect [second.1] first.1 (((f.isRoot_root i).compress i).compress j) fun hmem =>
      hne (List.mem_singleton.1 hmem)

/-- A group of items. -/
structure Tree (n : Nat) where
  /-- The root to which the parents lead from all items. -/
  root : Fin n
  /-- The items in order. -/
  items : List (Fin n)

/-- The trees with one more item, which has the root `r`. -/
def Tree.add (r i : Fin n) : List (Tree n) → List (Tree n)
  | [] => [⟨r, [i]⟩]
  | t :: ts =>
    if t.root = r then { t with items := t.items ++ [i] } :: ts else t :: Tree.add r i ts

/-- The groups of a forest in the order of their first items. -/
def trees (f : Forest n) : List (Tree n) :=
  ((List.finRange n).foldl
    (fun (f, ts) i =>
      let (r, g) := f.find i
      (g, Tree.add r i ts))
    (f, [])).2

end Forest

end WingBox
