import Mathlib.Data.List.Nodup
import Mathlib.Tactic.SplitIfs
import WingBox.Container.Registry

/-!
# Registries as lists

A registry is `Indexed` when its index leads from every name to the place of the item that has
it, and from nothing else.  Names are then pairwise distinct, and every operation is one on the
list of items alone:

* looking up finds the first item with the name (`Registry.Indexed.get?_eq_find?`);
* adding appends, removing filters, renaming and editing map over the items;
* the registry that results is indexed again.
-/

namespace WingBox

/-- An item under another name has that name. -/
class LawfulNamed (α : Type) [Named α] : Prop where
  /-- The name given last is the name. -/
  uid_withUid (uid : String) (x : α) : Named.uid (Named.withUid uid x) = uid

/-! ### Lists of items with distinct names -/

section Keys

variable {α : Type} {key : α → String}

theorem find?_eq_some_of_nodup {xs : List α} (hn : (xs.map key).Nodup) {x : α} (hx : x ∈ xs) :
    xs.find? (fun y => key y == key x) = some x := by
  induction xs with
  | nil => cases hx
  | cons y ys ih =>
    simp only [List.map_cons, List.nodup_cons] at hn
    rcases List.mem_cons.1 hx with rfl | hmem
    · simp
    · have hne : key y ≠ key x := fun h => hn.1 (h ▸ List.mem_map_of_mem hmem)
      rw [List.find?_cons_of_neg (by simpa using hne)]
      exact ih hn.2 hmem

theorem filter_ne_of_not_mem {xs : List α} {k : String} (hk : k ∉ xs.map key) :
    xs.filter (fun x => key x != k) = xs := by
  rw [List.filter_eq_self]
  intro x hx
  exact bne_iff_ne.2 fun h => hk (h ▸ List.mem_map_of_mem hx)

theorem eraseIdx_eq_filter {xs : List α} (hn : (xs.map key).Nodup) {i : Nat} {k : String}
    (hi : (xs.map key)[i]? = some k) : xs.eraseIdx i = xs.filter fun x => key x != k := by
  induction xs generalizing i with
  | nil => simp at hi
  | cons x xs ih =>
    simp only [List.map_cons, List.nodup_cons] at hn
    cases i with
    | zero =>
      simp only [List.map_cons, List.getElem?_cons_zero, Option.some.injEq] at hi
      subst hi
      simp [filter_ne_of_not_mem hn.1]
    | succ i =>
      simp only [List.map_cons, List.getElem?_cons_succ] at hi
      have hne : key x ≠ k := fun h => hn.1 (h ▸ List.mem_of_getElem? hi)
      rw [List.eraseIdx_cons_succ, ih hn.2 hi, List.filter_cons_of_pos (by simpa using hne)]

theorem map_ite_of_not_mem {xs : List α} {k : String} (hk : k ∉ xs.map key) (f : α → α) :
    xs.map (fun x => if key x = k then f x else x) = xs := by
  conv_rhs => rw [← List.map_id xs]
  refine List.map_congr_left fun x hx => ?_
  have hne : key x ≠ k := fun h => hk (h ▸ List.mem_map_of_mem hx)
  rw [if_neg hne, id]

theorem modify_eq_map {xs : List α} (hn : (xs.map key).Nodup) {i : Nat} {k : String}
    (hi : (xs.map key)[i]? = some k) (f : α → α) :
    xs.modify i f = xs.map fun x => if key x = k then f x else x := by
  induction xs generalizing i with
  | nil => simp at hi
  | cons x xs ih =>
    simp only [List.map_cons, List.nodup_cons] at hn
    cases i with
    | zero =>
      simp only [List.map_cons, List.getElem?_cons_zero, Option.some.injEq] at hi
      subst hi
      simp [map_ite_of_not_mem hn.1]
    | succ i =>
      simp only [List.map_cons, List.getElem?_cons_succ] at hi
      have hne : key x ≠ k := fun h => hn.1 (h ▸ List.mem_of_getElem? hi)
      rw [List.modify_succ_cons, ih hn.2 hi, List.map_cons, if_neg hne]

end Keys

namespace Registry

variable {α : Type} [Named α]

/-- The names of the items in order. -/
def uids (r : Registry α) : List String := r.items.map Named.uid

/-- The index leads from every name to the place of the item that has it. -/
def Indexed (r : Registry α) : Prop :=
  ∀ (uid : String) (i : Nat), r.index[uid]? = some i ↔ r.uids[i]? = some uid

namespace Indexed

variable {r : Registry α}

theorem nodup_uids (h : r.Indexed) : r.uids.Nodup := by
  rw [List.nodup_iff_getElem?_ne_getElem?]
  intro i j hij hj heq
  have hi : r.uids[i]? = some r.uids[i] := List.getElem?_eq_getElem (Nat.lt_trans hij hj)
  have h1 := (h _ _).2 hi
  have h2 := (h _ _).2 (heq.symm.trans hi)
  rw [h1] at h2
  exact absurd (Option.some.inj h2) (Nat.ne_of_lt hij)

theorem index_eq_none_iff (h : r.Indexed) {uid : String} : r.index[uid]? = none ↔ uid ∉ r.uids := by
  constructor
  · intro hnone hmem
    obtain ⟨i, hi⟩ := List.mem_iff_getElem?.1 hmem
    rw [(h _ _).2 hi] at hnone
    cases hnone
  · intro hmem
    cases hi : r.index[uid]? with
    | none => rfl
    | some i => exact absurd (List.mem_of_getElem? ((h _ _).1 hi)) hmem

/-- The place of an item in the list. -/
theorem exists_place (h : r.Indexed) {uid : String} (hu : uid ∈ r.uids) :
    ∃ place, r.index[uid]? = some place := by
  obtain ⟨place, hp⟩ := List.mem_iff_getElem?.1 hu
  exact ⟨place, (h _ _).2 hp⟩

theorem contains_iff (h : r.Indexed) {uid : String} : r.contains uid = true ↔ uid ∈ r.uids := by
  rw [contains, Std.HashMap.contains_eq_isSome_getElem?, Option.isSome_iff_ne_none, ne_eq,
    h.index_eq_none_iff, not_not]

/-- Looking up is a search of the list. -/
theorem get?_eq_find? (h : r.Indexed) (uid : String) :
    r.get? uid = r.items.find? fun x => Named.uid x == uid := by
  cases hi : r.index[uid]? with
  | none =>
    have hmem := h.index_eq_none_iff.1 hi
    rw [get?, hi, Option.bind_none, eq_comm, List.find?_eq_none]
    intro x hx he
    exact hmem (List.mem_map.2 ⟨x, hx, by simpa using he⟩)
  | some i =>
    have hu := (h _ _).1 hi
    rw [uids, List.getElem?_map, Option.map_eq_some_iff] at hu
    obtain ⟨x, hx, rfl⟩ := hu
    rw [get?, hi, Option.bind_some, hx]
    exact (find?_eq_some_of_nodup h.nodup_uids (List.mem_of_getElem? hx)).symm

theorem get?_eq_some_iff (h : r.Indexed) {uid : String} {x : α} :
    r.get? uid = some x ↔ x ∈ r.items ∧ Named.uid x = uid := by
  rw [h.get?_eq_find?]
  constructor
  · intro hx
    exact ⟨List.mem_of_find?_eq_some hx, by simpa using List.find?_some hx⟩
  · rintro ⟨hx, rfl⟩
    exact find?_eq_some_of_nodup h.nodup_uids hx

theorem get?_eq_none_iff (h : r.Indexed) {uid : String} : r.get? uid = none ↔ uid ∉ r.uids := by
  rw [h.get?_eq_find?, List.find?_eq_none, uids, List.mem_map, not_exists]
  simp only [beq_iff_eq, not_and]

/-! ### Adding -/

theorem add_of_mem (h : r.Indexed) {x : α} (hx : Named.uid x ∈ r.uids) : r.add x = .error x := by
  rw [add, if_pos (h.contains_iff.2 hx)]

/-- An item with a new name comes last. -/
theorem add_of_not_mem (h : r.Indexed) {x : α} (hx : Named.uid x ∉ r.uids) :
    ∃ r', r.add x = .ok (r.size, r') ∧ r'.Indexed ∧ r'.items = r.items ++ [x] := by
  refine ⟨_, by rw [add, if_neg (fun hc => hx (h.contains_iff.1 hc))], ?_, rfl⟩
  intro uid i
  have hlen : r.uids.length = r.size := by simp [uids, size]
  simp only [Std.HashMap.getElem?_insert, uids, List.map_append, List.map_cons, List.map_nil]
  change _ ↔ (r.uids ++ [Named.uid x])[i]? = some uid
  rw [List.getElem?_append, hlen]
  by_cases hu : Named.uid x = uid
  · -- the new name stands in the last place only
    subst hu
    simp only [beq_self_eq_true, ↓reduceIte, Option.some.injEq]
    split_ifs with hi
    · exact ⟨fun he => absurd he (Nat.ne_of_gt hi), fun he => absurd (List.mem_of_getElem? he) hx⟩
    · rw [List.getElem?_singleton]
      constructor
      · rintro rfl; simp
      · intro he
        split_ifs at he with h0
        omega
  · -- the other names stand where they stood
    rw [if_neg (by simpa using hu), h uid i]
    split_ifs with hi
    · rfl
    · have hnone : r.uids[i]? = none := List.getElem?_eq_none (by omega)
      rw [hnone, List.getElem?_singleton]
      split_ifs <;> simp [hu]

/-! ### Removing -/

theorem remove?_of_not_mem (h : r.Indexed) {uid : String} (hu : uid ∉ r.uids) :
    r.remove? uid = none := by
  rw [remove?, h.index_eq_none_iff.2 hu]
  rfl

theorem uids_eraseIdx (r : Registry α) (place : Nat) :
    (r.items.eraseIdx place).map Named.uid = r.uids.eraseIdx place := by
  simp only [uids, List.eraseIdx_eq_take_drop_succ, List.map_append, List.map_take, List.map_drop]

/-- The item is taken out and the others keep their order. -/
theorem remove?_of_get? (h : r.Indexed) {uid : String} {x : α} (hx : r.get? uid = some x) :
    ∃ r', r.remove? uid = some (x, r') ∧ r'.Indexed ∧
      r'.items = r.items.filter fun y => Named.uid y != uid := by
  obtain ⟨hmem, rfl⟩ := h.get?_eq_some_iff.1 hx
  obtain ⟨place, hp⟩ := h.exists_place (List.mem_map_of_mem hmem)
  have hu := (h _ _).1 hp
  have hitem : r.items[place]? = some x := by rwa [get?, hp] at hx
  refine ⟨_, by rw [remove?, hp]; simp [hitem]; rfl, ?_, eraseIdx_eq_filter h.nodup_uids hu⟩
  intro k i
  rw [uids, uids_eraseIdx]
  simp only [List.getElem?_eraseIdx, Std.HashMap.getElem?_map, Std.HashMap.getElem?_erase]
  by_cases hk : Named.uid x = k
  · -- the name of the item stands nowhere, for it stood in one place only
    subst hk
    simp only [beq_self_eq_true, ↓reduceIte, Option.map_none, reduceCtorEq, false_iff]
    intro he
    split_ifs at he with hi
    · have := (h _ _).2 he
      rw [hp] at this
      exact absurd (Option.some.inj this) (Nat.ne_of_gt hi)
    · have := (h _ _).2 he
      rw [hp] at this
      have := Option.some.inj this
      omega
  · -- the names behind it move up by one place
    simp only [beq_eq_false_iff_ne.2 hk, Bool.false_eq_true, ↓reduceIte, Option.map_eq_some_iff]
    constructor
    · rintro ⟨j, hj, rfl⟩
      have hj' := (h _ _).1 hj
      have hne : j ≠ place := by
        rintro rfl
        rw [hu] at hj'
        exact hk (Option.some.inj hj')
      split_ifs with h1 h2 h2
      · omega
      · rwa [show j - 1 + 1 = j by omega]
      · exact hj'
      · omega
    · intro he
      split_ifs at he with hi
      · exact ⟨i, (h _ _).2 he, if_neg (by omega)⟩
      · exact ⟨i + 1, (h _ _).2 he, by rw [if_pos (by omega)]; rfl⟩

/-! ### Editing -/

/-- Editing one item leaves the others alone. -/
theorem items_modify (h : r.Indexed) (uid : String) (f : α → α) :
    (r.modify uid f).items = r.items.map fun x => if Named.uid x = uid then f x else x := by
  cases hi : r.index[uid]? with
  | none =>
    rw [modify, hi]
    exact (map_ite_of_not_mem (h.index_eq_none_iff.1 hi) f).symm
  | some i =>
    rw [modify, hi]
    exact modify_eq_map h.nodup_uids ((h _ _).1 hi) f

theorem of_map {r' : Registry α} {f : α → α} (h : r.Indexed) (hindex : r'.index = r.index)
    (hitems : r'.items = r.items.map f) (hf : ∀ x ∈ r.items, Named.uid (f x) = Named.uid x) :
    r'.Indexed := by
  have huids : r'.uids = r.uids := by
    rw [uids, hitems, List.map_map, uids]
    exact List.map_congr_left hf
  intro uid i
  rw [hindex, huids]
  exact h uid i

theorem modify (h : r.Indexed) {uid : String} {f : α → α}
    (hf : ∀ x ∈ r.items, Named.uid x = uid → Named.uid (f x) = uid) : (r.modify uid f).Indexed := by
  refine h.of_map (f := fun x => if Named.uid x = uid then f x else x) ?_ (h.items_modify uid f) ?_
  · rw [Registry.modify]
    split <;> rfl
  · intro x hx
    split_ifs with hu
    · exact (hf x hx hu).trans hu.symm
    · rfl

theorem modifyAll (h : r.Indexed) {f : α → α} (hf : ∀ x ∈ r.items, Named.uid (f x) = Named.uid x) :
    (r.modifyAll f).Indexed :=
  h.of_map rfl rfl hf

/-! ### Renaming -/

theorem rename?_of_taken (h : r.Indexed) {old new : String} (hnew : new ∈ r.uids) :
    r.rename? old new = none := by
  rw [rename?, if_pos (h.contains_iff.2 hnew)]

theorem rename?_of_unknown (h : r.Indexed) {old new : String} (hold : old ∉ r.uids) :
    r.rename? old new = none := by
  rw [rename?, h.index_eq_none_iff.2 hold]
  exact ite_self _

theorem uids_modify_withUid [LawfulNamed α] (r : Registry α) (place : Nat) (uid : String) :
    (r.items.modify place (Named.withUid uid)).map Named.uid = r.uids.set place uid := by
  apply List.ext_getElem?
  intro j
  rw [List.getElem?_map, List.getElem?_modify, List.getElem?_set, uids, List.getElem?_map]
  by_cases hj : place = j
  · subst hj
    simp only [↓reduceIte, List.length_map]
    by_cases hlt : place < r.items.length
    · simp [hlt, LawfulNamed.uid_withUid]
    · simp [hlt]
  · simp [hj]

/-- The item keeps its place and gets the new name. -/
theorem rename?_of_mem [LawfulNamed α] (h : r.Indexed) {old new : String} (hold : old ∈ r.uids)
    (hnew : new ∉ r.uids) :
    ∃ r', r.rename? old new = some r' ∧ r'.Indexed ∧
      r'.items = r.items.map fun x => if Named.uid x = old then Named.withUid new x else x := by
  obtain ⟨place, hp⟩ := h.exists_place hold
  have hu := (h _ _).1 hp
  have hlt : place < r.uids.length := (List.getElem?_eq_some_iff.1 hu).1
  have hne : old ≠ new := fun he => hnew (he ▸ hold)
  refine ⟨_, by rw [rename?, if_neg (fun hc => hnew (h.contains_iff.1 hc)), hp]; rfl, ?_,
    modify_eq_map h.nodup_uids hu _⟩
  intro k i
  rw [uids, uids_modify_withUid]
  simp only [List.getElem?_set, Std.HashMap.getElem?_insert, Std.HashMap.getElem?_erase]
  by_cases hk : new = k
  · -- the new name stands where the item is
    subst hk
    simp only [beq_self_eq_true, ↓reduceIte, Option.some.injEq]
    split_ifs with hi
    · exact ⟨fun _ => rfl, fun _ => hi⟩
    · exact ⟨fun he => absurd he hi, fun he => absurd (List.mem_of_getElem? he) hnew⟩
  · simp only [beq_eq_false_iff_ne.2 hk, Bool.false_eq_true, ↓reduceIte]
    by_cases ho : old = k
    · -- the old name stands nowhere, for it stood in one place only
      subst ho
      simp only [beq_self_eq_true, ↓reduceIte, reduceCtorEq, false_iff]
      intro he
      split_ifs at he with hi
      · exact hne (Option.some.inj he).symm
      · have := (h _ _).2 he
        rw [hp] at this
        exact hi (Option.some.inj this)
    · -- the other names stand where they stood
      simp only [beq_eq_false_iff_ne.2 ho, Bool.false_eq_true, ↓reduceIte, h k i]
      by_cases hi : place = i
      · subst hi
        rw [if_pos rfl, if_pos hlt, hu]
        simp [ho, hk]
      · rw [if_neg hi]

end Indexed

@[simp] theorem indexed_empty : (empty : Registry α).Indexed := by
  intro uid i
  simp [empty, uids]

end Registry

end WingBox
