import Mathlib.Data.List.Forall2
import WingBox.Fault.Basic

/-!
# Results one by one

What is done with every element of a list has a list of values if each element has one
(`exists_mapM`), which then belong to the elements in order (`forall₂_of_mapM`).  If there are none,
the fault is that of an element (`exists_error_of_mapM`).
-/

namespace WingBox

variable {ε α β : Type} {f : α → Except ε β} {xs : List α} {ys : List β}

theorem exists_eq_ok_of_isOk {x : Except ε α} (h : x.isOk = true) : ∃ a, x = .ok a := by
  cases x with
  | error e => cases h
  | ok a => exact ⟨a, rfl⟩

/-- A value with a property is looked for by computing it. -/
instance decidableExistsOk (x : Except ε α) (P : α → Prop) [DecidablePred P] :
    Decidable (∃ a, x = .ok a ∧ P a) :=
  match x with
  | .error _ => .isFalse nofun
  | .ok a => decidable_of_iff (P a)
    ⟨fun h => ⟨a, rfl, h⟩, fun ⟨_, h, hP⟩ => Except.ok.inj h ▸ hP⟩

/-- Values that are made one by one belong to each other in order. -/
theorem forall₂_of_mapM (h : xs.mapM f = .ok ys) : List.Forall₂ (fun x y => f x = .ok y) xs ys := by
  induction xs generalizing ys with
  | nil =>
    cases h
    exact .nil
  | cons x xs ih =>
    rw [List.mapM_cons] at h
    obtain ⟨y, hy, h⟩ := bind_eq_ok_iff.1 h
    obtain ⟨ys, hys, h⟩ := bind_eq_ok_iff.1 h
    obtain rfl := Except.ok.inj h
    exact .cons hy (ih hys)

/-- Lists that belong to each other begin with elements that do. -/
theorem exists_head?_of_forall₂ {R : α → β → Prop} (h : List.Forall₂ R xs ys) {x : α}
    (hx : xs.head? = some x) : ∃ y, ys.head? = some y ∧ R x y := by
  cases h with
  | nil => cases hx
  | cons hxy _ =>
    obtain rfl := Option.some.inj hx
    exact ⟨_, rfl, hxy⟩

/-- They also end with such elements. -/
theorem exists_getLast?_of_forall₂ {R : α → β → Prop} (h : List.Forall₂ R xs ys) {x : α}
    (hx : xs.getLast? = some x) : ∃ y, ys.getLast? = some y ∧ R x y := by
  rw [← List.head?_reverse] at hx
  obtain ⟨y, hy, hxy⟩ := exists_head?_of_forall₂ (List.forall₂_reverse_iff.2 h) hx
  exact ⟨y, List.head?_reverse ▸ hy, hxy⟩

/-- If every element has a value there are all. -/
theorem exists_mapM (h : ∀ x ∈ xs, ∃ y, f x = .ok y) : ∃ ys, xs.mapM f = .ok ys := by
  induction xs with
  | nil => exact ⟨[], rfl⟩
  | cons x xs ih =>
    obtain ⟨⟨y, hy⟩, hrest⟩ := List.forall_mem_cons.1 h
    obtain ⟨ys, hys⟩ := ih hrest
    refine ⟨y :: ys, ?_⟩
    rw [List.mapM_cons, hy, hys]
    rfl

/-- If there are all values every element has one. -/
theorem exists_of_mapM (h : xs.mapM f = .ok ys) : ∀ x ∈ xs, ∃ y, f x = .ok y := by
  have hall := forall₂_of_mapM h
  clear h
  induction hall with
  | nil => exact nofun
  | cons hxy _ ih => exact List.forall_mem_cons.2 ⟨⟨_, hxy⟩, ih⟩

/-- What is done in two steps fails if one of them does. -/
theorem bind_eq_error_iff {γ : Type} {x : Except ε β} {g : β → Except ε γ} {e : ε} :
    (x >>= g) = .error e ↔ x = .error e ∨ ∃ y, x = .ok y ∧ g y = .error e := by
  cases x with
  | error e' =>
    refine ⟨fun h => .inl (congrArg _ (Except.error.inj h)), ?_⟩
    rintro (h | ⟨y, hy, -⟩)
    · exact congrArg _ (Except.error.inj h)
    · cases hy
  | ok y =>
    refine ⟨fun h => .inr ⟨y, rfl, h⟩, ?_⟩
    rintro (h | ⟨z, hz, h⟩)
    · cases h
    · exact Except.ok.inj hz ▸ h

/-- If there are not, the fault is that of an element. -/
theorem exists_error_of_mapM {e : ε} (h : xs.mapM f = .error e) : ∃ x ∈ xs, f x = .error e := by
  induction xs with
  | nil => cases h
  | cons x xs ih =>
    rw [List.mapM_cons] at h
    rcases bind_eq_error_iff.1 h with hx | ⟨y, -, h⟩
    · exact ⟨x, List.mem_cons_self, hx⟩
    rcases bind_eq_error_iff.1 h with hxs | ⟨ys, -, h⟩
    · obtain ⟨x', hx', he⟩ := ih hxs
      exact ⟨x', List.mem_cons_of_mem x hx', he⟩
    · cases h

end WingBox
