import WingBox.Proofs.Cut.Conservation
import WingBox.Proofs.Exact.Box
import WingBox.Structure.Ribs

/-!
# Tools that are too far to cut

With exact numbers a tool whose box is apart from that of a shape does not change how the shape is
split (`Shape.split_append_filter`): the pieces of the shape never leave its box, so no facet of
the tool cuts any of them at any stage, and a blade that cuts nothing leaves the pieces and the
chords as they are.
-/

namespace WingBox

open Scalar

/-! ### Idle blades -/

section Idle

variable {K : Type} [Scalar K] {b : Blade K}

/-- A blade that cuts none of the facets changes nothing. -/
theorem Blade.cutAll_of_idle {facets : List (Triangle K)} (h : ∀ t ∈ facets, b.halves? t = none)
    (chords : List (Edge K)) : b.cutAll facets chords = (facets, chords) := by
  unfold cutAll
  induction facets with
  | nil => rfl
  | cons t ts ih =>
    rw [List.forall_mem_cons] at h
    rw [List.foldr_cons, ih h.2, h.1]

/-- A facet that is not near a blade is not cut. -/
theorem Blade.halves?_of_not_overlaps {t : Triangle K} (h : ¬ b.around.Overlaps t.box) :
    b.halves? t = none := by
  simp [halves?, crosses, h]

end Idle

/-! ### Pieces in a box -/

/-- A mean of three values lies between all bounds of them. -/
theorem InSimplex.mean_mem {u : ℝ × ℝ} (hu : InSimplex u) {lo hi a b c : ℝ}
    (ha : lo ≤ a ∧ a ≤ hi) (hb : lo ≤ b ∧ b ≤ hi) (hc : lo ≤ c ∧ c ≤ hi) :
    lo ≤ a + (b - a) * u.1 + (c - a) * u.2 ∧ a + (b - a) * u.1 + (c - a) * u.2 ≤ hi := by
  obtain ⟨hu₁, hu₂, hu₃⟩ := hu
  constructor <;> nlinarith

/-- A triangle in a box has all its points there. -/
theorem Triangle.Holds.contains {t : Triangle ℝ} {x : Vec ℝ} {b : Box ℝ} (hx : t.Holds x)
    (ht : t.box.Within b) : b.Contains x := by
  rw [Triangle.box_within_iff] at ht
  simp only [vertices, List.forall_mem_cons] at ht
  obtain ⟨ha, hb, hc, -⟩ := ht
  obtain ⟨u, hu, rfl⟩ := hx
  exact ⟨hu.mean_mem ha.1 hb.1 hc.1, hu.mean_mem ha.2.1 hb.2.1 hc.2.1,
    hu.mean_mem ha.2.2 hb.2.2 hc.2.2⟩

namespace Shape

variable {s tool : Shape ℝ} {b : Blade ℝ} {t p : Triangle ℝ}

/-- Pieces of a facet stay in the box of the shape. -/
theorem Encloses.pieces (h : s.Encloses t) (hp : p ∈ b.pieces t) : s.Encloses p := by
  obtain ⟨box, hbox, ht⟩ := h
  have hpart := (b.dissection t).parts p (List.mem_append_left _ hp)
  exact ⟨box, hbox, Triangle.box_within_iff.2 fun x hx => (hpart.vertices x hx).contains ht⟩

/-- A facet of a tool that is apart from the shape cuts nothing in the box of the shape. -/
theorem Encloses.halves?_of_not_mayMeet (ht : s.Encloses t) (h : ¬ Query.mayMeet s tool)
    (hb : b ∈ tool.blades) : b.halves? t = none := by
  obtain ⟨box, hbox, ht⟩ := ht
  obtain ⟨u, hu, hblade⟩ := List.mem_filterMap.1 hb
  obtain ⟨plane, -, rfl⟩ := Option.map_eq_some_iff.1 hblade
  obtain ⟨box', hbox', hu⟩ := encloses_of_mem hu
  refine Blade.halves?_of_not_overlaps fun hoverlaps => h ?_
  have hgap : (tolerance : ℝ) ≤ Query.splitGap ∧ (0 : ℝ) ≤ Query.splitGap := by
    unfold tolerance Query.splitGap
    norm_num
  simp only [Query.mayMeet, hbox, hbox', decide_eq_true_eq]
  exact (hoverlaps.enlarged hgap.1 hgap.2).mono (ht.enlarged _) (hu.enlarged _)

end Shape

/-! ### Cutting with some of the blades -/

section Steps

variable {K : Type} [Scalar K]

/-- One step of cutting: the facets and the chords after a blade. -/
def Blade.step (state : List (Triangle K) × List (Edge K)) (b : Blade K) :
    List (Triangle K) × List (Edge K) :=
  b.cutAll state.1 state.2

theorem Blade.foldl_step_of_idle {blades : List (Blade K)}
    {state : List (Triangle K) × List (Edge K)}
    (h : ∀ b ∈ blades, ∀ t ∈ state.1, b.halves? t = none) : blades.foldl step state = state := by
  induction blades with
  | nil => rfl
  | cons b bs ih =>
    rw [List.forall_mem_cons] at h
    rw [List.foldl_cons, step, cutAll_of_idle h.1]
    exact ih h.2

theorem Face.split_eq (f : Face K) (blades : List (Blade K)) :
    f.split blades = regroup (blades.foldl Blade.step (f.facets, [])).2
      (blades.foldl Blade.step (f.facets, [])).1 := rfl

theorem Shape.blades_foldl_append (tools : List (Shape K)) (s : Shape K) :
    (tools.foldl (· ++ ·) s).blades = s.blades ++ tools.flatMap blades := by
  induction tools generalizing s with
  | nil => simp
  | cons tool tools ih =>
    rw [List.foldl_cons, ih, List.flatMap_cons, ← List.append_assoc]
    simp [blades]

end Steps

namespace Shape

variable {s : Shape ℝ} {state : List (Triangle ℝ) × List (Edge ℝ)}

theorem encloses_foldl_step {bs : List (Blade ℝ)} (h : ∀ t ∈ state.1, s.Encloses t) :
    ∀ t ∈ (bs.foldl Blade.step state).1, s.Encloses t := by
  induction bs generalizing state with
  | nil => exact h
  | cons b bs ih =>
    refine ih fun p hp => ?_
    rw [Blade.step, Blade.cutAll_fst] at hp
    obtain ⟨t, ht, hp⟩ := List.mem_flatMap.1 hp
    exact (h t ht).pieces hp

/-- As long as all pieces are in the box of the shape, only the tools that may meet it matter. -/
theorem foldl_step_filter (tools : List (Shape ℝ)) (h : ∀ t ∈ state.1, s.Encloses t) :
    ((tools.filter (Query.mayMeet s)).flatMap blades).foldl Blade.step state =
      (tools.flatMap blades).foldl Blade.step state := by
  induction tools generalizing state with
  | nil => rfl
  | cons tool tools ih =>
    rw [List.flatMap_cons, List.foldl_append]
    by_cases htool : Query.mayMeet s tool
    · rw [List.filter_cons_of_pos htool, List.flatMap_cons, List.foldl_append]
      exact ih (encloses_foldl_step h)
    · have hidle : tool.blades.foldl Blade.step state = state :=
        Blade.foldl_step_of_idle fun b hb t ht => (h t ht).halves?_of_not_mayMeet htool hb
      rw [List.filter_cons_of_neg htool, hidle]
      exact ih h

/-- **Tools that are apart from a shape do not matter.**  They can be left out when it is split,
whatever else it is split by before. -/
theorem split_append_filter (s tool : Shape ℝ) (tools : List (Shape ℝ)) :
    s.split (tool ++ (tools.filter (Query.mayMeet s)).foldl (· ++ ·) .empty) =
      s.split (tool ++ tools.foldl (· ++ ·) .empty) := by
  have hblades (ts : List (Shape ℝ)) : (tool ++ ts.foldl (· ++ ·) .empty).blades =
      tool.blades ++ ts.flatMap blades := by
    have happend := blades_foldl_append ts .empty
    simp only [blades, triangles_append, List.filterMap_append] at happend ⊢
    rw [happend]
    rfl
  have hfaces : ∀ f ∈ s.faces, f.split (tool.blades ++ (tools.filter (Query.mayMeet s)).flatMap
      blades) = f.split (tool.blades ++ tools.flatMap blades) := by
    intro f hf
    have hstart : ∀ t ∈ f.facets, s.Encloses t := fun t ht =>
      encloses_of_mem (List.mem_flatMap.2 ⟨f, hf, ht⟩)
    simp only [Face.split_eq, List.foldl_append]
    rw [foldl_step_filter tools (encloses_foldl_step hstart)]
  unfold split
  rw [hblades, hblades]
  exact congrArg (Shape.mk · s.edges) (List.flatMap_congr hfaces)

end Shape

end WingBox
