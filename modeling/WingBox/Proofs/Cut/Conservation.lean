import WingBox.Proofs.Cut.Halves

/-!
# Splitting conserves surfaces

Splitting a shape with exact numbers loses no surface and invents none
(`Shape.split_conserves`).  Every input face becomes a group of faces of its own; the facets of the
group are the pieces of the facets of the face, in some order; and the pieces of a facet, together
with the slivers that were dropped, are a dissection of it.
-/

namespace WingBox

open Scalar

/-! ### Facets -/

section Slivers

variable {K : Type} [Scalar K]

theorem Triangle.not_ample_of_mem_slivers {blades : List (Blade K)} {t p : Triangle K}
    (hp : p ∈ t.slivers blades) : ¬ p.Ample := by
  induction blades generalizing t with
  | nil => exact absurd hp List.not_mem_nil
  | cons b bs ih =>
    rcases List.mem_append.1 hp with hp | hp
    · unfold Blade.slivers at hp
      split at hp
      · simpa using (List.mem_filter.1 hp).2
      · exact absurd hp List.not_mem_nil
    · obtain ⟨q, -, hp⟩ := List.mem_flatMap.1 hp
      exact ih hp

end Slivers

variable {t : Triangle ℝ}

/-- What a blade makes of a facet is a dissection of it. -/
theorem Blade.dissection (b : Blade ℝ) (t : Triangle ℝ) :
    t.Dissection (b.pieces t ++ b.slivers t) := by
  cases hcut : b.halves? t with
  | none =>
    obtain ⟨hpieces, hslivers⟩ := pieces_of_none hcut
    rw [hpieces, hslivers]
    exact .singleton t
  | some h =>
    have hparted := Triangle.parted_of_cut? (cut?_of_halves? hcut)
    exact hparted.dissection.perm (perm_pieces_slivers hcut)

/-- So is what any number of blades make of it. -/
theorem Triangle.dissection (blades : List (Blade ℝ)) (t : Triangle ℝ) :
    t.Dissection (t.pieces blades ++ t.slivers blades) := by
  induction blades generalizing t with
  | nil => exact .singleton t
  | cons b bs ih =>
    -- every piece that the first blade makes is dissected by the others
    refine ((b.dissection t).flatMap fun p _ => ih p).perm ?_
    change ((b.pieces t).flatMap (pieces bs) ++
      (b.slivers t ++ (b.pieces t).flatMap (slivers bs))).Perm _
    refine (List.perm_append_comm.append_left _).trans ?_
    rw [← List.append_assoc]
    exact (List.flatMap_append_perm _ _ _).append_right _

/-! ### Shapes -/

theorem sum_map_flatMap {α β : Type} (f : β → ℝ) (g : α → List β) (xs : List α) :
    ((xs.flatMap g).map f).sum = (xs.map fun x => ((g x).map f).sum).sum := by
  rw [List.map_flatMap, List.flatMap_def, List.sum_flatten, List.map_map]
  rfl

namespace Shape

/-- The area is the sum of the areas of all facets. -/
theorem area_eq (s : Shape ℝ) : s.area = (s.triangles.map Triangle.area).sum := by
  rw [area, triangles, sum_eq, sum_map_flatMap]
  exact congrArg List.sum (List.map_congr_left fun f _ => sum_eq _)

/-- The facets of a split shape are the pieces of the facets. -/
theorem perm_triangles_split {K : Type} [Scalar K] (s tool : Shape K) :
    (s.split tool).triangles.Perm (s.triangles.flatMap (·.pieces tool.blades)) := by
  have hfaces : (s.split tool).triangles =
      s.faces.flatMap fun f => (f.split tool.blades).flatMap Face.facets := List.flatMap_assoc
  rw [hfaces, triangles, List.flatMap_assoc]
  exact List.Perm.flatMap_left _ fun f _ => f.perm_split tool.blades

/-- **Splitting loses no surface and invents none.**  Loose edges stay.  The faces come in groups,
one for each input face, and the facets of a group are the pieces of the facets of this face.  The
pieces of a facet lie inside it and face the same way, so do the slivers that are dropped, and the
vectors across all of them add up to that of the facet.  So the area stays but for the slivers. -/
theorem split_conserves (s tool : Shape ℝ) :
    (s.split tool).edges = s.edges ∧
      (∃ groups : List (List (Face ℝ)), (s.split tool).faces = groups.flatten ∧
        List.Forall₂ (fun f group =>
          (group.flatMap Face.facets).Perm (f.facets.flatMap (·.pieces tool.blades)))
          s.faces groups) ∧
      (∀ t : Triangle ℝ,
        (∀ p ∈ t.pieces tool.blades, p.PartOf t) ∧
        (∀ p ∈ t.slivers tool.blades, p.PartOf t ∧ p.area ≤ tolerance * tolerance) ∧
        ((t.pieces tool.blades).map Triangle.cross).sum +
          ((t.slivers tool.blades).map Triangle.cross).sum = t.cross) ∧
      (s.split tool).area +
        ((s.triangles.flatMap (·.slivers tool.blades)).map Triangle.area).sum = s.area := by
  refine ⟨rfl, ⟨s.faces.map (·.split tool.blades), ?_, ?_⟩, fun t => ?_, ?_⟩
  · rw [← List.flatMap_def]
    rfl
  · rw [List.forall₂_map_right_iff, List.forall₂_same]
    exact fun f _ => f.perm_split tool.blades
  · have ht := t.dissection tool.blades
    refine ⟨fun p hp => ht.parts p (List.mem_append_left _ hp), fun p hp => ⟨?_, ?_⟩, ?_⟩
    · exact ht.parts p (List.mem_append_right _ hp)
    · exact not_lt.1 (Triangle.not_ample_of_mem_slivers hp)
    · rw [← ht.cross, List.map_append, List.sum_append]
  · rw [area_eq, ((perm_triangles_split s tool).map _).sum_eq, ← List.sum_append,
      ← List.map_append, ((List.flatMap_append_perm _ _ _).map _).sum_eq, area_eq,
      sum_map_flatMap]
    exact congrArg List.sum (List.map_congr_left fun t _ => (t.dissection _).sum_area)

end Shape

/-- A triangle of area 2. -/
noncomputable def Triangle.corner : Triangle ℝ := ⟨⟨0, 0, 0⟩, ⟨2, 0, 0⟩, ⟨0, 2, 0⟩⟩

/-- An upright triangle that cuts the corner. -/
noncomputable def Triangle.wall : Triangle ℝ := ⟨⟨0.5, -1, -1⟩, ⟨0.5, 5, -1⟩, ⟨0.5, 2, 5⟩⟩

theorem Triangle.cross_corner : corner.cross = ⟨0, 0, 4⟩ := by
  ext <;> norm_num [corner, cross, Vec.cross]

/-- What the wall makes of the corner. -/
theorem Shape.split_conserves_corner :
    let s := Shape.ofFace ⟨[Triangle.corner]⟩
    let tool := Shape.ofFace ⟨[Triangle.wall]⟩
    (s.split tool).edges = [] ∧
      ((Triangle.corner.pieces tool.blades).map Triangle.cross).sum +
        ((Triangle.corner.slivers tool.blades).map Triangle.cross).sum = ⟨0, 0, 4⟩ ∧
      (s.split tool).area +
        ((Triangle.corner.slivers tool.blades).map Triangle.area).sum = 2 := by
  intro s tool
  obtain ⟨hedges, -, hfacets, harea⟩ := split_conserves s tool
  refine ⟨hedges, ?_, ?_⟩
  · rw [(hfacets .corner).2.2, Triangle.cross_corner]
  · have hnorm : (⟨0, 0, 4⟩ : Vec ℝ).norm = 4 := by
      change Real.sqrt _ = 4
      rw [Vec.normSq, Vec.dot, Real.sqrt_eq_iff_mul_self_eq] <;> norm_num
    have hs : s.area = 2 := by
      rw [area_eq]
      norm_num [s, ofFace, triangles, Triangle.area, Triangle.cross_corner, hnorm]
    rw [← hs, ← harea]
    simp [s, ofFace, triangles]

end WingBox
