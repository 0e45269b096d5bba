import Mathlib.Data.List.FinRange
import WingBox.Proofs.Cut.Pieces

/-!
# Groups of pieces

`Face.regroup` puts pieces together that are joined, directly or through others.  Pieces are told
apart by their places, since a facet may occur twice.

* `Face.Components` says what the groups of places are: the classes of the relation that joined
  pieces generate, in order (`Face.components_groups`);
* `Face.regroup_components`: so the faces are the connected components of the pieces;
* `Face.Components.eq_singleton`: pieces that are all connected are one group;
* `Face.regroup_of_mem_regroup`: so a face that regrouping made stays one when it is regrouped
  without chords, since its pieces are joined all the more.
-/

namespace WingBox

namespace Face

open Relation Scalar

variable {K : Type} [Scalar K] {chords : List (Edge K)} {facets : List (Triangle K)}
  {gs : List (List (Fin facets.length))} {i j : Fin facets.length}

/-! ### Connected pieces -/

/-- The boxes around two facets overlap, and an edge of the one and an edge of the other share a
part whose midpoint is not within the tolerance of any chord. -/
def Joined (chords : List (Edge K)) (t u : Triangle K) : Prop :=
  (t.box.enlarged tolerance).Overlaps (u.box.enlarged tolerance) ∧
    ∃ e ∈ t.edges, ∃ f ∈ u.edges, ∃ m, e.sharedMidpoint? f = some m ∧
      ∀ c ∈ chords, ¬ c.distance m < tolerance

/-- A chain of joined pieces, of which an earlier one is joined with a later one, leads from one
place to the other. -/
def Connected (chords : List (Edge K)) (facets : List (Triangle K)) :
    Fin facets.length → Fin facets.length → Prop :=
  EqvGen fun i j => i < j ∧ Joined chords (facets.get i) (facets.get j)

theorem joined_ofFacets_iff :
    joined chords ((Piece.ofFacets facets).get i) ((Piece.ofFacets facets).get j) ↔
      Joined chords (facets.get i) (facets.get j) := by
  rw [get_ofFacets, get_ofFacets]
  simp only [joined, Joined, Bool.and_eq_true, decide_eq_true_eq, List.any_eq_true]
  refine and_congr_right fun _ => exists_congr fun e => and_congr_right fun _ =>
    exists_congr fun f => and_congr_right fun _ => ?_
  cases e.sharedMidpoint? f with
  | none => simp
  | some m => simp

/-- Without chords pieces are joined all the more. -/
theorem Joined.nil {t u : Triangle K} (h : Joined chords t u) : Joined [] t u := by
  obtain ⟨hoverlaps, e, he, f, hf, m, hm, -⟩ := h
  exact ⟨hoverlaps, e, he, f, hf, m, hm, List.forall_mem_nil _⟩

theorem mem_pairs_iff {n : ℕ} {i j : Fin n} : (i, j) ∈ pairs n ↔ i < j := by
  simp [pairs]

/-- Places have the same root after all joined pieces are united if they are connected. -/
theorem root_unite_eq_iff :
    (unite chords (Piece.ofFacets facets)).root i = (unite chords (Piece.ofFacets facets)).root j ↔
      Connected chords facets i j := by
  have hunite : unite chords (Piece.ofFacets facets) =
      ((pairs facets.length).filter fun ij =>
        joined chords ((Piece.ofFacets facets).get ij.1)
          ((Piece.ofFacets facets).get ij.2)).foldl
            (fun f ij => f.union ij.1 ij.2) (.singles _) := List.foldl_filter.symm
  rw [hunite, Forest.root_foldl_union_singles_iff, Connected]
  simp only [List.mem_filter, mem_pairs_iff, joined_ofFacets_iff]

/-! ### What groups are -/

/-- Groups of places are the classes of connected pieces, in order. -/
structure Components (chords : List (Edge K)) (facets : List (Triangle K))
    (gs : List (List (Fin facets.length))) : Prop where
  /-- Each place is in one group, once. -/
  perm : gs.flatten.Perm (List.finRange facets.length)
  /-- No group is empty. -/
  nonempty : ∀ g ∈ gs, g ≠ []
  /-- The places in a group are in order. -/
  ordered : ∀ g ∈ gs, g.Pairwise (· < ·)
  /-- The groups are in the order of their first places. -/
  firsts : gs.Pairwise fun g h => ∀ i ∈ g.head?, ∀ j ∈ h.head?, i < j
  /-- A group holds the places that are connected with one of its places. -/
  mem_iff : ∀ g ∈ gs, ∀ i ∈ g, ∀ j, j ∈ g ↔ Connected chords facets i j

theorem components_groups (chords : List (Edge K)) (facets : List (Triangle K)) :
    Components chords facets (groups chords facets) := by
  have hfiled := (unite chords (Piece.ofFacets facets)).filed_trees
  have hordered : ∀ g ∈ groups chords facets, g.Pairwise (· < ·) := by
    simp only [groups, List.forall_mem_map]
    intro t ht
    rw [hfiled.items_eq t ht]
    exact (List.pairwise_lt_finRange _).filter _
  refine ⟨perm_groups chords facets, ?_, hordered, ?_, ?_⟩
  · simp only [groups, List.forall_mem_map]
    exact hfiled.nonempty
  · refine List.pairwise_map.2 (hfiled.ordered.imp_of_mem ?_)
    intro t u ht _ hfirst i hi j hj
    obtain ⟨k, hk, hlt⟩ := hfirst
    -- the first place is not after the one that comes before all of the other group
    have hle : i ≤ k := by
      obtain ⟨rest, hrest⟩ := List.head?_eq_some_iff.1 hi
      have hsorted := hordered t.items (List.mem_map_of_mem ht)
      rw [hrest] at hk hsorted
      rcases List.mem_cons.1 hk with rfl | hk
      · exact le_rfl
      · exact (List.rel_of_pairwise_cons hsorted hk).le
    exact hle.trans_lt (hlt j (List.mem_of_mem_head? hj))
  · simp only [groups, List.forall_mem_map]
    intro t ht i hi j
    rw [hfiled.mem_items_iff ht] at hi ⊢
    rw [← root_unite_eq_iff, hi.2]
    simp [eq_comm]

namespace Components

/-- Pieces that are all connected are one group. -/
theorem eq_singleton (h : Components chords facets gs) (hne : facets ≠ [])
    (hconnected : ∀ i j, Connected chords facets i j) :
    gs = [List.finRange facets.length] := by
  have hnodup : gs.flatten.Nodup := h.perm.nodup_iff.2 (List.nodup_finRange _)
  have hall {g : List (Fin facets.length)} (hg : g ∈ gs) (i : Fin facets.length) : i ∈ g := by
    obtain ⟨k, hk⟩ := List.exists_mem_of_ne_nil g (h.nonempty g hg)
    exact (h.mem_iff g hg k hk i).2 (hconnected k i)
  have hi : (⟨0, List.length_pos_of_ne_nil hne⟩ : Fin facets.length) ∈ gs.flatten :=
    h.perm.mem_iff.2 (List.mem_finRange _)
  match gs with
  | [] => cases hi
  | [g] =>
    have hg := h.ordered g (List.mem_singleton_self g)
    have hperm : g.Perm (List.finRange facets.length) := by simpa using h.perm
    rw [hperm.eq_of_pairwise (fun _ _ _ _ hlt hgt => absurd hlt hgt.not_gt) hg
      (List.pairwise_lt_finRange _)]
  | g :: g' :: gs =>
    -- a second group would hold the same places
    have hdisjoint := List.rel_of_pairwise_cons (List.nodup_flatten.1 hnodup).2 List.mem_cons_self
    exact absurd (hall (by simp) _) (hdisjoint (hall (by simp) ⟨0, List.length_pos_of_ne_nil hne⟩))

/-- The pieces of a group are connected also when they are numbered anew and chords are left
out. -/
theorem connected_map_get (h : Components chords facets gs)
    {g : List (Fin facets.length)} (hg : g ∈ gs) (a b : Fin (g.map facets.get).length) :
    Connected [] (g.map facets.get) a b := by
  have hlength : (g.map facets.get).length = g.length := List.length_map _
  let place (a : Fin (g.map facets.get).length) : Fin facets.length := g.get (a.cast hlength)
  have hplace : StrictMono place := fun a b hab =>
    List.pairwise_iff_get.1 (h.ordered g hg) _ _ hab
  have hfacet (a : Fin (g.map facets.get).length) :
      (g.map facets.get).get a = facets.get (place a) := by simp [place]
  suffices hall : ∀ i j, Connected chords facets i j → ∀ a b, place a = i → place b = j →
      Connected [] (g.map facets.get) a b from
    hall _ _ ((h.mem_iff g hg _ (List.get_mem _ _) _).1 (List.get_mem _ _)) a b rfl rfl
  intro i j hij
  induction hij with
  | rel i j hij =>
    rintro a b rfl rfl
    refine .rel a b ⟨hplace.lt_iff_lt.1 hij.1, ?_⟩
    rw [hfacet, hfacet]
    exact hij.2.nil
  | refl i =>
    rintro a b rfl hb
    rw [hplace.injective hb]
    exact .refl a
  | symm i j _ ih => exact fun a b ha hb => .symm _ _ (ih b a hb ha)
  | trans i k j hik _ ih ih' =>
    rintro a b rfl rfl
    -- the pieces between are in the group too
    have hk : k ∈ g := (h.mem_iff g hg _ (List.get_mem _ _) k).2 hik
    obtain ⟨c, hc⟩ := List.get_of_mem hk
    have hcplace : place (c.cast hlength.symm) = k := hc
    exact .trans _ _ _ (ih a _ rfl hcplace) (ih' _ b hcplace rfl)

end Components

/-- A face that regrouping made stays one face when it is regrouped without chords. -/
theorem regroup_of_mem_regroup {f : Face K} (hf : f ∈ regroup chords facets) :
    regroup [] f.facets = [f] := by
  rw [regroup_eq] at hf
  obtain ⟨g, hg, rfl⟩ := List.mem_map.1 hf
  have hcomponents := components_groups chords facets
  have hne : g.map facets.get ≠ [] := by simpa using hcomponents.nonempty g hg
  have hone := (components_groups [] (g.map facets.get)).eq_singleton hne
    (hcomponents.connected_map_get hg)
  rw [regroup_eq, hone, List.map_singleton, List.map_get_finRange]

/-- **Regrouping finds the connected components.**  The faces hold the pieces of the groups of
places that are the classes of connected pieces: every place is in one group once, the groups are in
the order of their first places and the places of a group in order.  In every forest over the places
the way from a place to its root ends after fewer steps than there are pieces, and finding the root
leaves the root of every place alone. -/
theorem regroup_components (chords : List (Edge K)) (facets : List (Triangle K)) :
    (∃ gs, Components chords facets gs ∧
      regroup chords facets = gs.map fun g => ⟨g.map facets.get⟩) ∧
      ∀ (f : Forest facets.length) (i : Fin facets.length),
        (∃ k < facets.length, f.parent^[k] i = (f.find i).1 ∧ f.IsRoot (f.find i).1 ∧
          ∀ m < k, ¬ f.IsRoot (f.parent^[m] i)) ∧
        ∀ j, (f.find i).2.root j = f.root j := by
  refine ⟨⟨_, components_groups chords facets, regroup_eq chords facets⟩, fun f i => ⟨?_, ?_⟩⟩
  · obtain ⟨hroot, hbefore⟩ := f.iterate_parent i
    exact ⟨_, f.length_path_lt i, hroot, f.isRoot_root i, hbefore⟩
  · exact f.root_compress i

end Face

end WingBox
