import Mathlib.Data.List.Flatten
import Mathlib.Data.List.Perm.Basic
import WingBox.Cut.Split
import WingBox.Proofs.Container.Forest

/-!
# Pieces of facets

A facet is cut by one blade after another, so the facets of a split face are the pieces of its
facets: `Triangle.pieces` are those of one facet, and `Triangle.slivers` the triangles that are
dropped on the way, as they have too little area.

* `Blade.perm_pieces_slivers`: a cut makes the triangles fanned out over the two polygons, as
  pieces or as slivers;
* `Face.perm_split`: regrouping neither drops nor repeats a piece.
-/

namespace WingBox

open Scalar

variable {K : Type} [Scalar K]

/-! ### One cut -/

namespace Triangle

/-- The polygon of a triangle to which the normal of a plane points. -/
def upper (t : Triangle K) (plane : Plane K) : List (Vec K) :=
  (t.sides plane).flatMap fun s => s.startIf (0 ≤ ·) ++ s.crossing

/-- The polygon of a triangle on the other side of a plane. -/
def lower (t : Triangle K) (plane : Plane K) : List (Vec K) :=
  (t.sides plane).flatMap fun s => s.startIf (· ≤ 0) ++ s.crossing

/-- The triangles fanned out from the first point of a polygon, slivers too. -/
def wholeFan : List (Vec K) → List (Triangle K)
  | [] => []
  | p :: ps => List.zipWith (Triangle.mk p) ps ps.tail

/-- The triangle has enough area to be a facet. -/
def Ample (t : Triangle K) : Prop := tolerance * tolerance < t.area

instance (t : Triangle K) : Decidable t.Ample := inferInstanceAs (Decidable (_ < _))

theorem fan_eq_filter (ps : List (Vec K)) : fan ps = (wholeFan ps).filter (·.Ample) := by
  cases ps with
  | nil => rfl
  | cons p ps =>
    have hfacet : facet? (K := K) = Option.guard fun t => decide t.Ample := by
      funext t
      by_cases ht : t.Ample <;> simp [facet?, Option.guard, Ample] at ht ⊢ <;> simp [ht]
    rw [fan, wholeFan, hfacet, List.filterMap_eq_filter]

/-- A triangle is cut into the fans over its two polygons, along a chord between two points. -/
theorem halves_of_cut? {t : Triangle K} {plane : Plane K} {h : Halves K}
    (hcut : t.cut? plane = some h) :
    h.above = fan (t.upper plane) ∧ h.below = fan (t.lower plane) ∧
      ((t.sides plane).flatMap Side.contacts).length = 2 ∧
      3 ≤ (t.upper plane).length ∧ 3 ≤ (t.lower plane).length := by
  unfold cut? at hcut
  dsimp only at hcut
  split at hcut
  · next hcontacts =>
    split_ifs at hcut with hlength
    obtain rfl := Option.some.inj hcut
    obtain ⟨hupper, hlower⟩ := not_or.1 hlength
    exact ⟨rfl, rfl, by rw [hcontacts]; rfl, Nat.not_lt.1 hupper, Nat.not_lt.1 hlower⟩
  · cases hcut

end Triangle

namespace Blade

/-- What a blade makes of a facet: the facets on the two sides of a cut, or the facet itself. -/
def pieces (b : Blade K) (t : Triangle K) : List (Triangle K) :=
  match b.halves? t with
  | some h => h.above ++ h.below
  | none => [t]

/-- The triangles that a cut makes and drops. -/
def slivers (b : Blade K) (t : Triangle K) : List (Triangle K) :=
  match b.halves? t with
  | some _ => (Triangle.wholeFan (t.upper b.plane) ++ Triangle.wholeFan (t.lower b.plane)).filter
    (¬ ·.Ample)
  | none => []

theorem pieces_of_none {b : Blade K} {t : Triangle K} (h : b.halves? t = none) :
    b.pieces t = [t] ∧ b.slivers t = [] := by
  simp [pieces, slivers, h]

theorem cut?_of_halves? {b : Blade K} {t : Triangle K} {h : Triangle.Halves K}
    (hcut : b.halves? t = some h) : t.cut? b.plane = some h := by
  unfold halves? at hcut
  split_ifs at hcut
  exact hcut

/-- A cut makes pieces and slivers of the triangles over the two polygons. -/
theorem perm_pieces_slivers {b : Blade K} {t : Triangle K} {h : Triangle.Halves K}
    (hcut : b.halves? t = some h) :
    (b.pieces t ++ b.slivers t).Perm
      (Triangle.wholeFan (t.upper b.plane) ++ Triangle.wholeFan (t.lower b.plane)) := by
  obtain ⟨habove, hbelow, -⟩ := Triangle.halves_of_cut? (cut?_of_halves? hcut)
  simp only [pieces, slivers, hcut, habove, hbelow, Triangle.fan_eq_filter, ← List.filter_append,
    decide_not]
  exact List.filter_append_perm _ _

theorem cutAll_fst (b : Blade K) (facets : List (Triangle K)) (chords : List (Edge K)) :
    (b.cutAll facets chords).1 = facets.flatMap b.pieces := by
  unfold cutAll
  induction facets with
  | nil => rfl
  | cons t ts ih =>
    rw [List.foldr_cons, List.flatMap_cons, ← ih, pieces]
    cases b.halves? t with
    | none => rfl
    | some h => simp only [List.append_assoc]

end Blade

/-! ### One cut after another -/

namespace Triangle

/-- The pieces of a facet between blades, which cut one after the other. -/
def pieces : List (Blade K) → Triangle K → List (Triangle K)
  | [], t => [t]
  | b :: bs, t => (b.pieces t).flatMap (pieces bs)

/-- The triangles that are dropped when blades cut a facet one after the other. -/
def slivers : List (Blade K) → Triangle K → List (Triangle K)
  | [], _ => []
  | b :: bs, t => b.slivers t ++ (b.pieces t).flatMap (slivers bs)

end Triangle

theorem Blade.foldl_cutAll_fst (blades : List (Blade K)) (facets : List (Triangle K))
    (chords : List (Edge K)) :
    (blades.foldl (fun (facets, chords) b => b.cutAll facets chords) (facets, chords)).1 =
      facets.flatMap (·.pieces blades) := by
  induction blades generalizing facets chords with
  | nil => simp [Triangle.pieces]
  | cons b bs ih =>
    rw [List.foldl_cons, ih, cutAll_fst, List.flatMap_assoc]
    rfl

/-! ### Regrouping -/

namespace Face

theorem get_ofFacets (facets : List (Triangle K)) (i : Fin facets.length) :
    (Piece.ofFacets facets).get i = ⟨facets.get i, (facets.get i).box.enlarged tolerance⟩ := by
  have hget (ps : Vector (Piece K) facets.length) : ps.get i = ps[i] := rfl
  rw [hget]
  simp [Piece.ofFacets]

/-- The places of the facets of each face. -/
def groups (chords : List (Edge K)) (facets : List (Triangle K)) :
    List (List (Fin facets.length)) :=
  (unite chords (Piece.ofFacets facets)).trees.map Forest.Tree.items

theorem regroup_eq (chords : List (Edge K)) (facets : List (Triangle K)) :
    regroup chords facets = (groups chords facets).map fun g => ⟨g.map facets.get⟩ := by
  simp only [regroup, groups, List.map_map]
  refine List.map_congr_left fun t _ => congrArg Face.mk (List.map_congr_left fun i _ => ?_)
  rw [get_ofFacets]

/-- Every place is in one group. -/
theorem perm_groups (chords : List (Edge K)) (facets : List (Triangle K)) :
    (groups chords facets).flatten.Perm (List.finRange facets.length) := by
  rw [groups, ← List.flatMap_def]
  exact (Forest.filed_trees _).perm (List.nodup_finRange _)

/-- Faces made of pieces hold these pieces. -/
theorem perm_regroup (chords : List (Edge K)) (facets : List (Triangle K)) :
    ((regroup chords facets).flatMap Face.facets).Perm facets := by
  have hfacets := (perm_groups chords facets).map facets.get
  rw [List.map_flatten, List.map_get_finRange] at hfacets
  rwa [regroup_eq, List.flatMap_map, List.flatMap_def]

/-- The parts of a face hold the pieces of its facets. -/
theorem perm_split (f : Face K) (blades : List (Blade K)) :
    ((f.split blades).flatMap Face.facets).Perm (f.facets.flatMap (·.pieces blades)) := by
  rw [← Blade.foldl_cutAll_fst blades f.facets []]
  exact perm_regroup _ _

end Face

end WingBox
