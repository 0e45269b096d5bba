import WingBox.Proofs.Structure.Run

/-!
# Valid descriptions

A description is `Description.Valid` when no name is given twice in one of its lists, every spar
runs through two positions at least, and all ribs declare one placing and not both, a set with a
number of ribs that it can have.

* `Description.loadable_iff_valid`: the checks of loading, which are spread over the registries,
  the spars and the ribs, come to just that;
* `Structure.ofDescription_ok_iff_valid`: so a structure is made of the valid descriptions and of
  no others, it has the description that it was made of, and its description is valid at any time.

Validity can be decided, without loading anything.
-/

namespace WingBox

variable {K : Type}

/-! ### Ribs -/

/-- A set can have this number of ribs: it is not zero, or a distance that is not zero or less. -/
def RibCount.Usable [Scalar K] : RibCount K → Prop
  | numberOfRibs n => n ≠ 0
  | spacing distance => ¬ distance ≤ 0

instance [Scalar K] (c : RibCount K) : Decidable c.Usable :=
  match c with
  | .numberOfRibs n => inferInstanceAs (Decidable (n ≠ 0))
  | .spacing distance => inferInstanceAs (Decidable (¬ distance ≤ 0))

/-- Ribs that declare one placing, and a number of ribs that can be if this is a set. -/
structure RibsDeclaration.Valid [Scalar K] (r : RibsDeclaration K) : Prop where
  /-- One of the two placings is declared, and not both. -/
  one_placing : r.ribsPositioning.isSome ≠ r.explicitPositioning.isSome
  /-- The number of ribs of a set can be. -/
  usable_count : ∀ set ∈ r.ribsPositioning, set.count.Usable

instance [Scalar K] (r : RibsDeclaration K) : Decidable r.Valid :=
  decidable_of_iff
    (r.ribsPositioning.isSome ≠ r.explicitPositioning.isSome ∧
      ∀ set ∈ r.ribsPositioning, set.count.Usable)
    ⟨fun h => ⟨h.1, h.2⟩, fun h => ⟨h.1, h.2⟩⟩

namespace RibsDeclaration

variable [Scalar K]

/-- A set is refused for its number of ribs if this cannot be. -/
theorem countFault?_set_eq_none_iff (set : RibSet K) :
    countFault? (.set set) = none ↔ set.count.Usable := by
  obtain ⟨ribReference, start, stop, ribStart, ribEnd, count, crossing, rotation⟩ := set
  cases count with
  | numberOfRibs n => by_cases hn : n = 0 <;> simp [countFault?, RibCount.Usable, hn]
  | spacing distance => by_cases hd : distance ≤ 0 <;> simp [countFault?, RibCount.Usable, hd]

/-- Ribs with one placing pass their check if there is no fault in the number of ribs. -/
theorem exists_check_of_ok {r : RibsDeclaration K} {p : RibPlacement K}
    (h : r.positioning = .ok p) : (∃ t, r.check = .ok t) ↔ countFault? p = none := by
  rw [check_of_ok h]
  cases countFault? p <;> simp

/-- Ribs with none or two placings do not pass. -/
theorem not_exists_check_of_error {r : RibsDeclaration K} {e : Error K}
    (h : r.positioning = .error e) : ¬ ∃ t, r.check = .ok t := by
  rintro ⟨t, ht⟩
  rw [check, h] at ht
  cases ht

/-- Ribs pass their check if they are valid. -/
theorem exists_check_iff {r : RibsDeclaration K} : (∃ t, r.check = .ok t) ↔ r.Valid := by
  obtain ⟨uid, set, rib, crossSection⟩ := r
  cases set with
  | none =>
    cases rib with
    | none =>
      refine ⟨fun h => absurd h (not_exists_check_of_error rfl), fun h => ?_⟩
      exact absurd rfl h.one_placing
    | some rib =>
      rw [exists_check_of_ok rfl]
      refine ⟨fun _ => ⟨by simp, by simp⟩, fun _ => rfl⟩
  | some set =>
    cases rib with
    | none =>
      rw [exists_check_of_ok rfl, countFault?_set_eq_none_iff]
      refine ⟨fun h => ⟨by simp, by simpa using h⟩, fun h => ?_⟩
      exact h.usable_count set rfl
    | some rib =>
      refine ⟨fun h => absurd h (not_exists_check_of_error rfl), fun h => ?_⟩
      exact absurd rfl h.one_placing

end RibsDeclaration

/-! ### Descriptions -/

variable [Scalar K]

/-- A description of which a structure can be made. -/
structure Description.Valid (d : Description K) : Prop where
  /-- No two spar positions have one name. -/
  nodup_positions : (d.sparPositions.map (·.uid)).Nodup
  /-- No two spars have one name. -/
  nodup_spars : (d.sparSegments.map (·.uid)).Nodup
  /-- No two definitions of ribs have one name. -/
  nodup_ribs : (d.ribsDefinitions.map (·.uid)).Nodup
  /-- Every spar runs through two positions at least. -/
  two_positions : ∀ s ∈ d.sparSegments, 2 ≤ s.positionUids.length
  /-- All ribs declare one placing with a number of ribs that can be. -/
  valid_ribs : ∀ r ∈ d.ribsDefinitions, r.Valid

namespace Description

instance (d : Description K) : Decidable d.Valid :=
  decidable_of_iff
    ((d.sparPositions.map (·.uid)).Nodup ∧ (d.sparSegments.map (·.uid)).Nodup ∧
      (d.ribsDefinitions.map (·.uid)).Nodup ∧
      (∀ s ∈ d.sparSegments, 2 ≤ s.positionUids.length) ∧ ∀ r ∈ d.ribsDefinitions, r.Valid)
    ⟨fun ⟨hp, hs, hr, htwo, hvalid⟩ => ⟨hp, hs, hr, htwo, hvalid⟩,
      fun h => ⟨h.1, h.2, h.3, h.4, h.5⟩⟩

theorem loadable_iff_valid {d : Description K} : d.Loadable ↔ d.Valid := by
  constructor
  · intro h
    exact {
      nodup_positions := h.nodup_uids .position
      nodup_spars := h.nodup_uids .spar
      nodup_ribs := h.nodup_uids .ribs
      two_positions := fun s hs => SparSegment.check_eq_ok_iff.1 (h.checked_spars s hs)
      valid_ribs := fun r hr => RibsDeclaration.exists_check_iff.1 (h.checked_ribs r hr) }
  · intro h
    refine {
      nodup_uids := fun kind => ?_
      checked_spars := fun s hs => SparSegment.check_eq_ok_iff.2 (h.two_positions s hs)
      checked_ribs := fun r hr => RibsDeclaration.exists_check_iff.2 (h.valid_ribs r hr) }
    cases kind with
    | position => exact h.nodup_positions
    | spar => exact h.nodup_spars
    | ribs => exact h.nodup_ribs

end Description

/-! ### Structures -/

/-- What can be loaded is loadable. -/
theorem Description.loadable_of_ofDescription {wing : Wing K} {desc : Description K}
    {s : Structure K} (h : Structure.ofDescription wing desc = .ok s) : desc.Loadable := by
  obtain ⟨hvalid, -, rfl, -⟩ := ofDescription_ok h
  exact hvalid.loadable

namespace Structure

/-- The description of a structure is valid at any time. -/
theorem valid_description {s : Structure K} (h : s.Reachable) : s.description.Valid :=
  Description.loadable_iff_valid.1 (sound_of_reachable h).valid.loadable

/-- **Structures are made of the valid descriptions.**  A description makes a structure of a wing
if it is valid and else does not, and the structure has just that description.  Whatever happens to
a structure, its description stays valid, so it makes the structure again. -/
theorem ofDescription_ok_iff_valid (wing : Wing K) :
    (∀ desc : Description K, ((∃ s, ofDescription wing desc = .ok s) ↔ desc.Valid) ∧
        ∀ s, ofDescription wing desc = .ok s → s.description = desc) ∧
      ∀ s : Structure K, s.Reachable → s.description.Valid ∧
        ∃ t, ofDescription wing s.description = .ok t ∧ t.description = s.description := by
  have hdesc (desc : Description K) (s : Structure K) (h : ofDescription wing desc = .ok s) :
      s.description = desc := (ofDescription_ok h).2.2.1
  refine ⟨fun desc => ⟨⟨?_, ?_⟩, hdesc desc⟩, fun s hs => ?_⟩
  · rintro ⟨s, hs⟩
    exact Description.loadable_iff_valid.1 (Description.loadable_of_ofDescription hs)
  · intro h
    exact exists_ofDescription wing (Description.loadable_iff_valid.2 h)
  · have hvalid := valid_description hs
    obtain ⟨t, ht⟩ := exists_ofDescription wing (Description.loadable_iff_valid.2 hvalid)
    exact ⟨hvalid, t, ht, hdesc _ t ht⟩

/-- After a position was removed the description still makes a structure, and it would not if the
other position were there twice. -/
theorem ofDescription_ok_iff_valid_removed :
    (∃ s, ofDescription straightWing sparWithRibs = .ok s ∧
      ∃ t, ofDescription straightWing (s.mutate (.removePosition "tip")).2.description = .ok t) ∧
    ¬ ∃ s, ofDescription straightWing { sparWithRibs with
      sparPositions := [⟨"root", .eta 0, 0.3⟩, ⟨"root", .eta 1, 0.3⟩] } = .ok s := by
  obtain ⟨hiff, hreach⟩ := ofDescription_ok_iff_valid straightWing
  refine ⟨?_, fun h => ?_⟩
  · obtain ⟨s, hs⟩ := (hiff sparWithRibs).1.2 (by decide)
    obtain ⟨-, t, ht, -⟩ := hreach _ ((Reachable.load hs).mutate (.removePosition "tip"))
    exact ⟨s, hs, t, ht⟩
  · have hnodup := ((hiff _).1.1 h).nodup_positions
    exact absurd hnodup (by decide)

end Structure

end WingBox
