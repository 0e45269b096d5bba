import WingBox.Proofs.Structure.Run

/-!
# Renaming does not change geometry

After a part got a name that was not in use, the structure matches what it was, under the naming in
which the old name stands for the new one and every other name for itself.  So every question has
the same answer, if the part is asked for under its new name, or is refused for the same kind of
reason (`Structure.rename_preserves_answers`).  Renaming the part back restores the description.
-/

namespace WingBox

variable {K : Type} {kind k : PartKind} {old new x y : String}

/-! ### A new name -/

namespace Renaming

/-- Only the new name is given twice. -/
theorem single_eq_single_iff (hx : x ≠ new) (hy : y ≠ new) :
    x = y ↔ single kind old new k x = single kind old new k y := by
  refine ⟨congrArg _, fun h => ?_⟩
  unfold single at h
  split_ifs at h with hx' hy' hy'
  · exact hx'.2.trans hy'.2.symm
  · exact absurd h.symm hy
  · exact absurd h hx
  · exact h

/-- Renaming back restores every name but the new one. -/
theorem single_single (hx : x ≠ new) :
    (single kind new old).after (single kind old new) k x = x := by
  by_cases h : k = kind ∧ x = old
  · have hinner : single kind old new k x = new := if_pos h
    rw [after, hinner, h.2]
    exact if_pos ⟨h.1, rfl⟩
  · have hinner : single kind old new k x = x := if_neg h
    rw [after, hinner]
    exact if_neg fun h' => hx h'.2

end Renaming

/-- A part gets a new name: the old one stands for it, and the others stand for themselves. -/
def Naming.single (kind : PartKind) (old new : String) : Naming where
  position x x' := x ≠ new ∧ x' = Renaming.single kind old new .position x
  spar x x' := x ≠ new ∧ x' = Renaming.single kind old new .spar x
  ribs x x' := x ≠ new ∧ x' = Renaming.single kind old new .ribs x
  position_iff := by
    rintro x _ y _ ⟨hx, rfl⟩ ⟨hy, rfl⟩
    exact Renaming.single_eq_single_iff hx hy
  spar_iff := by
    rintro x _ y _ ⟨hx, rfl⟩ ⟨hy, rfl⟩
    exact Renaming.single_eq_single_iff hx hy
  ribs_iff := by
    rintro x _ y _ ⟨hx, rfl⟩ ⟨hy, rfl⟩
    exact Renaming.single_eq_single_iff hx hy

theorem Naming.stands_single (hx : x ≠ new) :
    (Naming.single kind old new).Stands k x (Renaming.single kind old new k x) := by
  cases k <;> exact ⟨hx, rfl⟩

/-- The name is not in use for any kind of part. -/
def Unused (new : String) (names : List PartName) : Prop := ∀ n ∈ names, n.2 ≠ new

theorem Unused.follows {names : List PartName} (h : Unused new names) :
    (Renaming.single kind old new).Follows (.single kind old new) names :=
  fun n hn => Naming.stands_single (h n hn)

/-! ### Questions under new names -/

namespace Question

/-- The names that a question holds. -/
def names {α : Type} : Question K α → List PartName
  | spar uid _ => [(.spar, uid)]
  | ribs uid _ => [(.ribs, uid)]
  | positionPoint uid _ => [(.position, uid)]
  | positionUp uid => [(.position, uid)]
  | line l => l.names
  | lineLength l => l.names
  | linePoint l _ => l.names
  | lineDirection l _ => l.names
  | _ => []

/-- The question under new names. -/
def renamed {α : Type} (ρ : Renaming) : Question K α → Question K α
  | spar uid q => spar (ρ .spar uid) q
  | ribs uid q => ribs (ρ .ribs uid) q
  | positionPoint uid frame => positionPoint (ρ .position uid) frame
  | positionUp uid => positionUp (ρ .position uid)
  | line l => line (l.renamed ρ)
  | lineLength l => lineLength (l.renamed ρ)
  | linePoint l eta => linePoint (l.renamed ρ) eta
  | lineDirection l p => lineDirection (l.renamed ρ) p
  | q => q

theorem match_renamed {α : Type} {N : Naming} {ρ : Renaming} {q : Question K α}
    (h : ρ.Follows N q.names) : q.Match N (q.renamed ρ) := by
  cases q with
  | spar uid q => exact .spar (h _ (List.mem_singleton_self _)) q
  | sparAt index q => exact .sparAt index q
  | ribs uid q => exact .ribs (h _ (List.mem_singleton_self _)) q
  | ribsAt index q => exact .ribsAt index q
  | positionPoint uid frame => exact .positionPoint (h _ (List.mem_singleton_self _)) frame
  | positionUp uid => exact .positionUp (h _ (List.mem_singleton_self _))
  | line l => exact .line (NamedLine.match_renamed h)
  | lineLength l => exact .lineLength (NamedLine.match_renamed h)
  | linePoint l eta => exact .linePoint (NamedLine.match_renamed h) eta
  | lineDirection l p => exact .lineDirection (NamedLine.match_renamed h) p
  | wingGeometry => exact .wingGeometry
  | elementFace uid => exact .elementFace uid

end Question

/-! ### Kinds of refusals -/

/-- The kinds of refusals. -/
inductive Error.Variant where
  /-- A name of some kind names nothing. -/
  | notFound (kind : EntityKind)
  | index
  | geometry
  | config
  | json
deriving DecidableEq

/-- The kind of a refusal. -/
def Error.variant : Error K → Error.Variant
  | .notFound kind _ => .notFound kind
  | .index _ _ _ => .index
  | .geometry _ _ => .geometry
  | .config _ _ => .config
  | .json => .json

theorem Error.Match.variant {N : Naming} {e e' : Error K} (h : e.Match N e') :
    e.variant = e'.variant := by
  cases h <;> rfl

theorem OutcomesMatch.mapError_variant {α : Type} {N : Naming} {r r' : Except (Error K) α}
    (h : OutcomesMatch N Eq r r') : r.mapError Error.variant = r'.mapError Error.variant := by
  cases h with
  | ok h => rw [h]
  | error h => exact congrArg Except.error h.variant

/-! ### Descriptions under new names -/

namespace Description

theorem mem_names_of_mem_uids {d : Description K} (h : x ∈ d.uids k) : (k, x) ∈ d.names := by
  unfold names
  cases k with
  | position =>
    obtain ⟨p, hp, rfl⟩ := List.mem_map.1 h
    exact List.mem_append_left _ (List.mem_append_left _
      (List.mem_flatMap_of_mem hp (List.mem_singleton_self _)))
  | spar =>
    obtain ⟨s, hs, rfl⟩ := List.mem_map.1 h
    exact List.mem_append_left _ (List.mem_append_right _
      (List.mem_flatMap_of_mem hs List.mem_cons_self))
  | ribs =>
    obtain ⟨r, hr, rfl⟩ := List.mem_map.1 h
    exact List.mem_append_right _ (List.mem_flatMap_of_mem hr List.mem_cons_self)

theorem uids_renamed (ρ : Renaming) (d : Description K) (k : PartKind) :
    (d.renamed ρ).uids k = (d.uids k).map (ρ k) := by
  cases k <;> simp only [uids, renamed, List.map_map] <;> rfl

theorem exists_kind? {d : Description K} (h : x ∈ d.uids k) :
    ∃ kind, d.kind? x = some kind ∧ x ∈ d.uids kind := by
  unfold kind?
  split_ifs with hp hs hr
  · exact ⟨_, rfl, hp⟩
  · exact ⟨_, rfl, hs⟩
  · exact ⟨_, rfl, hr⟩
  · cases k <;> contradiction

theorem kind?_of_unique {d : Description K} (h : x ∈ d.uids kind)
    (hother : ∀ k, k ≠ kind → x ∉ d.uids k) : d.kind? x = some kind := by
  obtain ⟨k, hk, hx⟩ := exists_kind? h
  rw [hk]
  by_contra hne
  exact hother k (fun he => hne (congrArg some he)) hx

/-- A part is found under its new name. -/
theorem kind?_renamed {d : Description K} (h : old ∈ d.uids kind) (hfree : ∀ k, new ∉ d.uids k) :
    (d.renamed (.single kind old new)).kind? new = some kind := by
  refine kind?_of_unique ?_ fun k hk => ?_
  · rw [uids_renamed]
    exact List.mem_map.2 ⟨old, h, if_pos ⟨rfl, rfl⟩⟩
  · rw [uids_renamed, List.mem_map]
    rintro ⟨x, hx, hxnew⟩
    rw [Renaming.single_of_ne hk] at hxnew
    exact hfree k (hxnew ▸ hx)

/-- The old name is free again. -/
theorem not_mem_uids_renamed {d : Description K} (hne : old ≠ new) :
    old ∉ (d.renamed (.single kind old new)).uids kind := by
  rw [uids_renamed, List.mem_map]
  rintro ⟨x, -, hxold⟩
  rw [Renaming.single_self] at hxold
  split_ifs at hxold with hx
  · exact hne hxold.symm
  · exact hx hxold

end Description

/-! ### Renaming -/

namespace Structure

variable [Scalar K] {s : Structure K}

/-- Renaming a part to a name that no part of its kind has succeeds. -/
theorem exists_rename (h : s.Reachable) (hkind : s.description.kind? old = some kind)
    (hfree : new ∉ s.description.uids kind) :
    ∃ t, s.mutate (.rename old new) = (.ok (), t) ∧ t.Reachable ∧
      t.design.wing = s.design.wing ∧
      t.description = s.description.renamed (.single kind old new) := by
  have heff := Mutation.effect_rename hkind new
  rw [if_neg hfree] at heff
  exact exists_mutate h heff

/-- **Renaming does not change geometry.**  A part, the first of a name, gets a name that is in use
nowhere, neither as the name of a part nor in a reference.  Then every question has the answer that
it had, or is refused for the same kind of reason, if the part is asked for under its new name; and
the part can be renamed back, which restores the description. -/
theorem rename_preserves_answers (h : s.Reachable) (hold : old ∈ s.description.uids k)
    (hnew : Unused new s.description.names) :
    ∃ kind t, s.description.kind? old = some kind ∧ s.mutate (.rename old new) = (.ok (), t) ∧
      (∀ {α : Type} (q : Question K α), Unused new q.names →
        (t.answer (q.renamed (.single kind old new))).mapError Error.variant =
          (s.answer q).mapError Error.variant) ∧
      ∃ u, t.mutate (.rename new old) = (.ok (), u) ∧ u.description = s.description := by
  obtain ⟨kind, hkind, hmem⟩ := Description.exists_kind? hold
  have hfree (k : PartKind) : new ∉ s.description.uids k := fun hmem =>
    hnew _ (Description.mem_names_of_mem_uids hmem) rfl
  have hne : old ≠ new := fun he => hfree kind (he ▸ hmem)
  obtain ⟨t, ht, htreach, hwing, hdesc⟩ := exists_rename h hkind (hfree kind)
  have hs := sound_of_reachable h
  have hts := sound_of_reachable htreach
  refine ⟨kind, t, hkind, ht, fun q hq => ?_, ?_⟩
  · have hmatch := Design.match_of_renamed hs.valid hts.valid hwing hdesc hnew.follows
    have hquestion : q.Match (.single kind old new) _ := Question.match_renamed hq.follows
    exact ((Query.parallel_question hmatch hquestion).answers hs.coherent
      hts.coherent).mapError_variant.symm
  · have hback : t.description.kind? new = some kind := by
      rw [hdesc]
      exact Description.kind?_renamed hmem hfree
    have holdFree : old ∉ t.description.uids kind := by
      rw [hdesc]
      exact Description.not_mem_uids_renamed hne
    obtain ⟨u, hu, -, -, hudesc⟩ := exists_rename htreach hback holdFree
    refine ⟨u, hu, ?_⟩
    -- renaming back undoes the renaming of every name in use, since none of them is the new one
    rw [hudesc, hdesc, Description.renamed_renamed]
    exact Description.renamed_of_fixed fun n hn => Renaming.single_single (hnew n hn)

/-- A spar position that bounds ribs gets another name. -/
theorem rename_preserves_answers_root :
    ∃ s, ofDescription straightWing sparWithRibs = .ok s ∧
      ∃ kind t, s.description.kind? "root" = some kind ∧
        s.mutate (.rename "root" "inboard") = (.ok (), t) ∧
        (∀ {α : Type} (q : Question Float α), Unused "inboard" q.names →
          (t.answer (q.renamed (.single kind "root" "inboard"))).mapError Error.variant =
            (s.answer q).mapError Error.variant) ∧
        ∃ u, t.mutate (.rename "inboard" "root") = (.ok (), u) ∧
          u.description = s.description := by
  obtain ⟨s, hs⟩ := exists_ofDescription straightWing loadable_sparWithRibs
  obtain ⟨-, -, hdesc, -⟩ := ofDescription_ok hs
  have hdesc : s.description = sparWithRibs := hdesc
  have hold : "root" ∈ s.description.uids .position := by
    rw [hdesc]
    decide
  have hnew : Unused "inboard" s.description.names := by
    rw [hdesc]
    unfold Unused
    decide
  exact ⟨s, hs, rename_preserves_answers (.load hs) hold hnew⟩

end Structure

end WingBox
