import WingBox.Proofs.Structure.Mutation

/-!
# What mutations do to a structure

On a valid design every mutation does what its effect on the description says
(`refines_mutation`).  It is refused with the same error and then changes nothing;
otherwise the new design has the new description and is valid again, and nothing is kept that was
computed for spars or ribs.

The operations of registries are edits of lists first (`Registry.Indexed.add_appended`,
`remove?_dropped`, `get?_replaced`); the mutations follow from these one by one.
-/

namespace WingBox

variable {K : Type}

instance : LawfulNamed (SparPosition K) := ⟨fun _ _ => rfl⟩

instance : LawfulNamed (SparSegment K) := ⟨fun _ _ => rfl⟩

instance : LawfulNamed (RibsDefinition K) := ⟨fun _ _ => rfl⟩

/-! ### Registries as edited lists -/

/-- What holds of every item, and of every edited item, holds after an edit of some items. -/
theorem forall_mem_map_ite {α : Type} {xs : List α} {P : α → Prop} {c : α → Prop}
    [DecidablePred c] {f : α → α} (hxs : ∀ x ∈ xs, P x) (hf : ∀ x ∈ xs, P (f x)) :
    ∀ y ∈ xs.map fun x => if c x then f x else x, P y := by
  intro y hy
  obtain ⟨x, hx, rfl⟩ := List.mem_map.1 hy
  split
  · exact hf x hx
  · exact hxs x hx

namespace Registry.Indexed

variable {α : Type} [Named α] {r : Registry α} (h : r.Indexed)
include h

theorem add_appended (x : α) (taken : Error K) :
    (r.add x = .error x ∧ appended taken r.items x = .error taken) ∨
      ∃ r', r.add x = .ok (r.size, r') ∧ r'.Indexed ∧ r'.items = r.items ++ [x] ∧
        appended taken r.items x = .ok r'.items := by
  by_cases hx : Named.uid x ∈ r.uids
  · exact .inl ⟨h.add_of_mem hx, if_pos hx⟩
  · obtain ⟨r', hadd, hr', hitems⟩ := h.add_of_not_mem hx
    refine .inr ⟨r', hadd, hr', hitems, ?_⟩
    rw [hitems]
    exact if_neg hx

theorem remove?_dropped (uid : String) (missing : Error K) :
    (r.remove? uid = none ∧ dropped missing r.items uid = .error missing) ∨
      ∃ x r', r.remove? uid = some (x, r') ∧ r'.Indexed ∧
        r'.items = (r.items.filter fun y => Named.uid y != uid) ∧
        dropped missing r.items uid = .ok r'.items := by
  by_cases hu : uid ∈ r.uids
  · obtain ⟨x, hx⟩ : ∃ x, r.get? uid = some x := by
      rw [← Option.isSome_iff_exists, Option.isSome_iff_ne_none, ne_eq, h.get?_eq_none_iff, not_not]
      exact hu
    obtain ⟨r', hremove, hr', hitems⟩ := h.remove?_of_get? hx
    refine .inr ⟨x, r', hremove, hr', hitems, ?_⟩
    rw [hitems]
    exact if_pos hu
  · exact .inl ⟨h.remove?_of_not_mem hu, if_neg hu⟩

/-- Editing an item by what the edit makes of it. -/
theorem items_modify_of_get? {uid : String} {x : α} (hx : r.get? uid = some x) (f : α → α) :
    (r.modify uid f).items = r.items.map fun y => if Named.uid y = uid then f x else y := by
  rw [h.items_modify]
  refine List.map_congr_left fun y hy => ?_
  split_ifs with hu
  · have hyx := (h.get?_eq_some_iff.2 ⟨hy, hu⟩).symm.trans hx
    rw [Option.some.inj hyx]
  · rfl

theorem get?_replaced (uid : String) (missing : Error K) (edit : α → Except (Error K) α) :
    (r.get? uid = none ∧ replaced missing r.items uid edit = .error missing) ∨
      ∃ x, r.get? uid = some x ∧ x ∈ r.items ∧ Named.uid x = uid ∧
        replaced missing r.items uid edit =
          (edit x).map fun y => (r.modify uid fun _ => y).items := by
  unfold replaced
  rw [← h.get?_eq_find?]
  cases hx : r.get? uid with
  | none => exact .inl ⟨rfl, rfl⟩
  | some x =>
    obtain ⟨hmem, hu⟩ := h.get?_eq_some_iff.1 hx
    refine .inr ⟨x, rfl, hmem, hu, ?_⟩
    dsimp only
    cases edit x with
    | error e => rfl
    | ok y => exact congrArg Except.ok (h.items_modify_of_get? hx fun _ => y).symm

end Registry.Indexed

/-! ### Valid designs -/

/-- The description of a design. -/
def Design.description (d : Design K) : Description K :=
  ⟨d.positions.items, d.spars.items, d.ribs.items.map (·.declaration)⟩

theorem SparSegment.eq_of_check {s t : SparSegment K} (h : s.check = .ok t) : t = s := by
  unfold check at h
  split at h
  · cases h
  · exact (Except.ok.inj h).symm

theorem SparSegment.check_eq_ok_iff {s : SparSegment K} :
    s.check = .ok s ↔ 2 ≤ s.positionUids.length := by
  unfold check
  split
  · exact ⟨nofun, fun h => by omega⟩
  · exact ⟨fun _ => by omega, fun _ => rfl⟩

theorem SparSegment.check_renamePosition (old new : String) {s : SparSegment K}
    (h : s.check = .ok s) : (s.renamePosition old new).check = .ok (s.renamePosition old new) := by
  rw [check_eq_ok_iff] at h ⊢
  rwa [renamePosition, List.length_map]

theorem RibsDefinition.uid_declaration (r : RibsDefinition K) :
    Named.uid r.declaration = Named.uid r := rfl

variable [Scalar K]

/-- Every part of a design is found by its name, and every spar and all ribs pass their check. -/
structure Design.Valid (d : Design K) : Prop extends d.Indexed where
  /-- The spars pass their check. -/
  checked_spars : ∀ s ∈ d.spars.items, s.check = .ok s
  /-- The ribs pass their check. -/
  checked_ribs : ∀ r ∈ d.ribs.items, r.declaration.check = .ok r

/-- Ribs with one placing pass their check if there is no fault in the number of ribs. -/
theorem RibsDeclaration.check_of_ok {d : RibsDeclaration K} {p : RibPlacement K}
    (h : d.positioning = .ok p) :
    d.check = (countFault? p).elim (.ok ⟨d.uid, p, d.crossSection⟩)
      fun fault => .error (.config d.uid fault) := by
  rw [check, h, ok_bind]
  cases countFault? p <;> rfl

/-- Ribs that passed their check are declared as they were. -/
theorem RibsDeclaration.declaration_of_check {d : RibsDeclaration K} {r : RibsDefinition K}
    (h : d.check = .ok r) : r.declaration = d := by
  have hplaced (p : RibPlacement K) (hp : d.positioning = .ok p) :
      r = ⟨d.uid, p, d.crossSection⟩ := by
    rw [check_of_ok hp] at h
    cases hcount : countFault? p with
    | none =>
      rw [hcount] at h
      exact (Except.ok.inj h).symm
    | some fault =>
      rw [hcount] at h
      cases h
  obtain ⟨uid, set, rib, crossSection⟩ := d
  cases set <;> cases rib
  case none.none => cases h
  case some.some => cases h
  case some.none s => rw [hplaced (.set s) rfl]; rfl
  case none.some e => rw [hplaced (.explicit e) rfl]; rfl

/-- The declaration of ribs passes its check if there is no fault in the number of ribs. -/
theorem RibsDefinition.check_declaration_iff {r : RibsDefinition K} :
    r.declaration.check = .ok r ↔ RibsDeclaration.countFault? r.positioning = none := by
  have hp : r.declaration.positioning = .ok r.positioning := by
    obtain ⟨uid, p, crossSection⟩ := r
    cases p <;> rfl
  have hr : ⟨r.declaration.uid, r.positioning, r.declaration.crossSection⟩ = r := rfl
  rw [RibsDeclaration.check_of_ok hp, hr]
  cases RibsDeclaration.countFault? r.positioning <;> simp

theorem RibsDefinition.check_renamePosition (old new : String) {r : RibsDefinition K}
    (h : r.declaration.check = .ok r) :
    (r.renamePosition old new).declaration.check = .ok (r.renamePosition old new) := by
  rw [check_declaration_iff] at h ⊢
  obtain ⟨uid, p, crossSection⟩ := r
  cases p <;> exact h

theorem RibsDefinition.check_renameSpar (old new : String) {r : RibsDefinition K}
    (h : r.declaration.check = .ok r) :
    (r.renameSpar old new).declaration.check = .ok (r.renameSpar old new) := by
  rw [check_declaration_iff] at h ⊢
  obtain ⟨uid, p, crossSection⟩ := r
  cases p <;> exact h

/-- What a step does to a structure, against what it is meant to do to the description. -/
inductive Refines (s : Structure K) :
    Except (Error K) Unit × Structure K → Except (Error K) (Description K) → Prop
  /-- A step that is refused changes nothing. -/
  | refused (e : Error K) : Refines s (.error e, s) (.error e)
  /-- Another step changes the design and drops what was computed. -/
  | done {d : Design K} (hvalid : d.Valid) (hwing : d.wing = s.design.wing) :
    Refines s (.ok (), ⟨d, s.store.invalidated⟩) (.ok d.description)

theorem Refines.of_description {s : Structure K} {d : Design K} {desc : Description K}
    (hvalid : d.Valid) (hwing : d.wing = s.design.wing) (hdesc : d.description = desc) :
    Refines s (.ok (), ⟨d, s.store.invalidated⟩) (.ok desc) :=
  hdesc ▸ .done hvalid hwing

/-! ### Adding -/

section Steps

variable {s : Structure K} (h : s.design.Valid)
include h

theorem refines_addPosition (p : SparPosition K) :
    Refines s ((Structure.addPosition p).outcome s)
      ((Mutation.addPosition p).effect s.design.description) := by
  unfold Structure.addPosition Mutation.effect
  rw [Edit.outcome_get_bind]
  dsimp only [Design.description]
  obtain ⟨hadd, heff⟩ | ⟨r', hadd, hr', hitems, heff⟩ :=
    h.positions.add_appended p (.config p.uid .duplicatePosition)
  · rw [hadd, heff]
    exact .refused _
  · rw [hadd, heff]
    exact .done { h with positions := hr' } rfl

theorem refines_addSpar (spar : SparSegment K) :
    Refines s ((Structure.addSpar spar).outcome s)
      ((Mutation.addSpar spar).effect s.design.description) := by
  unfold Structure.addSpar Mutation.effect
  rw [Edit.outcome_get_bind]
  dsimp only [Design.description]
  rw [Edit.outcome_ofExcept_bind]
  cases hcheck : spar.check with
  | error e => exact .refused e
  | ok t =>
    obtain rfl := SparSegment.eq_of_check hcheck
    dsimp only
    rw [ok_bind]
    obtain ⟨hadd, heff⟩ | ⟨r', hadd, hr', hitems, heff⟩ :=
      h.spars.add_appended t (.config t.uid .duplicateSpar)
    · rw [hadd, heff]
      exact .refused _
    · rw [hadd, heff]
      refine .done { h with spars := hr', checked_spars := ?_ } rfl
      intro s' hs'
      rcases List.mem_append.1 (hitems ▸ hs') with hold | hnew
      · exact h.checked_spars s' hold
      · rw [List.mem_singleton.1 hnew, hcheck]

theorem refines_addRibs (r : RibsDeclaration K) :
    Refines s ((Structure.addRibs r).outcome s)
      ((Mutation.addRibs r).effect s.design.description) := by
  unfold Structure.addRibs Mutation.effect
  rw [Edit.outcome_get_bind]
  dsimp only [Design.description]
  rw [Edit.outcome_ofExcept_bind]
  cases hcheck : r.check with
  | error e => exact .refused e
  | ok t =>
    obtain rfl := RibsDeclaration.declaration_of_check hcheck
    dsimp only
    rw [ok_bind]
    -- the effect appends the declaration, the structure the ribs it stands for
    have hmap : appended (.config t.declaration.uid .duplicateRibs : Error K)
        (s.design.ribs.items.map (·.declaration)) t.declaration = _ :=
      appended_map RibsDefinition.uid_declaration (.config t.uid .duplicateRibs) _ t
    rw [hmap]
    obtain ⟨hadd, heff⟩ | ⟨r', hadd, hr', hitems, heff⟩ :=
      h.ribs.add_appended t (.config t.uid .duplicateRibs)
    · rw [hadd, heff]
      exact .refused _
    · rw [hadd, heff]
      refine .done { h with ribs := hr', checked_ribs := ?_ } rfl
      intro t' ht'
      rcases List.mem_append.1 (hitems ▸ ht') with hold | hnew
      · exact h.checked_ribs t' hold
      · rw [List.mem_singleton.1 hnew, hcheck]

/-! ### Removing -/

theorem refines_removePosition (uid : String) :
    Refines s ((Mutation.removePosition uid).edit.outcome s)
      ((Mutation.removePosition uid).effect s.design.description) := by
  unfold Mutation.edit Structure.removePosition Mutation.effect
  simp only [bind_assoc]
  rw [Edit.outcome_get_bind]
  dsimp only [Design.description]
  rw [Edit.outcome_require_bind]
  obtain ⟨hremove, heff⟩ | ⟨p, r', hremove, hr', hitems, heff⟩ :=
    h.positions.remove?_dropped uid (.notFound .sparPosition uid)
  · rw [hremove, heff]
    exact .refused _
  · rw [hremove, heff]
    exact .done { h with positions := hr' } rfl

theorem refines_removeSpar (uid : String) :
    Refines s ((Mutation.removeSpar uid).edit.outcome s)
      ((Mutation.removeSpar uid).effect s.design.description) := by
  unfold Mutation.edit Structure.removeSpar Mutation.effect
  simp only [bind_assoc]
  rw [Edit.outcome_get_bind]
  dsimp only [Design.description]
  rw [Edit.outcome_require_bind]
  obtain ⟨hremove, heff⟩ | ⟨spar, r', hremove, hr', hitems, heff⟩ :=
    h.spars.remove?_dropped uid (.notFound .sparSegment uid)
  · rw [hremove, heff]
    exact .refused _
  · rw [hremove, heff]
    refine .done { h with spars := hr', checked_spars := fun s' hs' => ?_ } rfl
    exact h.checked_spars s' (List.mem_of_mem_filter (hitems ▸ hs'))

theorem refines_removeRibs (uid : String) :
    Refines s ((Mutation.removeRibs uid).edit.outcome s)
      ((Mutation.removeRibs uid).effect s.design.description) := by
  unfold Mutation.edit Structure.removeRibs Mutation.effect
  simp only [bind_assoc]
  rw [Edit.outcome_get_bind]
  dsimp only [Design.description]
  rw [Edit.outcome_require_bind, dropped_map RibsDefinition.uid_declaration]
  obtain ⟨hremove, heff⟩ | ⟨r, r', hremove, hr', hitems, heff⟩ :=
    h.ribs.remove?_dropped uid (.notFound .ribsDefinition uid)
  · rw [hremove, heff]
    exact .refused _
  · rw [hremove, heff]
    refine .done { h with ribs := hr', checked_ribs := fun t ht => ?_ } rfl
    exact h.checked_ribs t (List.mem_of_mem_filter (hitems ▸ ht))

/-! ### Updating -/

theorem refines_updatePosition (uid : String) (edit : SparPosition K → SparPosition K) :
    Refines s ((Structure.updatePosition uid edit).outcome s)
      ((Mutation.updatePosition uid edit).effect s.design.description) := by
  unfold Structure.updatePosition Mutation.effect Description.withPosition
  rw [Edit.outcome_get_bind]
  dsimp only [Design.description]
  rw [Edit.outcome_require_bind]
  obtain ⟨hget, heff⟩ | ⟨p, hget, hmem, hu, heff⟩ :=
    h.positions.get?_replaced uid (.notFound .sparPosition uid) (keepingUid uid edit)
  · rw [hget, heff]
    exact .refused _
  · rw [hget, heff]
    dsimp only
    rw [Edit.outcome_checkUid_bind]
    by_cases hedit : (edit p).uid = uid
    · rw [if_pos hedit, keepingUid_of_eq hedit]
      have hr := h.positions.modify (f := fun _ => edit p) fun _ _ _ => hedit
      exact .done { h with positions := hr } rfl
    · -- an edit that changes the name is refused before anything is stored
      rw [if_neg hedit, keepingUid_of_ne hedit]
      exact .refused _

/-- An edit that is known to keep the name is not checked for that. -/
theorem refines_setPosition (uid : String) {edit : SparPosition K → SparPosition K}
    (hedit : ∀ p, (edit p).uid = p.uid) :
    Refines s ((Structure.updatePosition uid edit).outcome s)
      (s.design.description.withPosition uid fun p => .ok (edit p)) := by
  have hkeeps (p : SparPosition K) (hp : Named.uid p = uid) :
      keepingUid (K := K) uid edit p = .ok (edit p) := keepingUid_of_eq ((hedit p).trans hp)
  rw [Description.withPosition, ← replaced_congr hkeeps]
  exact refines_updatePosition h uid edit

theorem refines_updateSpar (uid : String) (edit : SparSegment K → SparSegment K) :
    Refines s ((Structure.updateSpar uid edit).outcome s)
      ((Mutation.updateSpar uid edit).effect s.design.description) := by
  unfold Structure.updateSpar Mutation.effect Description.withSpar
  rw [Edit.outcome_get_bind]
  dsimp only [Design.description]
  rw [Edit.outcome_require_bind]
  obtain ⟨hget, heff⟩ | ⟨spar, hget, hmem, hu, heff⟩ :=
    h.spars.get?_replaced uid (.notFound .sparSegment uid)
      fun s => do (← keepingUid uid edit s).check
  · rw [hget, heff]
    exact .refused _
  · rw [hget, heff]
    dsimp only
    rw [Edit.outcome_checkUid_bind]
    by_cases hedit : (edit spar).uid = uid
    · rw [if_pos hedit, keepingUid_of_eq hedit, ok_bind, Edit.outcome_ofExcept_bind]
      cases hcheck : (edit spar).check with
      | error e => exact .refused e
      | ok t =>
        obtain rfl := SparSegment.eq_of_check hcheck
        have hr := h.spars.modify (f := fun _ => edit spar) fun _ _ _ => hedit
        refine .done { h with spars := hr, checked_spars := ?_ } rfl
        rw [h.spars.items_modify]
        exact forall_mem_map_ite h.checked_spars fun _ _ => hcheck
    · rw [if_neg hedit, keepingUid_of_ne hedit]
      exact .refused _

theorem refines_updateRibs (uid : String) (edit : RibsDeclaration K → RibsDeclaration K) :
    Refines s ((Structure.updateRibs uid edit).outcome s)
      ((Mutation.updateRibs uid edit).effect s.design.description) := by
  -- the effect edits declarations, the design holds what they become when they are checked
  have hcheck (r : RibsDefinition K) :
      (do
        let edited ← keepingUid uid edit r.declaration
        let _ ← edited.check
        return edited : Except (Error K) (RibsDeclaration K)) =
      Except.map RibsDefinition.declaration
        (do (← keepingUid uid edit r.declaration).check : Except (Error K) (RibsDefinition K)) := by
    cases keepingUid (K := K) uid edit r.declaration with
    | error e => rfl
    | ok edited =>
      rw [ok_bind, ok_bind]
      cases hcheck : edited.check with
      | error e => rfl
      | ok t => exact congrArg Except.ok (RibsDeclaration.declaration_of_check hcheck).symm
  unfold Structure.updateRibs Mutation.effect Description.withRibs
  rw [Edit.outcome_get_bind]
  dsimp only [Design.description]
  rw [Edit.outcome_require_bind, replaced_map RibsDefinition.uid_declaration _ _ _ hcheck]
  obtain ⟨hget, heff⟩ | ⟨r, hget, hmem, hu, heff⟩ :=
    h.ribs.get?_replaced uid (.notFound .ribsDefinition uid)
      fun r => do (← keepingUid uid edit r.declaration).check
  · rw [hget, heff]
    exact .refused _
  · rw [hget, heff]
    dsimp only
    rw [Edit.outcome_checkUid_bind]
    by_cases hedit : (edit r.declaration).uid = uid
    · rw [if_pos hedit, keepingUid_of_eq hedit, ok_bind, Edit.outcome_ofExcept_bind]
      cases hchecked : (edit r.declaration).check with
      | error e => exact .refused e
      | ok t =>
        have ht : t.declaration = edit r.declaration :=
          RibsDeclaration.declaration_of_check hchecked
        have htu : Named.uid t = uid := (congrArg RibsDeclaration.uid ht).trans hedit
        have hr := h.ribs.modify (f := fun _ => t) fun _ _ _ => htu
        refine .done { h with ribs := hr, checked_ribs := ?_ } rfl
        rw [h.ribs.items_modify]
        refine forall_mem_map_ite h.checked_ribs fun _ _ => ?_
        rw [ht, hchecked]
    · rw [if_neg hedit, keepingUid_of_ne hedit]
      exact .refused _

theorem refines_setRibRotation (uid : String) (degrees : K) :
    Refines s ((Structure.setRibRotation uid degrees).outcome s)
      ((Mutation.setRibRotation uid degrees).effect s.design.description) := by
  let turn (r : RibsDefinition K) : RibsDefinition K :=
    { r with crossSection := { r.crossSection with xRotation := degrees } }
  have hturn (r : RibsDefinition K) : Except.ok (ε := Error K) { r.declaration with
      crossSection := { r.declaration.crossSection with xRotation := degrees } } =
      Except.map RibsDefinition.declaration (.ok (turn r)) := rfl
  unfold Structure.setRibRotation Mutation.effect Description.withRibs
  rw [Edit.outcome_get_bind]
  dsimp only [Design.description]
  rw [Edit.outcome_require_bind, replaced_map RibsDefinition.uid_declaration _ _ _ hturn]
  obtain ⟨hget, heff⟩ | ⟨r, hget, hmem, hu, heff⟩ :=
    h.ribs.get?_replaced uid (.notFound .ribsDefinition uid) fun r => .ok (turn r)
  · rw [hget, heff]
    exact .refused _
  · have hitems : (s.design.ribs.modify uid fun _ => turn r).items =
        (s.design.ribs.modify uid turn).items :=
      (h.ribs.items_modify_of_get? hget _).trans (h.ribs.items_modify_of_get? hget turn).symm
    have hr : (s.design.ribs.modify uid turn).Indexed := h.ribs.modify fun _ _ hu => hu
    rw [hget, heff, Except.map, hitems]
    refine .done { h with ribs := hr, checked_ribs := ?_ } rfl
    rw [h.ribs.items_modify]
    -- the check reads the placement only, which a rotation keeps
    refine forall_mem_map_ite h.checked_ribs fun r' hr' => ?_
    have hcheck := RibsDefinition.check_declaration_iff.1 (h.checked_ribs r' hr')
    exact RibsDefinition.check_declaration_iff.2 hcheck

/-! ### Renaming -/

theorem refines_renamePosition {old new : String} (hold : old ∈ s.design.positions.uids) :
    Refines s ((Structure.rename old new).outcome s)
      ((Mutation.rename old new).effect s.design.description) := by
  have hcontains : s.design.positions.contains old := h.positions.contains_iff.2 hold
  have hkind : s.design.description.kind? old = some .position := if_pos hold
  have huids : s.design.description.uids .position = s.design.positions.uids := rfl
  rw [Mutation.effect_rename hkind, huids, Structure.rename, Edit.outcome_get_bind]
  dsimp only
  rw [if_pos hcontains, Edit.outcome_require_bind]
  by_cases hnew : new ∈ s.design.positions.uids
  · rw [h.positions.rename?_of_taken hnew, if_pos hnew]
    exact .refused _
  · obtain ⟨r', hrename, hr', hitems⟩ := h.positions.rename?_of_mem hold hnew
    rw [hrename, if_neg hnew]
    refine .of_description ?_ rfl ?_
    · exact {
        positions := hr'
        spars := h.spars.modifyAll fun _ _ => rfl
        ribs := h.ribs.modifyAll fun _ _ => rfl
        checked_spars := List.forall_mem_map.2 fun spar hspar =>
          SparSegment.check_renamePosition old new (h.checked_spars spar hspar)
        checked_ribs := List.forall_mem_map.2 fun r hr =>
          RibsDefinition.check_renamePosition old new (h.checked_ribs r hr) }
    · rw [Design.description, Description.renamed, Description.mk.injEq]
      refine ⟨?_, ?_, ?_⟩
      · rw [hitems]
        exact List.map_congr_left fun p _ => (p.renamed_single old new).symm
      · exact List.map_congr_left fun spar _ => spar.renamePosition_eq old new
      · dsimp only [Registry.modifyAll, Design.description]
        rw [List.map_map, List.map_map]
        exact List.map_congr_left fun r _ => r.declaration_renamePosition old new

theorem refines_renameSpar {old new : String} (hposition : old ∉ s.design.positions.uids)
    (hold : old ∈ s.design.spars.uids) :
    Refines s ((Structure.rename old new).outcome s)
      ((Mutation.rename old new).effect s.design.description) := by
  have hcontains : s.design.spars.contains old := h.spars.contains_iff.2 hold
  have hkind : s.design.description.kind? old = some .spar := (if_neg hposition).trans (if_pos hold)
  have huids : s.design.description.uids .spar = s.design.spars.uids := rfl
  rw [Mutation.effect_rename hkind, huids, Structure.rename, Edit.outcome_get_bind]
  dsimp only
  rw [if_neg (mt h.positions.contains_iff.1 hposition), if_pos hcontains, Edit.outcome_require_bind]
  by_cases hnew : new ∈ s.design.spars.uids
  · rw [h.spars.rename?_of_taken hnew, if_pos hnew]
    exact .refused _
  · obtain ⟨r', hrename, hr', hitems⟩ := h.spars.rename?_of_mem hold hnew
    rw [hrename, if_neg hnew]
    refine .of_description ?_ rfl ?_
    · refine { h with
        spars := hr'
        ribs := h.ribs.modifyAll fun _ _ => rfl
        checked_spars := ?_
        checked_ribs := List.forall_mem_map.2 fun r hr =>
          RibsDefinition.check_renameSpar old new (h.checked_ribs r hr) }
      rw [hitems]
      refine forall_mem_map_ite h.checked_spars fun spar hspar => ?_
      have hcheck := SparSegment.check_eq_ok_iff.1 (h.checked_spars spar hspar)
      exact SparSegment.check_eq_ok_iff.2 hcheck
    · rw [Design.description, Description.renamed, Description.mk.injEq]
      refine ⟨?_, ?_, ?_⟩
      · -- positions do not name spars
        simp only [SparPosition.renamed_single_of_ne (show PartKind.position ≠ .spar by decide),
          List.map_id', Design.description]
      · rw [hitems]
        exact List.map_congr_left fun spar _ => (spar.renamed_single old new).symm
      · dsimp only [Registry.modifyAll, Design.description]
        rw [List.map_map, List.map_map]
        exact List.map_congr_left fun r _ => r.declaration_renameSpar old new

theorem refines_renameRibs {old new : String} (hposition : old ∉ s.design.positions.uids)
    (hspar : old ∉ s.design.spars.uids) (hold : old ∈ s.design.ribs.uids) :
    Refines s ((Structure.rename old new).outcome s)
      ((Mutation.rename old new).effect s.design.description) := by
  have hcontains : s.design.ribs.contains old := h.ribs.contains_iff.2 hold
  have huids : s.design.description.uids .ribs = s.design.ribs.uids :=
    map_uid_map RibsDefinition.uid_declaration s.design.ribs.items
  have hkind : s.design.description.kind? old = some .ribs := by
    refine (if_neg hposition).trans ((if_neg hspar).trans (if_pos ?_))
    rw [huids]
    exact hold
  rw [Mutation.effect_rename hkind, huids, Structure.rename, Edit.outcome_get_bind]
  dsimp only
  rw [if_neg (mt h.positions.contains_iff.1 hposition), if_neg (mt h.spars.contains_iff.1 hspar),
    if_pos hcontains, Edit.outcome_require_bind]
  by_cases hnew : new ∈ s.design.ribs.uids
  · rw [h.ribs.rename?_of_taken hnew, if_pos hnew]
    exact .refused _
  · obtain ⟨r', hrename, hr', hitems⟩ := h.ribs.rename?_of_mem hold hnew
    rw [hrename, if_neg hnew]
    refine .of_description ?_ rfl ?_
    · refine { h with ribs := hr', checked_ribs := ?_ }
      rw [hitems]
      refine forall_mem_map_ite h.checked_ribs fun r hr => ?_
      have hcheck := RibsDefinition.check_declaration_iff.1 (h.checked_ribs r hr)
      exact RibsDefinition.check_declaration_iff.2 hcheck
    · rw [Design.description, Description.renamed, Description.mk.injEq]
      refine ⟨?_, ?_, ?_⟩
      · -- nothing but the ribs themselves has their name
        simp only [SparPosition.renamed_single_of_ne (show PartKind.position ≠ .ribs by decide),
          List.map_id', Design.description]
      · simp only [SparSegment.renamed_ribs, List.map_id', Design.description]
      · dsimp only [Design.description]
        rw [hitems, List.map_map, List.map_map]
        exact List.map_congr_left fun r _ => r.declaration_renameRibs old new

theorem refines_rename (old new : String) :
    Refines s ((Structure.rename old new).outcome s)
      ((Mutation.rename old new).effect s.design.description) := by
  by_cases hposition : old ∈ s.design.positions.uids
  · exact refines_renamePosition h hposition
  by_cases hspar : old ∈ s.design.spars.uids
  · exact refines_renameSpar h hposition hspar
  by_cases hribs : old ∈ s.design.ribs.uids
  · exact refines_renameRibs h hposition hspar hribs
  -- no part has the old name
  have huids : old ∉ s.design.description.uids .ribs := by
    rwa [show s.design.description.uids .ribs = s.design.ribs.uids from
      map_uid_map RibsDefinition.uid_declaration s.design.ribs.items]
  have hkind : s.design.description.kind? old = none :=
    (if_neg hposition).trans ((if_neg hspar).trans (if_neg huids))
  have heff : (Mutation.rename old new).effect s.design.description =
      .error (.notFound .entity old) := by
    simp only [Mutation.effect, hkind]
  rw [heff, Structure.rename, Edit.outcome_get_bind]
  dsimp only
  rw [if_neg (mt h.positions.contains_iff.1 hposition), if_neg (mt h.spars.contains_iff.1 hspar),
    if_neg (mt h.ribs.contains_iff.1 hribs)]
  exact .refused _

/-! ### All mutations -/

/-- A mutation of a valid design does what its effect on the description says. -/
theorem refines_mutation (m : Mutation K) :
    Refines s (m.edit.outcome s) (m.effect s.design.description) := by
  cases m with
  | addPosition p => exact refines_addPosition h p
  | addSpar spar => exact refines_addSpar h spar
  | addRibs r => exact refines_addRibs h r
  | removePosition uid => exact refines_removePosition h uid
  | removeSpar uid => exact refines_removeSpar h uid
  | removeRibs uid => exact refines_removeRibs h uid
  | updatePosition uid edit => exact refines_updatePosition h uid edit
  | updateSpar uid edit => exact refines_updateSpar h uid edit
  | updateRibs uid edit => exact refines_updateRibs h uid edit
  | setPositionEta uid eta => exact refines_setPosition h uid fun _ => rfl
  | setPositionXsi uid xsi => exact refines_setPosition h uid fun _ => rfl
  | setPositionElement uid element => exact refines_setPosition h uid fun _ => rfl
  | setRibRotation uid degrees => exact refines_setRibRotation h uid degrees
  | rename old new => exact refines_rename h old new

end Steps

end WingBox
