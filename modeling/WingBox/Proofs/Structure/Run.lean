import WingBox.Proofs.Structure.Load
import WingBox.Proofs.Structure.Question

/-!
# Runs of structures

A structure is `Structure.Reachable` if it is loaded from a description and then goes through any
number of mutations, invalidations and questions, whether they are refused or not.

* `Structure.sound_of_reachable`: the design of a reachable structure is valid, and its store holds
  what the builders give for this design;
* `Structure.answer_eq_reloaded`: so it answers every question as a structure does that has just
  been loaded from its description;
* `Structure.mutate_refines`: a mutation of a reachable structure is an edit of its description, or
  is refused and changes nothing.
-/

namespace WingBox

variable {K : Type} [Scalar K]

/-! ### Designs of renamed descriptions -/

namespace Design

variable {N : Naming} {ρ : Renaming} {d d' : Design K}

/-- Designs match if the description of one is that of the other under new names. -/
theorem match_of_renamed (h : d.Valid) (h' : d'.Valid) (hwing : d'.wing = d.wing)
    (hdesc : d'.description = d.description.renamed ρ) (hN : ρ.Follows N d.description.names) :
    d.Match N d' := by
  rw [description, description, Description.renamed, Description.mk.injEq] at hdesc
  obtain ⟨hpositions, hspars, hribs⟩ := hdesc
  simp only [Description.names, Renaming.follows_append] at hN
  obtain ⟨⟨hNpositions, hNspars⟩, hNribs⟩ := hN
  refine {
    indexed := h.toIndexed
    indexed' := h'.toIndexed
    wing := hwing
    positions := ?_
    spars := ?_
    ribs := ?_ }
  · rw [hpositions, List.forall₂_map_right_iff, List.forall₂_same]
    exact fun p hp => SparPosition.match_renamed fun n hn =>
      hNpositions n (List.mem_flatMap_of_mem hp hn)
  · rw [hspars, List.forall₂_map_right_iff, List.forall₂_same]
    exact fun s hs => SparSegment.match_renamed fun n hn =>
      hNspars n (List.mem_flatMap_of_mem hs hn)
  · -- descriptions hold the declarations of the ribs, designs what these stand for
    have hdecl : List.Forall₂ (fun r r' => r'.declaration = r.declaration.renamed ρ)
        d.ribs.items d'.ribs.items := by
      rw [List.map_map, ← List.forall₂_eq_eq_eq, List.forall₂_map_left_iff,
        List.forall₂_map_right_iff] at hribs
      exact hribs.flip
    obtain ⟨hlength, hzip⟩ := List.forall₂_iff_zip.1 hdecl
    refine List.forall₂_iff_zip.2 ⟨hlength, fun hmem => ?_⟩
    refine RibsDefinition.match_of_declaration (hzip hmem) fun n hn => hNribs n ?_
    exact List.mem_flatMap_of_mem (List.mem_map_of_mem (List.of_mem_zip hmem).1) hn

/-- Designs of one description match under the same names. -/
theorem match_same (h : d.Valid) (h' : d'.Valid) (hwing : d'.wing = d.wing)
    (hdesc : d'.description = d.description) : d.Match .same d' := by
  -- the renaming that keeps all names
  refine match_of_renamed (ρ := fun _ x => x) h h' hwing ?_ ?_
  · rw [hdesc, Description.renamed_of_fixed fun _ _ => rfl]
  · rintro ⟨k, x⟩ -
    cases k <;> rfl

end Design

/-! ### Runs -/

namespace Structure

/-- What a mutation says, and what it leaves behind. -/
def mutate (s : Structure K) (m : Mutation K) : Except (Error K) Unit × Structure K :=
  m.edit.outcome s

/-- What the structure answers to a question. -/
def answer {α : Type} (s : Structure K) (q : Question K α) : Except (Error K) α :=
  ((ask q.query).outcome s).1

/-- The structure after it answered a question. -/
def asked {α : Type} (s : Structure K) (q : Question K α) : Structure K :=
  ((ask q.query).outcome s).2

/-- The structure without the geometry of spars and ribs. -/
def invalidated (s : Structure K) : Structure K := (Edit.outcome invalidate s).2

/-- A structure that is loaded and then mutated, invalidated and asked at will. -/
inductive Reachable : Structure K → Prop
  /-- It is loaded from a description. -/
  | load {wing : Wing K} {desc : Description K} {s : Structure K}
    (h : ofDescription wing desc = .ok s) : Reachable s
  /-- It goes through a mutation, which may be refused. -/
  | mutate {s : Structure K} (h : Reachable s) (m : Mutation K) : Reachable (s.mutate m).2
  /-- It is invalidated. -/
  | invalidate {s : Structure K} (h : Reachable s) : Reachable s.invalidated
  /-- It is asked, and may have no answer. -/
  | ask {α : Type} {s : Structure K} (h : Reachable s) (q : Question K α) : Reachable (s.asked q)

/-- The design is valid and the store holds what the builders give for it. -/
structure Sound (s : Structure K) : Prop where
  /-- The design is valid. -/
  valid : s.design.Valid
  /-- The store belongs to the design. -/
  coherent : s.store.Coherent s.design

namespace Sound

variable {s : Structure K}

/-- The surfaces of a wing do not depend on the other parts. -/
theorem coherent_invalidated {d : Design K} (h : s.Sound) (hwing : d.wing = s.design.wing) :
    s.store.invalidated.Coherent d := by
  refine Store.coherent_invalidated fun v hv => ?_
  have hbuilt := h.coherent.wing v hv
  rw [← hwing] at hbuilt
  -- what the store holds was built, so the surfaces are no error
  generalize d.wing.geometry = r at hbuilt
  cases r with
  | error e => cases hbuilt
  | ok g => exact hbuilt

theorem mutate (h : s.Sound) (m : Mutation K) : (s.mutate m).2.Sound := by
  have hm := refines_mutation h.valid m
  unfold Structure.mutate
  generalize m.edit.outcome s = out, m.effect s.design.description = eff at hm
  cases hm with
  | refused e => exact h
  | done hvalid hwing => exact ⟨hvalid, h.coherent_invalidated hwing⟩

theorem invalidate (h : s.Sound) : s.invalidated.Sound :=
  ⟨h.valid, h.coherent_invalidated rfl⟩

theorem ask {α : Type} (h : s.Sound) (q : Question K α) : (s.asked q).Sound := by
  have hmatch := Design.match_same h.valid h.valid rfl rfl
  exact ⟨h.valid, (Query.parallel_question hmatch q.match_same).coherent h.coherent⟩

theorem load {wing : Wing K} {desc : Description K} (h : ofDescription wing desc = .ok s) :
    s.Sound := by
  obtain ⟨hvalid, -, -, hstore⟩ := ofDescription_ok h
  refine ⟨hvalid, ?_⟩
  rw [hstore]
  exact Store.coherent_empty

end Sound

theorem sound_of_reachable {s : Structure K} (h : s.Reachable) : s.Sound := by
  induction h with
  | load h => exact .load h
  | mutate _ m ih => exact ih.mutate m
  | invalidate _ ih => exact ih.invalidate
  | ask _ q ih => exact ih.ask q

/-! ### A wing with one spar -/

/-- A straight wing. -/
def straightWing : Wing Float where
  uid := "wing"
  sections := [⟨"inner", ⟨0, 0, 0⟩, 1, 0.1⟩, ⟨"outer", ⟨0, 10, 0⟩, 1, 0.1⟩]
  two_le_length := by decide
  profile := hexagon
  trailingIndex := 3
  transformation := Transform.identity

/-- A spar from end to end with ribs along it. -/
def sparWithRibs : Description Float where
  sparPositions := [⟨"root", .eta 0, 0.3⟩, ⟨"tip", .elementUid "outer", 0.4⟩]
  sparSegments := [⟨"front", ["root", "tip"], .plain⟩]
  ribsDefinitions := [{
    uid := "ribs"
    ribsPositioning := some {
      ribReference := .spar "front"
      start := .sparPositionUid "root"
      stop := .eta 1
      ribStart := .leadingEdge
      ribEnd := .spar "front"
      count := .numberOfRibs 4
      crossing := .cross
      rotation := ⟨90, some (.line (.spar "front"))⟩ }
    explicitPositioning := none
    crossSection := .plain }]

theorem loadable_sparWithRibs : sparWithRibs.Loadable where
  nodup_uids kind := by cases kind <;> decide
  checked_spars := by
    intro s hs
    obtain rfl := List.mem_singleton.1 hs
    rfl
  checked_ribs := by
    intro r hr
    obtain rfl := List.mem_singleton.1 hr
    exact ⟨_, rfl⟩

/-! ### Answers -/

/-- **Answers do not depend on what was asked or changed before.**  Everything that is kept is what
its builder gives for the present definitions, and every question is answered as by a structure
that has just been loaded from the present description. -/
theorem answer_eq_reloaded {s : Structure K} (h : s.Reachable) :
    s.store.Coherent s.design ∧
      ∃ t, ofDescription s.design.wing s.description = .ok t ∧ t.store = .empty ∧
        ∀ {α : Type} (q : Question K α), s.answer q = t.answer q := by
  have hs := sound_of_reachable h
  obtain ⟨t, ht⟩ := exists_ofDescription s.design.wing hs.valid.loadable
  obtain ⟨hvalid, hwing, hdesc, hstore⟩ := ofDescription_ok ht
  -- the two designs need not be equal, as their registries may place names differently
  refine ⟨hs.coherent, t, ht, hstore, fun q => ?_⟩
  have hmatch := Design.match_same hs.valid hvalid hwing hdesc
  have ht' := (Sound.load ht).coherent
  exact ((Query.parallel_question hmatch q.match_same).answers hs.coherent ht').eq
    Naming.keeps_same

/-- After a question was asked and a spar position moved. -/
theorem answer_eq_reloaded_moved :
    ∃ s, ofDescription straightWing sparWithRibs = .ok s ∧
      let moved := ((s.asked (.ribs "ribs" .count)).mutate (.setPositionXsi "tip" 0.5)).2
      moved.store.Coherent moved.design ∧
        ∃ t, ofDescription moved.design.wing moved.description = .ok t ∧ t.store = .empty ∧
          ∀ {α : Type} (q : Question Float α), moved.answer q = t.answer q := by
  obtain ⟨s, hs⟩ := exists_ofDescription straightWing loadable_sparWithRibs
  exact ⟨s, hs, answer_eq_reloaded (((Reachable.load hs).ask _).mutate _)⟩

/-! ### Mutations -/

/-- A mutation succeeds if its effect on the description does. -/
theorem exists_mutate {s : Structure K} (h : s.Reachable) {m : Mutation K} {desc : Description K}
    (heff : m.effect s.description = .ok desc) :
    ∃ t, s.mutate m = (.ok (), t) ∧ t.Reachable ∧ t.design.wing = s.design.wing ∧
      t.description = desc := by
  have hm := refines_mutation (sound_of_reachable h).valid m
  change Refines s (s.mutate m) (m.effect s.description) at hm
  have hreach := h.mutate m
  rw [heff] at hm
  generalize s.mutate m = out at hm hreach
  cases hm with
  | done hvalid hwing => exact ⟨_, rfl, hreach, hwing, rfl⟩

/-- **A mutation is an edit of the description, or nothing.**  If it is refused the structure with
everything that is kept is what it was; else the description is what the mutation is meant to make
of it, the wing and its surfaces are kept, and nothing is kept of any spar or ribs. -/
theorem mutate_refines {s : Structure K} (h : s.Reachable) (m : Mutation K) :
    (∃ e, m.effect s.description = .error e ∧ s.mutate m = (.error e, s)) ∨
      ∃ t, s.mutate m = (.ok (), t) ∧ m.effect s.description = .ok t.description ∧
        t.design.wing = s.design.wing ∧ t.store.wing = s.store.wing ∧
        (∀ uid, (t.store.spar uid).isBuilt = false) ∧
        ∀ uid, (t.store.ribsOf uid).isBuilt = false := by
  have hm := refines_mutation (sound_of_reachable h).valid m
  change Refines s (s.mutate m) (m.effect s.description) at hm
  generalize s.mutate m = out, m.effect s.description = eff at hm
  cases hm with
  | refused e => exact .inl ⟨e, rfl, rfl⟩
  | @done d hvalid hwing =>
    refine .inr ⟨_, rfl, rfl, hwing, rfl, fun uid => ?_, fun uid => ?_⟩
    · have hempty : s.store.invalidated.spar uid = .empty := Std.HashMap.getD_empty
      rw [hempty]
      rfl
    · have hempty : s.store.invalidated.ribsOf uid = .empty := Std.HashMap.getD_empty
      rw [hempty]
      rfl

/-- A position goes, and the spar and the ribs still name it. -/
theorem mutate_refines_removed :
    ∃ s t, ofDescription straightWing sparWithRibs = .ok s ∧
      s.mutate (.removePosition "tip") = (.ok (), t) ∧
      t.description = { sparWithRibs with sparPositions := [⟨"root", .eta 0, 0.3⟩] } ∧
      ∀ uid, (t.store.spar uid).isBuilt = false := by
  obtain ⟨s, hs⟩ := exists_ofDescription straightWing loadable_sparWithRibs
  obtain ⟨-, -, hdesc, -⟩ := ofDescription_ok hs
  have hdesc : s.description = sparWithRibs := hdesc
  obtain ⟨e, he, -⟩ | ⟨t, ht, heff, -, -, hspars, -⟩ :=
    mutate_refines (.load hs) (.removePosition "tip")
  · rw [hdesc] at he
    cases he
  · rw [hdesc] at heff
    exact ⟨s, t, hs, ht, (Except.ok.inj heff).symm, hspars⟩

end Structure

end WingBox
