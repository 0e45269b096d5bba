import WingBox.Proofs.Definition.Form
import WingBox.Proofs.Structure.Rename

/-!
# Saving and loading

A structure is saved as the JSON text of its description and loaded from it again.

* `Structure.ofJsonText_jsonText`: the text of a reachable structure whose numbers are kept by
  their numerals can always be loaded.  What is loaded has the description reread, so it is the
  description that was saved if no line and no reference is a spar with a word of its own for a
  name, and only then.
-/

namespace WingBox

/-! ### Reread descriptions -/

section Reread

variable {K : Type} [Scalar K]

/-- Lines do not matter for the check of ribs. -/
theorem RibsDeclaration.exists_check_reread {d : RibsDeclaration K} (h : ∃ r, d.check = .ok r) :
    ∃ r, d.reread.check = .ok r := by
  obtain ⟨r, hr⟩ := h
  obtain rfl := declaration_of_check hr
  rw [RibsDefinition.check_declaration_iff] at hr
  obtain ⟨uid, placement, crossSection⟩ := r
  cases placement with
  | set s =>
    have hcheck := RibsDefinition.check_declaration_iff (r := ⟨uid, .set s.reread, crossSection⟩)
    exact ⟨_, hcheck.2 hr⟩
  | explicit e =>
    have hcheck :=
      RibsDefinition.check_declaration_iff (r := ⟨uid, .explicit e.reread, crossSection⟩)
    exact ⟨_, hcheck.2 hr⟩

omit [Scalar K] in
theorem Description.uids_reread (d : Description K) (kind : PartKind) :
    d.reread.uids kind = d.uids kind := by
  cases kind with
  | position => rfl
  | spar => rfl
  | ribs =>
    change (d.ribsDefinitions.map RibsDeclaration.reread).map _ = d.ribsDefinitions.map _
    rw [List.map_map]
    rfl

theorem Description.Loadable.reread {d : Description K} (h : d.Loadable) : d.reread.Loadable where
  nodup_uids kind := d.uids_reread kind ▸ h.nodup_uids kind
  checked_spars := h.checked_spars
  checked_ribs := List.forall_mem_map.2 fun r hr =>
    RibsDeclaration.exists_check_reread (h.checked_ribs r hr)

end Reread

namespace Structure

/-- **The text of a structure can always be loaded, and gives the structure back if its spars are
not named like something else.**  A line or reference that is a spar named like an edge of the
wing or a global axis is loaded as that edge or axis; everything else is loaded as it was. -/
theorem ofJsonText_jsonText {s : Structure Float} (h : s.Reachable)
    (hnumbers : NumbersKept s.description.numbers) :
    ∃ t, ofJsonText s.design.wing s.jsonText = .ok t ∧ t.design.wing = s.design.wing ∧
      t.store = .empty ∧ t.description = s.description.reread ∧
      (t.description = s.description ↔ s.description.Plain) := by
  have hloadable : s.description.Loadable := (sound_of_reachable h).valid.loadable
  have htext : (ofText s.jsonText : Except (Error Float) _) = .ok s.description.reread :=
    ofText_pretty (Description.reads hnumbers)
  obtain ⟨t, ht⟩ := exists_ofDescription s.design.wing hloadable.reread
  obtain ⟨-, hwing, hdesc, hstore⟩ := ofDescription_ok ht
  have hdesc : t.description = s.description.reread := hdesc
  refine ⟨t, ?_, hwing, hstore, hdesc, ?_⟩
  · rw [ofJsonText, htext]
    exact ht
  · rw [hdesc]
    exact Description.reread_eq_iff

/-- A spar that gets the name of the leading edge is lost to the edge. -/
theorem ofJsonText_jsonText_edge :
    ∃ s t u, ofDescription straightWing sparWithRibs = .ok s ∧
      s.mutate (.rename "front" "leadingEdge") = (.ok (), t) ∧
      ofJsonText t.design.wing t.jsonText = .ok u ∧ u.description ≠ t.description := by
  obtain ⟨s, hs⟩ := exists_ofDescription straightWing loadable_sparWithRibs
  obtain ⟨-, -, hdesc, -⟩ := ofDescription_ok hs
  have hdesc : s.description = sparWithRibs := hdesc
  have hkind : s.description.kind? "front" = some .spar := by
    rw [hdesc]
    decide
  have hfree : "leadingEdge" ∉ s.description.uids .spar := by
    rw [hdesc]
    decide
  obtain ⟨t, ht, hreach, -, hdesc'⟩ := exists_rename (.load hs) hkind hfree
  rw [hdesc] at hdesc'
  have hnumbers : NumbersKept t.description.numbers := by
    rw [hdesc']
    unfold NumbersKept
    decide +kernel
  -- the ribs refer to the spar, which is now named like the edge
  have hplain : ¬ t.description.Plain := by
    intro hplain
    rw [hdesc'] at hplain
    have hline := hplain.lines (.spar "leadingEdge") (by decide)
    exact hline "leadingEdge" rfl (by decide)
  obtain ⟨u, hu, -, -, -, hiff⟩ := ofJsonText_jsonText hreach hnumbers
  exact ⟨s, t, u, hs, ht, hu, fun heq => hplain (hiff.1 heq)⟩

end Structure

end WingBox
