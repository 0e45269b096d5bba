import WingBox.Proofs.Structure.Refinement

/-!
# Loading descriptions

A structure is loaded by adding the parts of a description one by one, so `Structure.addAll` is a
run of mutations (`Description.loads`).

* `ofDescription_ok`: what is loaded is valid, has the description that it was loaded from, and
  nothing is computed for it yet;
* `exists_ofDescription`: a description can be loaded if it is `Loadable`, as the description of a
  valid design is.
-/

namespace WingBox

variable {K : Type}

/-- The mutations that load a description. -/
def Description.loads (d : Description K) : List (Mutation K) :=
  d.sparPositions.map .addPosition ++ d.sparSegments.map .addSpar ++ d.ribsDefinitions.map .addRibs

/-- A description that can be loaded: names are not given twice to parts of one kind, and all
spars and ribs pass their check. -/
structure Description.Loadable [Scalar K] (d : Description K) : Prop where
  /-- No name is given twice. -/
  nodup_uids : ∀ kind, (d.uids kind).Nodup
  /-- The spars pass their check. -/
  checked_spars : ∀ s ∈ d.sparSegments, s.check = .ok s
  /-- The ribs pass their check. -/
  checked_ribs : ∀ r ∈ d.ribsDefinitions, ∃ t, r.check = .ok t

/-! ### Folds that add -/

/-- Steps that add their input under a condition add all inputs if it holds one after another. -/
theorem foldlM_eq_ok_iff {ε α δ : Type} {step : δ → α → Except ε δ} (add : δ → List α → δ)
    {P : δ → α → Prop} (hnil : ∀ d, add d [] = d)
    (hcons : ∀ d x xs, add (add d [x]) xs = add d (x :: xs))
    (hstep : ∀ d x d', step d x = .ok d' ↔ P d x ∧ d' = add d [x]) (xs : List α) (d d' : δ) :
    xs.foldlM step d = .ok d' ↔
      (∀ pre x post, xs = pre ++ x :: post → P (add d pre) x) ∧ d' = add d xs := by
  -- the inputs before an entry of the tail have been added to `add d [x]` when it is its turn
  induction xs generalizing d with
  | nil =>
    rw [hnil]
    refine ⟨fun h => ⟨?_, (Except.ok.inj h).symm⟩, fun h => by rw [h.2]; rfl⟩
    intro pre x post hxs
    simp at hxs
  | cons x xs ih =>
    simp only [List.foldlM_cons, bind_eq_ok_iff, hstep, ih]
    constructor
    · rintro ⟨_, ⟨hx, rfl⟩, hxs, rfl⟩
      refine ⟨fun pre y post heq => ?_, hcons d x xs⟩
      cases pre with
      | nil =>
        obtain ⟨rfl, -⟩ := List.cons.inj heq
        rwa [hnil]
      | cons z pre =>
        obtain ⟨rfl, hrest⟩ := List.cons.inj heq
        rw [← hcons]
        exact hxs pre y post hrest
    · rintro ⟨hxs, rfl⟩
      have hx := hxs [] x xs rfl
      rw [hnil] at hx
      refine ⟨_, ⟨hx, rfl⟩, fun pre y post heq => ?_, (hcons d x xs).symm⟩
      rw [hcons]
      exact hxs (x :: pre) y post (by rw [heq, List.cons_append])

/-- A condition on entries and what comes before them: one on all entries, with distinct names. -/
theorem forall_split_iff {α : Type} {P : α → Prop} {key : α → String} {xs : List α} :
    (∀ pre x post, xs = pre ++ x :: post → P x ∧ key x ∉ pre.map key) ↔
      (∀ x ∈ xs, P x) ∧ (xs.map key).Nodup := by
  constructor
  · intro h
    constructor
    · intro x hx
      obtain ⟨pre, post, hxs⟩ := List.append_of_mem hx
      exact (h pre x post hxs).1
    · induction xs with
      | nil => exact List.nodup_nil
      | cons y ys ih =>
        refine List.nodup_cons.2 ⟨fun hmem => ?_, ih fun pre x post hys => ?_⟩
        · -- the later entry with the name of the first one has it before itself
          obtain ⟨z, hz, hzy⟩ := List.mem_map.1 hmem
          obtain ⟨pre, post, rfl⟩ := List.append_of_mem hz
          exact (h (y :: pre) z post rfl).2 (hzy ▸ List.mem_cons_self)
        · obtain ⟨hx, hkey⟩ := h (y :: pre) x post (by rw [hys, List.cons_append])
          exact ⟨hx, fun hmem => hkey (List.mem_cons_of_mem _ hmem)⟩
  · rintro ⟨hP, hnodup⟩ pre x post rfl
    rw [List.map_append, List.map_cons, List.nodup_append] at hnodup
    obtain ⟨-, -, hne⟩ := hnodup
    exact ⟨hP x (by simp), fun hmem => hne _ hmem _ List.mem_cons_self rfl⟩

variable [Scalar K]

/-! ### Runs of mutations -/

/-- Several mutations from a structure for which nothing is computed do what their effects say. -/
theorem outcome_forM_edit (ms : List (Mutation K)) {d : Design K} (h : d.Valid) :
    match ms.foldlM (fun desc m => m.effect desc) d.description with
    | .ok desc => ∃ d', (ms.forM Mutation.edit).outcome ⟨d, .empty⟩ = (.ok (), ⟨d', .empty⟩) ∧
      d'.Valid ∧ d'.wing = d.wing ∧ d'.description = desc
    | .error e => ((ms.forM Mutation.edit).outcome ⟨d, .empty⟩).1 = .error e := by
  -- each step keeps the design valid and the store empty, so the next one starts from the same
  induction ms generalizing d with
  | nil => exact ⟨d, rfl, h, rfl, rfl⟩
  | cons m ms ih =>
    have hm := refines_mutation (s := ⟨d, .empty⟩) h m
    rw [List.foldlM_cons, List.forM_eq_forM, List.forM_cons, Edit.outcome_bind]
    generalize m.edit.outcome ⟨d, .empty⟩ = out, m.effect d.description = eff at hm
    cases hm with
    | refused e => rfl
    | @done d₁ hvalid hwing =>
      rw [ok_bind]
      have hms := ih hvalid
      revert hms
      cases ms.foldlM (fun desc m => m.effect desc) d₁.description with
      | error e => exact id
      | ok desc =>
        rintro ⟨d', hout, hd', hwing', hdesc⟩
        exact ⟨d', hout, hd', hwing'.trans hwing, hdesc⟩

/-- Loading is a run of mutations. -/
theorem addAll_eq (d : Description K) :
    Structure.addAll d = d.loads.forM Mutation.edit := by
  simp only [Structure.addAll, Description.loads, List.forM_eq_forM, List.forM_append,
    List.forM_map, Mutation.edit, bind_assoc]

theorem valid_bare (wing : Wing K) : (Structure.bare wing).design.Valid where
  positions := Registry.indexed_empty
  spars := Registry.indexed_empty
  ribs := Registry.indexed_empty
  checked_spars := List.forall_mem_nil _
  checked_ribs := List.forall_mem_nil _

/-! ### Effects of loading -/

omit [Scalar K] in
theorem appended_eq_ok_iff {α : Type} [Named α] {taken : Error K} {xs ys : List α} {x : α} :
    appended taken xs x = .ok ys ↔ Named.uid x ∉ xs.map Named.uid ∧ ys = xs ++ [x] := by
  unfold appended
  split_ifs with hx
  · exact ⟨nofun, fun h => absurd hx h.1⟩
  · exact ⟨fun h => ⟨hx, (Except.ok.inj h).symm⟩, fun h => by rw [h.2]⟩

section Effects

variable {d d' : Description K}

theorem effect_addPosition_eq_ok_iff {p : SparPosition K} :
    (Mutation.addPosition p).effect d = .ok d' ↔
      p.uid ∉ d.uids .position ∧ d' = { d with sparPositions := d.sparPositions ++ [p] } := by
  simp only [Mutation.effect, bind_eq_ok_iff, appended_eq_ok_iff]
  constructor
  · rintro ⟨_, ⟨hp, rfl⟩, h⟩
    exact ⟨hp, (Except.ok.inj h).symm⟩
  · rintro ⟨hp, rfl⟩
    exact ⟨_, ⟨hp, rfl⟩, rfl⟩

theorem effect_addSpar_eq_ok_iff {s : SparSegment K} :
    (Mutation.addSpar s).effect d = .ok d' ↔ (s.check = .ok s ∧ s.uid ∉ d.uids .spar) ∧
      d' = { d with sparSegments := d.sparSegments ++ [s] } := by
  simp only [Mutation.effect, bind_eq_ok_iff, appended_eq_ok_iff]
  constructor
  · rintro ⟨t, ht, _, ⟨hs, rfl⟩, h⟩
    obtain rfl := SparSegment.eq_of_check ht
    exact ⟨⟨ht, hs⟩, (Except.ok.inj h).symm⟩
  · rintro ⟨⟨ht, hs⟩, rfl⟩
    exact ⟨s, ht, _, ⟨hs, rfl⟩, rfl⟩

theorem effect_addRibs_eq_ok_iff {r : RibsDeclaration K} :
    (Mutation.addRibs r).effect d = .ok d' ↔ ((∃ t, r.check = .ok t) ∧ r.uid ∉ d.uids .ribs) ∧
      d' = { d with ribsDefinitions := d.ribsDefinitions ++ [r] } := by
  simp only [Mutation.effect, bind_eq_ok_iff, appended_eq_ok_iff]
  constructor
  · rintro ⟨t, ht, _, ⟨hr, rfl⟩, h⟩
    exact ⟨⟨⟨t, ht⟩, hr⟩, (Except.ok.inj h).symm⟩
  · rintro ⟨⟨⟨t, ht⟩, hr⟩, rfl⟩
    exact ⟨t, ht, _, ⟨hr, rfl⟩, rfl⟩

end Effects

/-- The effects of loading succeed on a description that can be loaded, and give just that. -/
theorem foldlM_loads_eq_ok_iff {d d' : Description K} :
    d.loads.foldlM (fun desc m => m.effect desc) ⟨[], [], []⟩ = .ok d' ↔ d.Loadable ∧ d' = d := by
  have hpositions := foldlM_eq_ok_iff
    (fun (d : Description K) ps => { d with sparPositions := d.sparPositions ++ ps })
    (fun _ => by rw [List.append_nil]) (fun _ _ _ => by rw [List.append_assoc]; rfl)
    (fun _ _ _ => effect_addPosition_eq_ok_iff) d.sparPositions
  have hspars := foldlM_eq_ok_iff
    (fun (d : Description K) ss => { d with sparSegments := d.sparSegments ++ ss })
    (fun _ => by rw [List.append_nil]) (fun _ _ _ => by rw [List.append_assoc]; rfl)
    (fun _ _ _ => effect_addSpar_eq_ok_iff) d.sparSegments
  have hribs := foldlM_eq_ok_iff
    (fun (d : Description K) rs => { d with ribsDefinitions := d.ribsDefinitions ++ rs })
    (fun _ => by rw [List.append_nil]) (fun _ _ _ => by rw [List.append_assoc]; rfl)
    (fun _ _ _ => effect_addRibs_eq_ok_iff) d.ribsDefinitions
  simp only [Description.loads, List.foldlM_append, List.foldlM_map, bind_eq_ok_iff, hpositions,
    hspars, hribs]
  -- spar positions have no check, so only their names count
  constructor
  · rintro ⟨_, ⟨_, ⟨hp, rfl⟩, hs, rfl⟩, hr, rfl⟩
    obtain ⟨-, hp⟩ := forall_split_iff (P := fun _ => True) |>.1 fun pre x post h =>
      ⟨trivial, hp pre x post h⟩
    obtain ⟨hschecked, hs⟩ := forall_split_iff.1 hs
    obtain ⟨hrchecked, hr⟩ := forall_split_iff.1 hr
    refine ⟨⟨fun kind => ?_, hschecked, hrchecked⟩, rfl⟩
    cases kind with
    | position => exact hp
    | spar => exact hs
    | ribs => exact hr
  · rintro ⟨h, rfl⟩
    have hp := forall_split_iff (P := fun _ => True) |>.2
      ⟨fun _ _ => trivial, h.nodup_uids .position⟩
    exact ⟨_, ⟨_, ⟨fun pre x post heq => (hp pre x post heq).2, rfl⟩,
      forall_split_iff.2 ⟨h.checked_spars, h.nodup_uids .spar⟩, rfl⟩,
      forall_split_iff.2 ⟨h.checked_ribs, h.nodup_uids .ribs⟩, rfl⟩

/-! ### Loaded structures -/

theorem ofDescription_eq (wing : Wing K) (desc : Description K) :
    Structure.ofDescription wing desc =
      match (desc.loads.forM Mutation.edit).outcome ⟨(Structure.bare wing).design, .empty⟩ with
      | (.ok (), s) => Except.ok s
      | (.error e, _) => Except.error e := by
  rw [← addAll_eq]
  rfl

/-- What is loaded is valid, has its description, and nothing is computed for it. -/
theorem ofDescription_ok {wing : Wing K} {desc : Description K} {s : Structure K}
    (h : Structure.ofDescription wing desc = .ok s) :
    s.design.Valid ∧ s.design.wing = wing ∧ s.design.description = desc ∧ s.store = .empty := by
  have hrun := outcome_forM_edit desc.loads (valid_bare wing)
  rw [ofDescription_eq] at h
  split at hrun
  next desc' hfold =>
    obtain ⟨-, rfl⟩ := foldlM_loads_eq_ok_iff.1 hfold
    obtain ⟨d, hout, hvalid, hwing, hdesc⟩ := hrun
    rw [hout] at h
    cases h
    exact ⟨hvalid, hwing, hdesc, rfl⟩
  next e _ =>
    split at h
    next hout =>
      rw [hout] at hrun
      cases hrun
    next => cases h

/-- A description that can be loaded is loaded for every wing. -/
theorem exists_ofDescription (wing : Wing K) {desc : Description K} (h : desc.Loadable) :
    ∃ s, Structure.ofDescription wing desc = .ok s := by
  have hrun := outcome_forM_edit desc.loads (valid_bare wing)
  have hfold := foldlM_loads_eq_ok_iff.2 ⟨h, rfl⟩
  rw [show (Structure.bare wing).design.description = ⟨[], [], []⟩ from rfl, hfold] at hrun
  obtain ⟨d, hout, -⟩ := hrun
  refine ⟨⟨d, .empty⟩, ?_⟩
  rw [ofDescription_eq, hout]

/-- The description of a valid design can be loaded. -/
theorem Design.Valid.loadable {d : Design K} (h : d.Valid) : d.description.Loadable where
  nodup_uids kind := by
    cases kind with
    | position => exact h.positions.nodup_uids
    | spar => exact h.spars.nodup_uids
    | ribs =>
      have huids : d.description.uids .ribs = d.ribs.uids :=
        map_uid_map RibsDefinition.uid_declaration d.ribs.items
      rw [huids]
      exact h.ribs.nodup_uids
  checked_spars := h.checked_spars
  checked_ribs := List.forall_mem_map.2 fun r hr => ⟨r, h.checked_ribs r hr⟩

end WingBox
