import WingBox.Proofs.Definition.Form
import WingBox.Proofs.Json.Finite

/-!
# Definitions that were read

Whatever text a definition is read from, it holds finite numbers only, and its lines are named by
their own words: a spar named like an edge of the wing is never read.  So the text that is written
for it is read as the definition again, however different the first text was.

* `Json.Gives`: all elements that are read from JSON values have a property; there is one rule for
  each kind of field;
* `DefinitionKind.ofText_stable`: a definition that was read is read again from both texts that
  are written for it, and the texts of what is read then are the same texts.
-/

namespace WingBox

open Json

namespace Json

variable {α : Type} [JsonForm α]

/-- Every element that is read from a JSON value has the property. -/
def Gives (P : α → Prop) : Prop := ∀ ⦃j : Json⦄ ⦃x : α⦄, ofJson? j = some x → P x

variable {P : α → Prop}

theorem Gives.required (h : Gives P) {v : Option Json} {x : α}
    (hread : required v = some x) : P x := by
  obtain ⟨j, -, hj⟩ := Option.bind_eq_some_iff.1 hread
  exact h hj

theorem Gives.withDefault (h : Gives P) {default x : α} (hdefault : P default) {v : Option Json}
    (hread : withDefault default v = some x) : P x := by
  cases v with
  | none =>
    cases hread
    exact hdefault
  | some j => exact h hread

theorem Gives.omittable (h : Gives P) {v : Option Json} {o : Option α}
    (hread : omittable v = some o) : ∀ x ∈ o, P x := by
  unfold Json.omittable at hread
  split at hread
  · cases hread
    exact nofun
  · cases hread
    exact nofun
  · obtain ⟨x, hx, rfl⟩ := Option.map_eq_some_iff.1 hread
    rintro _ ⟨⟩
    exact h hx

omit [JsonForm α] in
theorem forall_of_mapM_eq_some {β : Type} {read : β → Option α} {vs : List β} {xs : List α}
    (hread : vs.mapM read = some xs) (h : ∀ j x, read j = some x → P x) : ∀ x ∈ xs, P x := by
  induction vs generalizing xs with
  | nil =>
    cases hread
    exact List.forall_mem_nil _
  | cons j vs ih =>
    rw [List.mapM_cons] at hread
    obtain ⟨x, hx, hread⟩ := Option.bind_eq_some_iff.1 hread
    obtain ⟨xs, hxs, hread⟩ := Option.bind_eq_some_iff.1 hread
    cases hread
    exact List.forall_mem_cons.2 ⟨h j x hx, ih hxs⟩

theorem Gives.list (h : Gives P) : Gives fun xs : List α => ∀ x ∈ xs, P x := by
  intro j xs hread
  cases j with
  | array vs => exact forall_of_mapM_eq_some hread h
  | _ => cases hread

end Json

/-- All numbers are finite. -/
def NumbersFinite (xs : List Float) : Prop := ∀ x ∈ xs, x.isFinite = true

theorem numbersFinite_cons {x : Float} {xs : List Float} :
    NumbersFinite (x :: xs) ↔ x.isFinite = true ∧ NumbersFinite xs := List.forall_mem_cons

theorem numbersFinite_append {xs ys : List Float} :
    NumbersFinite (xs ++ ys) ↔ NumbersFinite xs ∧ NumbersFinite ys := List.forall_mem_append

theorem numbersFinite_flatMap {α : Type} {xs : List α} {f : α → List Float} :
    NumbersFinite (xs.flatMap f) ↔ ∀ x ∈ xs, NumbersFinite (f x) := List.forall_mem_flatMap

theorem numbersFinite_toList_flatMap {α : Type} {o : Option α} {f : α → List Float} :
    NumbersFinite (o.toList.flatMap f) ↔ ∀ x ∈ o, NumbersFinite (f x) := by
  simp only [numbersFinite_flatMap, Option.mem_toList, Option.mem_def]

/-- Numbers that a text is read from are finite. -/
theorem gives_finiteNumber : Gives fun x : Float => x.isFinite = true := by
  intro j x hread
  cases j with
  | number n => exact Numeral.isFinite_toFloat? hread
  | _ => cases hread

theorem isFinite_rightAngle : (rightAngle : Float).isFinite = true := by decide

theorem numbersFinite_rightAngle : NumbersFinite [rightAngle] :=
  List.forall_mem_singleton.2 isFinite_rightAngle

/-! ### Lines -/

namespace NamedLine

theorem text_ofText (word : String) : (ofText word).text = word := by
  unfold ofText
  split_ifs with hleading htrailing
  · exact hleading.symm
  · exact htrailing.symm
  · rfl

/-- A line that was read is the one that its word names. -/
theorem gives_reread : Gives fun l : NamedLine => l.reread = l := by
  intro j l hread
  obtain ⟨word, -, rfl⟩ := Option.map_eq_some_iff.1 hread
  rw [reread, text_ofText]

end NamedLine

namespace RibDatum

theorem text_ofText (word : String) : (ofText word).text = word := by
  unfold ofText
  split_ifs with hx hy
  · exact hx.symm
  · exact hy.symm
  · exact NamedLine.text_ofText word

/-- A reference that was read is the one that its word names. -/
theorem gives_reread : Gives fun r : RibDatum => r.reread = r := by
  intro j r hread
  obtain ⟨word, -, rfl⟩ := Option.map_eq_some_iff.1 hread
  rw [reread, text_ofText]

end RibDatum

/-! ### Cross sections -/

theorem Cap.gives_finite : Gives fun c : Cap Float => NumbersFinite c.numbers := by
  intro j c hread
  obtain ⟨vs, -, hread⟩ := Option.bind_eq_some_iff.1 hread
  split at hread
  · simp only [Option.bind_eq_bind, Option.bind_eq_some_iff, Option.pure_def,
      Option.some.injEq] at hread
    obtain ⟨area, harea, uid, -, rfl⟩ := hread
    exact List.forall_mem_singleton.2 (gives_finiteNumber.withDefault (by decide) harea)
  · cases hread

theorem SparCrossSection.gives_finite :
    Gives fun c : SparCrossSection Float => NumbersFinite c.numbers := by
  intro j c hread
  obtain ⟨vs, -, hread⟩ := Option.bind_eq_some_iff.1 hread
  split at hread
  · simp only [Option.bind_eq_bind, Option.bind_eq_some_iff, Option.pure_def,
      Option.some.injEq] at hread
    obtain ⟨upper, hupper, lower, hlower, rotation, hrotation, rfl⟩ := hread
    simp only [numbers, numbersFinite_append, numbersFinite_toList_flatMap]
    exact ⟨⟨Cap.gives_finite.omittable hupper, Cap.gives_finite.omittable hlower⟩,
      List.forall_mem_singleton.2 (gives_finiteNumber.withDefault isFinite_rightAngle hrotation)⟩
  · cases hread

theorem RibCrossSection.gives_finite :
    Gives fun c : RibCrossSection Float => NumbersFinite c.numbers := by
  intro j c hread
  obtain ⟨vs, -, hread⟩ := Option.bind_eq_some_iff.1 hread
  split at hread
  · simp only [Option.bind_eq_bind, Option.bind_eq_some_iff, Option.pure_def,
      Option.some.injEq] at hread
    obtain ⟨rotation, hrotation, upper, hupper, lower, hlower, rfl⟩ := hread
    simp only [numbers, numbersFinite_cons, numbersFinite_append, numbersFinite_toList_flatMap]
    exact ⟨gives_finiteNumber.withDefault isFinite_rightAngle hrotation,
      Cap.gives_finite.omittable hupper, Cap.gives_finite.omittable hlower⟩
  · cases hread

/-! ### Spars -/

namespace SparPosition

/-- The numbers of a position are finite wherever it stands. -/
theorem finite_of_ofJsonInside? {outer : Nat} {j : Json} {p : SparPosition Float}
    (hread : ofJsonInside? outer j = some p) : NumbersFinite p.numbers := by
  cases j with
  | object ms =>
    simp only [ofJsonInside?, Option.bind_eq_bind, Option.bind_eq_some_iff, Option.pure_def,
      Option.some.injEq] at hread
    obtain ⟨-, -, -, -, _, -, _, -, uid, -, location, hlocation, xsi, hxsi, rfl⟩ := hread
    refine numbersFinite_append.2
      ⟨?_, List.forall_mem_singleton.2 (gives_finiteNumber.required hxsi)⟩
    obtain ⟨m, -, hlocation⟩ := Option.bind_eq_some_iff.1 hlocation
    split at hlocation
    · obtain ⟨eta, heta, hlocation⟩ := Option.bind_eq_some_iff.1 hlocation
      cases hlocation
      exact List.forall_mem_singleton.2 (gives_finiteNumber heta)
    · obtain ⟨uid, -, hlocation⟩ := Option.bind_eq_some_iff.1 hlocation
      cases hlocation
      exact List.forall_mem_nil _
  | _ => cases hread

theorem gives_finite : Gives fun p : SparPosition Float => NumbersFinite p.numbers :=
  fun _ _ hread => finite_of_ofJsonInside? hread

end SparPosition

theorem SparSegment.gives_finite :
    Gives fun s : SparSegment Float => NumbersFinite s.numbers := by
  intro j s hread
  obtain ⟨vs, -, hread⟩ := Option.bind_eq_some_iff.1 hread
  split at hread
  · simp only [Option.bind_eq_bind, Option.bind_eq_some_iff, Option.pure_def,
      Option.some.injEq] at hread
    obtain ⟨uid, -, positionUids, -, crossSection, hsection, rfl⟩ := hread
    have hplain : NumbersFinite (SparCrossSection.plain : SparCrossSection Float).numbers :=
      numbersFinite_rightAngle
    exact SparCrossSection.gives_finite.withDefault hplain hsection
  · cases hread

/-! ### Sets of ribs -/

theorem SetBoundary.gives_finite :
    Gives fun b : SetBoundary Float => NumbersFinite b.numbers := by
  intro j b hread
  obtain ⟨case, -, hread⟩ := Option.bind_eq_some_iff.1 hread
  split at hread
  · obtain ⟨eta, heta, hread⟩ := Option.bind_eq_some_iff.1 hread
    cases hread
    exact List.forall_mem_singleton.2 (gives_finiteNumber heta)
  · obtain ⟨uid, -, hread⟩ := Option.bind_eq_some_iff.1 hread
    cases hread
    exact List.forall_mem_nil _
  · obtain ⟨uid, -, hread⟩ := Option.bind_eq_some_iff.1 hread
    cases hread
    exact List.forall_mem_nil _
  · cases hread

theorem RibCount.gives_finite : Gives fun c : RibCount Float => NumbersFinite c.numbers := by
  intro j c hread
  obtain ⟨case, -, hread⟩ := Option.bind_eq_some_iff.1 hread
  split at hread
  · obtain ⟨n, -, hread⟩ := Option.bind_eq_some_iff.1 hread
    cases hread
    exact List.forall_mem_nil _
  · obtain ⟨distance, hdistance, hread⟩ := Option.bind_eq_some_iff.1 hread
    cases hread
    exact List.forall_mem_singleton.2 (gives_finiteNumber hdistance)
  · cases hread

theorem RibRotation.settled_plain : (plain : RibRotation Float).reread = plain ∧
    NumbersFinite (plain : RibRotation Float).numbers :=
  ⟨rfl, numbersFinite_rightAngle⟩

theorem RibRotation.gives_settled :
    Gives fun r : RibRotation Float => r.reread = r ∧ NumbersFinite r.numbers := by
  intro j r hread
  obtain ⟨vs, -, hread⟩ := Option.bind_eq_some_iff.1 hread
  split at hread
  · simp only [Option.bind_eq_bind, Option.bind_eq_some_iff, Option.pure_def,
      Option.some.injEq] at hread
    obtain ⟨z, hz, reference, hreference, rfl⟩ := hread
    have hreference := RibDatum.gives_reread.omittable hreference
    refine ⟨?_, List.forall_mem_singleton.2
      (gives_finiteNumber.withDefault isFinite_rightAngle hz)⟩
    rw [reread, optionMap_eq_self_iff.2 (by simpa using hreference)]
  · cases hread

theorem RibSet.gives_settled :
    Gives fun s : RibSet Float => s.reread = s ∧ NumbersFinite s.numbers := by
  intro j s hread
  obtain ⟨vs, -, hread⟩ := Option.bind_eq_some_iff.1 hread
  split at hread
  · simp only [Option.bind_eq_bind, Option.bind_eq_some_iff, Option.pure_def,
      Option.some.injEq] at hread
    obtain ⟨ribReference, href, start, hstart, stop, hstop, ribStart, hribStart, ribEnd, hribEnd,
      count, hcount, crossing, -, rotation, hrotation, rfl⟩ := hread
    have hrotation := RibRotation.gives_settled.withDefault RibRotation.settled_plain hrotation
    refine ⟨?_, ?_⟩
    · rw [reread, NamedLine.gives_reread.required href, NamedLine.gives_reread.required hribStart,
        NamedLine.gives_reread.required hribEnd, hrotation.1]
    · simp only [numbers, numbersFinite_append]
      exact ⟨⟨⟨SetBoundary.gives_finite.required hstart, SetBoundary.gives_finite.required hstop⟩,
        RibCount.gives_finite.required hcount⟩, hrotation.2⟩
  · cases hread

/-! ### Explicit ribs -/

theorem RibEnd.gives_settled :
    Gives fun p : RibEnd Float => p.reread = p ∧ NumbersFinite p.numbers := by
  intro j p hread
  obtain ⟨case, -, hread⟩ := Option.bind_eq_some_iff.1 hread
  split at hread
  · obtain ⟨vs, -, hread⟩ := Option.bind_eq_some_iff.1 hread
    split at hread
    · simp only [Option.bind_eq_bind, Option.bind_eq_some_iff, Option.pure_def,
        Option.some.injEq] at hread
      obtain ⟨eta, heta, xsi, hxsi, uid, -, rfl⟩ := hread
      exact ⟨rfl, numbersFinite_cons.2 ⟨gives_finiteNumber.required heta,
        List.forall_mem_singleton.2 (gives_finiteNumber.required hxsi)⟩⟩
    · cases hread
  · obtain ⟨vs, -, hread⟩ := Option.bind_eq_some_iff.1 hread
    split at hread
    · simp only [Option.bind_eq_bind, Option.bind_eq_some_iff, Option.pure_def,
        Option.some.injEq] at hread
      obtain ⟨reference, href, eta, heta, rfl⟩ := hread
      refine ⟨?_, List.forall_mem_singleton.2 (gives_finiteNumber.required heta)⟩
      rw [reread, NamedLine.gives_reread.required href]
    · cases hread
  · obtain ⟨uid, -, hread⟩ := Option.bind_eq_some_iff.1 hread
    cases hread
    exact ⟨rfl, List.forall_mem_nil _⟩
  · cases hread

theorem ExplicitRib.gives_settled :
    Gives fun r : ExplicitRib Float => r.reread = r ∧ NumbersFinite r.numbers := by
  intro j r hread
  obtain ⟨vs, -, hread⟩ := Option.bind_eq_some_iff.1 hread
  split at hread
  · simp only [Option.bind_eq_bind, Option.bind_eq_some_iff, Option.pure_def,
      Option.some.injEq] at hread
    obtain ⟨start, hstart, stop, hstop, ribStart, hribStart, ribEnd, hribEnd, rfl⟩ := hread
    obtain ⟨hstart, hstartNumbers⟩ := RibEnd.gives_settled.required hstart
    obtain ⟨hstop, hstopNumbers⟩ := RibEnd.gives_settled.required hstop
    refine ⟨?_, numbersFinite_append.2 ⟨hstartNumbers, hstopNumbers⟩⟩
    rw [reread, hstart, hstop, NamedLine.gives_reread.required hribStart,
      NamedLine.gives_reread.required hribEnd]
  · cases hread

/-! ### Declarations -/

theorem RibsDeclaration.gives_settled :
    Gives fun d : RibsDeclaration Float => d.reread = d ∧ NumbersFinite d.numbers := by
  intro j d hread
  obtain ⟨vs, -, hread⟩ := Option.bind_eq_some_iff.1 hread
  split at hread
  · simp only [Option.bind_eq_bind, Option.bind_eq_some_iff, Option.pure_def,
      Option.some.injEq] at hread
    obtain ⟨uid, -, set, hset, rib, hrib, crossSection, hsection, rfl⟩ := hread
    have hset := RibSet.gives_settled.omittable hset
    have hrib := ExplicitRib.gives_settled.omittable hrib
    have hplain : NumbersFinite (RibCrossSection.plain : RibCrossSection Float).numbers :=
      numbersFinite_rightAngle
    have hsection := RibCrossSection.gives_finite.withDefault hplain hsection
    refine ⟨?_, ?_⟩
    · rw [reread, optionMap_eq_self_iff.2 fun s hs => (hset s (Option.mem_toList.1 hs)).1,
        optionMap_eq_self_iff.2 fun r hr => (hrib r (Option.mem_toList.1 hr)).1]
    · simp only [numbers, numbersFinite_append, numbersFinite_toList_flatMap]
      exact ⟨⟨fun s hs => (hset s hs).2, fun r hr => (hrib r hr).2⟩, hsection⟩
  · cases hread

theorem Description.gives_settled :
    Gives fun d : Description Float => d.reread = d ∧ NumbersFinite d.numbers := by
  intro j d hread
  obtain ⟨vs, -, hread⟩ := Option.bind_eq_some_iff.1 hread
  split at hread
  · simp only [Option.bind_eq_bind, Option.bind_eq_some_iff, Option.pure_def,
      Option.some.injEq] at hread
    obtain ⟨positions, hpositions, spars, hspars, ribs, hribs, rfl⟩ := hread
    have hspars := SparSegment.gives_finite.list.withDefault (List.forall_mem_nil _) hspars
    have hribs := RibsDeclaration.gives_settled.list.withDefault (List.forall_mem_nil _) hribs
    have hpositions : ∀ p ∈ positions, NumbersFinite p.numbers := by
      unfold positions? at hpositions
      split at hpositions
      · cases hpositions
        exact List.forall_mem_nil _
      · exact forall_of_mapM_eq_some hpositions fun _ _ hp =>
          SparPosition.finite_of_ofJsonInside? hp
      · cases hpositions
    refine ⟨?_, ?_⟩
    · rw [reread, listMap_eq_self_iff.2 fun r hr => (hribs r hr).1]
    · simp only [numbers, numbersFinite_append, numbersFinite_flatMap]
      exact ⟨⟨hpositions, hspars⟩, fun r hr => (hribs r hr).2⟩
  · cases hread

/-! ### Stability -/

/-- The kinds of definitions that have a JSON form. -/
inductive DefinitionKind where
  | line
  | datum
  | cap
  | sparCrossSection
  | ribCrossSection
  | position
  | spar
  | boundary
  | count
  | crossing
  | rotation
  | ribSet
  | ribEnd
  | explicitRib
  | ribs
  | description

namespace DefinitionKind

/-- The definitions of a kind. -/
def Element : DefinitionKind → Type
  | line => NamedLine
  | datum => RibDatum
  | cap => Cap Float
  | sparCrossSection => SparCrossSection Float
  | ribCrossSection => RibCrossSection Float
  | position => SparPosition Float
  | spar => SparSegment Float
  | boundary => SetBoundary Float
  | count => RibCount Float
  | crossing => RibCrossing
  | rotation => RibRotation Float
  | ribSet => RibSet Float
  | ribEnd => RibEnd Float
  | explicitRib => ExplicitRib Float
  | ribs => RibsDeclaration Float
  | description => Description Float

instance : (kind : DefinitionKind) → JsonForm kind.Element
  | line => inferInstanceAs (JsonForm NamedLine)
  | datum => inferInstanceAs (JsonForm RibDatum)
  | cap => inferInstanceAs (JsonForm (Cap Float))
  | sparCrossSection => inferInstanceAs (JsonForm (SparCrossSection Float))
  | ribCrossSection => inferInstanceAs (JsonForm (RibCrossSection Float))
  | position => inferInstanceAs (JsonForm (SparPosition Float))
  | spar => inferInstanceAs (JsonForm (SparSegment Float))
  | boundary => inferInstanceAs (JsonForm (SetBoundary Float))
  | count => inferInstanceAs (JsonForm (RibCount Float))
  | crossing => inferInstanceAs (JsonForm RibCrossing)
  | rotation => inferInstanceAs (JsonForm (RibRotation Float))
  | ribSet => inferInstanceAs (JsonForm (RibSet Float))
  | ribEnd => inferInstanceAs (JsonForm (RibEnd Float))
  | explicitRib => inferInstanceAs (JsonForm (ExplicitRib Float))
  | ribs => inferInstanceAs (JsonForm (RibsDeclaration Float))
  | description => inferInstanceAs (JsonForm (Description Float))

/-- The numbers that a definition stores. -/
def numbers : (kind : DefinitionKind) → kind.Element → List Float
  | line, _ | datum, _ | crossing, _ => []
  | cap, c => Cap.numbers c
  | sparCrossSection, c => SparCrossSection.numbers c
  | ribCrossSection, c => RibCrossSection.numbers c
  | position, p => SparPosition.numbers p
  | spar, s => SparSegment.numbers s
  | boundary, b => SetBoundary.numbers b
  | count, c => RibCount.numbers c
  | rotation, r => RibRotation.numbers r
  | ribSet, s => RibSet.numbers s
  | ribEnd, p => RibEnd.numbers p
  | explicitRib, r => ExplicitRib.numbers r
  | ribs, d => RibsDeclaration.numbers d
  | description, d => Description.numbers d

/-- What was read holds finite numbers, and reads back as itself if these numbers do. -/
theorem gives_reads (kind : DefinitionKind) :
    Gives fun v : kind.Element =>
      NumbersFinite (kind.numbers v) ∧ (NumbersKept (kind.numbers v) → Reads v v) := by
  have settled {α : Type} [JsonForm α] {x y : α} {xs : List Float} (h : y = x ∧ NumbersFinite xs)
      (hreads : NumbersKept xs → Reads x y) :
      NumbersFinite xs ∧ (NumbersKept xs → Reads x x) :=
    ⟨h.2, fun hkept => by simpa only [h.1] using hreads hkept⟩
  intro j v hread
  cases kind with
  | line =>
    exact settled ⟨NamedLine.gives_reread hread, List.forall_mem_nil _⟩ fun _ => NamedLine.reads v
  | datum =>
    exact settled ⟨RibDatum.gives_reread hread, List.forall_mem_nil _⟩ fun _ => RibDatum.reads v
  | crossing => exact ⟨List.forall_mem_nil _, fun _ => RibCrossing.reads v⟩
  | cap => exact ⟨Cap.gives_finite hread, Cap.reads⟩
  | sparCrossSection => exact ⟨SparCrossSection.gives_finite hread, SparCrossSection.reads⟩
  | ribCrossSection => exact ⟨RibCrossSection.gives_finite hread, RibCrossSection.reads⟩
  | position => exact ⟨SparPosition.gives_finite hread, SparPosition.reads⟩
  | spar => exact ⟨SparSegment.gives_finite hread, SparSegment.reads⟩
  | boundary => exact ⟨SetBoundary.gives_finite hread, SetBoundary.reads⟩
  | count => exact ⟨RibCount.gives_finite hread, RibCount.reads⟩
  | rotation => exact settled (RibRotation.gives_settled hread) RibRotation.reads
  | ribSet => exact settled (RibSet.gives_settled hread) RibSet.reads
  | ribEnd => exact settled (RibEnd.gives_settled hread) RibEnd.reads
  | explicitRib => exact settled (ExplicitRib.gives_settled hread) ExplicitRib.reads
  | ribs => exact settled (RibsDeclaration.gives_settled hread) RibsDeclaration.reads
  | description => exact settled (Description.gives_settled hread) Description.reads

/-- **What was read is written so that it is read again.**  Whatever the text was that a definition
was read from, both texts written for it are read as the same definition, for which the same texts
are written again.  Of the numbers it is supposed that the finite ones come back. -/
theorem ofText_stable {K : Type} (kind : DefinitionKind) {text : String} {v : kind.Element}
    (hread : (ofText text : Except (Error K) kind.Element) = .ok v)
    (hkept : ∀ x ∈ kind.numbers v, x.isFinite = true → Numeral.Kept x) :
    (ofText (toText v) : Except (Error K) kind.Element) = .ok v ∧
      (ofText (toJson v).pretty : Except (Error K) kind.Element) = .ok v ∧
      (ofText (toText v) : Except (Error K) kind.Element).map toText = .ok (toText v) ∧
      (ofText (toJson v).pretty : Except (Error K) kind.Element).map (fun w => (toJson w).pretty) =
        .ok (toJson v).pretty := by
  obtain ⟨j, -, hj⟩ := exists_of_ofText hread
  obtain ⟨hfinite, hreads⟩ := kind.gives_reads hj
  have hreads : Reads v v := hreads fun x hx => hkept x hx (hfinite x hx)
  have hcompact : (ofText (toText v) : Except (Error K) kind.Element) = .ok v :=
    ofText_toText hreads
  have hpretty : (ofText (toJson v).pretty : Except (Error K) kind.Element) = .ok v :=
    ofText_pretty hreads
  exact ⟨hcompact, hpretty, by rw [hcompact]; rfl, by rw [hpretty]; rfl⟩

/-- A spar in arrays of fields: a missing cap, a cap without material, whole numbers, no ribs. -/
def arraysText : String := r#"[[], [["front", ["p", "q"], [null, [12e-1], 9e1]]]]"#

theorem ofText_stable_arrays :
    ∃ v : description.Element, (ofText arraysText : Except (Error Float) _) = .ok v ∧
      (∀ x ∈ description.numbers v, x.isFinite = true → Numeral.Kept x) ∧
      toText v ≠ arraysText ∧ (ofText (toText v) : Except (Error Float) _) = .ok v := by
  obtain ⟨v, hread, hkept, htext⟩ :
      ∃ v ∈ (ofText arraysText : Except (Error Float) description.Element).toOption,
        (∀ x ∈ description.numbers v, x.isFinite = true → Numeral.Kept x) ∧
          toText v ≠ arraysText := by
    decide +kernel
  have hread : (ofText arraysText : Except (Error Float) description.Element) = .ok v := by
    cases h : (ofText arraysText : Except (Error Float) description.Element) with
    | error e => rw [h] at hread; cases hread
    | ok w => rw [h] at hread; cases hread; rfl
  exact ⟨v, hread, hkept, htext, (ofText_stable description hread hkept).1⟩

end DefinitionKind

end WingBox
