import WingBox.Proofs.Structure.Answer

/-!
# Spars of designs with matching lookups

Two designs of one wing match under a naming when their parts match, in order.  Names that stand for
each other are then looked up with results that match, `Design.LookupsMatch`, and this is all that
is needed here: every query about a position, a line or the geometry of a spar runs in parallel on
both designs, with the same value, or refusals that match.

Lookups come first (`parallel_position`, `parallel_spar`), then the stages of a spar in the order
in which they need each other; a cached stage follows its builder by `Parallel.cached`.
-/

namespace WingBox

open Scalar

variable {K : Type}

/-- Two designs of one wing whose parts match by name. -/
structure Design.Match (N : Naming) (d d' : Design K) : Prop where
  /-- The parts of the first design are found by name. -/
  indexed : d.Indexed
  /-- The parts of the second design are found by name. -/
  indexed' : d'.Indexed
  /-- The wing. -/
  wing : d'.wing = d.wing
  /-- The spar positions, in order. -/
  positions : List.Forall₂ (SparPosition.Match N) d.positions.items d'.positions.items
  /-- The spars, in order. -/
  spars : List.Forall₂ (SparSegment.Match N) d.spars.items d'.spars.items
  /-- The ribs, in order. -/
  ribs : List.Forall₂ (RibsDefinition.Match N) d.ribs.items d'.ribs.items

/-- Matching spars, each of its design. -/
structure Design.SparsMatch (N : Naming) (d d' : Design K) (s s' : SparSegment K) : Prop where
  /-- The spars match. -/
  toMatch : s.Match N s'
  /-- The first spar belongs to the first design. -/
  here : d.HasSpar s
  /-- The second spar belongs to the second design. -/
  there : d'.HasSpar s'

/-- Matching ribs, each of their design. -/
structure Design.RibsMatch (N : Naming) (d d' : Design K) (r r' : RibsDefinition K) : Prop where
  /-- The ribs match. -/
  toMatch : r.Match N r'
  /-- The first ribs belong to the first design. -/
  here : d.HasRibs r
  /-- The second ribs belong to the second design. -/
  there : d'.HasRibs r'

/-- Looking up in registries with related items gives related items. -/
theorem Registry.Indexed.rel_get? {α β : Type} [Named α] [Named β] {r : Registry α}
    {r' : Registry β} (h : r.Indexed) (h' : r'.Indexed) {R : α → β → Prop} {x x' : String}
    (hR : ∀ a b, R a b → (Named.uid a = x ↔ Named.uid b = x'))
    (hitems : List.Forall₂ R r.items r'.items) : Option.Rel R (r.get? x) (r'.get? x') := by
  rw [h.get?_eq_find?, h'.get?_eq_find?]
  exact rel_find? (fun a b hab => by simpa using hR a b hab) hitems

/-- Two designs of one wing in which names that stand for each other are looked up with results that
match.  Nothing is said of parts with other names, or of the order of the parts. -/
structure Design.LookupsMatch (N : Naming) (d d' : Design K) : Prop where
  /-- The wing. -/
  wing : d'.wing = d.wing
  /-- The spar positions. -/
  positions : ∀ {x x'}, N.position x x' →
    Option.Rel (SparPosition.Match N) (d.positions.get? x) (d'.positions.get? x')
  /-- The spars. -/
  spars : ∀ {x x'}, N.spar x x' →
    Option.Rel (d.SparsMatch N d') (d.spars.get? x) (d'.spars.get? x')
  /-- The ribs. -/
  ribs : ∀ {x x'}, N.ribs x x' →
    Option.Rel (d.RibsMatch N d') (d.ribs.get? x) (d'.ribs.get? x')

namespace Design.Match

variable {N : Naming} {d d' : Design K} (h : d.Match N d')
include h

/-- The spars of both designs match, each where it is found. -/
theorem sparsMatch : List.Forall₂ (d.SparsMatch N d') d.spars.items d'.spars.items := by
  obtain ⟨hlength, hzip⟩ := List.forall₂_iff_zip.1 h.spars
  refine List.forall₂_iff_zip.2 ⟨hlength, fun hmem => ?_⟩
  obtain ⟨hs, hs'⟩ := List.of_mem_zip hmem
  exact {
    toMatch := hzip hmem
    here := h.indexed.spars.get?_eq_some_iff.2 ⟨hs, rfl⟩
    there := h.indexed'.spars.get?_eq_some_iff.2 ⟨hs', rfl⟩ }

/-- The ribs of both designs match, each where they are found. -/
theorem ribsMatch : List.Forall₂ (d.RibsMatch N d') d.ribs.items d'.ribs.items := by
  obtain ⟨hlength, hzip⟩ := List.forall₂_iff_zip.1 h.ribs
  refine List.forall₂_iff_zip.2 ⟨hlength, fun hmem => ?_⟩
  obtain ⟨hr, hr'⟩ := List.of_mem_zip hmem
  exact {
    toMatch := hzip hmem
    here := h.indexed.ribs.get?_eq_some_iff.2 ⟨hr, rfl⟩
    there := h.indexed'.ribs.get?_eq_some_iff.2 ⟨hr', rfl⟩ }

/-- Parts that match in order match by name. -/
theorem lookupsMatch : d.LookupsMatch N d' where
  wing := h.wing
  positions hx := h.indexed.positions.rel_get? h.indexed'.positions
    (fun _ _ hp => N.position_iff hp.uid hx) h.positions
  spars hx := h.indexed.spars.rel_get? h.indexed'.spars
    (fun _ _ hs => N.spar_iff hs.toMatch.uid hx) h.sparsMatch
  ribs hx := h.indexed.ribs.rel_get? h.indexed'.ribs
    (fun _ _ hr => N.ribs_iff hr.toMatch.uid hx) h.ribsMatch

end Design.Match

namespace Query

variable [Scalar K] {N : Naming} {d d' : Design K} {α α' β γ δ : Type}

/-! ### Lookups -/

section Lookups

variable (h : d.LookupsMatch N d')
include h

/-- Both sides go on with the same wing. -/
theorem Parallel.bind_wing {R : α → β → Prop} {f : Wing K → Query K α} {f' : Wing K → Query K β}
    (hf : Parallel N d d' R (f d.wing) (f' d.wing)) :
    Parallel N d d' R (Query.wing >>= f) (Query.wing >>= f') := by
  have hwing : Parallel N d d' (fun w w' => w = d.wing ∧ w' = d.wing) Query.wing Query.wing :=
    Parallel.bind_read (.pure ⟨rfl, h.wing⟩)
  refine hwing.bind fun w w' hw => ?_
  rw [hw.1, hw.2]
  exact hf

theorem parallel_position {x x' : String} (hx : N.position x x') :
    Parallel N d d' (SparPosition.Match N) (position x) (position x') :=
  Parallel.bind_read (.require (.position hx) (h.positions hx))

theorem parallel_spar {x x' : String} (hx : N.spar x x') :
    Parallel N d d' (d.SparsMatch N d') (spar x) (spar x') :=
  Parallel.bind_read (.require (.spar hx) (h.spars hx))

theorem parallel_ribs {x x' : String} (hx : N.ribs x x') :
    Parallel N d d' (d.RibsMatch N d') (ribs x) (ribs x') :=
  Parallel.bind_read (.require (.ribs hx) (h.ribs hx))

end Lookups

/-! ### The wing -/

section Wing

variable (h : d.LookupsMatch N d')
include h

theorem parallel_wingGeometry : Parallel N d d' Eq wingGeometry wingGeometry := by
  refine Parallel.bind_wing h ?_
  have hslot' := Store.filledBy_wing (d := d')
  rw [h.wing] at hslot'
  exact .cached Store.filledBy_wing hslot' (.ofExcept (.refl _))

theorem parallel_loft : Parallel N d d' Eq loft loft :=
  (parallel_wingGeometry h).bind_eq fun _ => .pure rfl

theorem parallel_size : Parallel N d d' Eq size size :=
  (parallel_loft h).bind_eq fun _ => .pure rfl

theorem parallel_elementFace (uid : String) :
    Parallel N d d' Eq (elementFace uid) (elementFace uid) := by
  refine Parallel.bind_wing h ?_
  refine (Parallel.ofExcept (.refl _)).bind_eq fun _ => ?_
  exact (parallel_wingGeometry h).bind_eq fun _ => .require_eq (.same _) _

theorem parallel_pointIn (frame : Frame) (p : Vec K) :
    Parallel N d d' Eq (pointIn frame p) (pointIn frame p) := by
  cases frame with
  | wing => exact .pure rfl
  | global => exact Parallel.bind_wing h (.pure rfl)

theorem parallel_faceIn (frame : Frame) (f : Face K) :
    Parallel N d d' Eq (faceIn frame f) (faceIn frame f) := by
  cases frame with
  | wing => exact .pure rfl
  | global => exact Parallel.bind_wing h (.pure rfl)

theorem parallel_shapeIn (frame : Frame) (s : Shape K) :
    Parallel N d d' Eq (shapeIn frame s) (shapeIn frame s) := by
  cases frame with
  | wing => exact .pure rfl
  | global => exact Parallel.bind_wing h (.pure rfl)

theorem parallel_wireIn (frame : Frame) (w : Wire K) :
    Parallel N d d' Eq (wireIn frame w) (wireIn frame w) := by
  cases frame with
  | wing => exact .pure rfl
  | global => exact Parallel.bind_wing h (.pure rfl)

omit h in
theorem trim_match {x x' : String} (hx : N.Owner x x') (cut : Face K) (shell : Shape K) :
    OutcomesMatch N Eq (trim x cut shell) (trim x' cut shell) := by
  obtain ⟨r, hr, heq⟩ := exists_trimmed x cut shell
  rw [heq, hr.trim_eq]
  exact .ofShapeFault hx r

theorem parallel_skinEdges (cutter : Shape K) (hasCap : Side → Bool) :
    Parallel N d d' Eq (skinEdges cutter hasCap) (skinEdges cutter hasCap) := by
  have hedges (side : Side) : Parallel N d d' Eq
      (if hasCap side then do
        return some (Shape.ofEdges (((← wingGeometry).skin side).intersection cutter))
      else return none : Query K (Option (Shape K)))
      (if hasCap side then do
        return some (Shape.ofEdges (((← wingGeometry).skin side).intersection cutter))
      else return none) :=
    .ite ((parallel_wingGeometry h).bind_eq fun _ => .pure rfl) (.pure rfl)
  exact (hedges .upper).bind_eq fun _ => (hedges .lower).bind_eq fun _ => .pure rfl

end Wing

/-! ### Positions -/

section Positions

variable (h : d.LookupsMatch N d') {p p' : SparPosition K} (hp : p.Match N p')
include hp

omit hp in
theorem heightDirection_match {x x' : String} (hx : N.Owner x x') (face : Face K) (p : Vec K) :
    OutcomesMatch N Eq (heightDirection x face p) (heightDirection x' face p) := by
  unfold heightDirection
  dsimp only
  split
  · split
    · exact .ok rfl
    · exact .error (.geometry hx (.same _))
  · exact .error (.geometry hx (.same _))

include h

theorem parallel_midplanePoint : Parallel N d d' Eq (midplanePoint p) (midplanePoint p') := by
  refine Parallel.bind_wing h ?_
  rw [hp.location, hp.xsi]
  cases p.location with
  | eta eta => exact .pure rfl
  | elementUid uid => exact .ofExcept (.refl _)

theorem parallel_upVector (q : Vec K) : Parallel N d d' Eq (upVector p q) (upVector p' q) := by
  unfold upVector
  rw [hp.elementUid?]
  cases p.elementUid? with
  | none => exact .pure rfl
  | some element =>
    refine (parallel_elementFace h element).bind_eq fun face => ?_
    exact .ofExcept (heightDirection_match (.position hp.uid) face q)

end Positions

/-! ### Panels -/

/-- Stations at matching positions. -/
structure Station.Match (N : Naming) (a b : Station K) : Prop where
  /-- The positions. -/
  position : a.position.Match N b.position
  /-- The points. -/
  point : b.point = a.point
  /-- The directions of the height. -/
  up : b.up = a.up

theorem panelsFrom_match {x x' : String} (hx : N.Owner x x') (r : K) {as bs : List (Station K)}
    (h : List.Forall₂ (Station.Match N) as bs) (i : Nat) :
    OutcomesMatch N Eq (panelsFrom x r i as) (panelsFrom x' r i bs) := by
  -- a panel joins two stations, so the last station has none
  induction h generalizing i with
  | nil => exact .ok rfl
  | cons hab hrest ih =>
    cases hrest with
    | nil => exact .ok rfl
    | cons hcd hrest =>
      simp only [panelsFrom, hab.point, hab.up, hcd.point, hcd.up,
        hab.position.isAtInnerBorder, hcd.position.isAtOuterBorder]
      refine OutcomesMatch.bind (.require (.geometry hx (.same _)) _) fun dir _ hdir => hdir ▸ ?_
      exact (ih (i + 1)).bind fun faces _ hfaces => hfaces ▸ .ok rfl

theorem forall₂_zipWith {R : α → β → Prop} {S : γ → δ → Prop} {f : α → α' → γ} {g : β → α' → δ}
    (hfg : ∀ a b x, R a b → S (f a x) (g b x)) {as : List α} {bs : List β}
    (h : List.Forall₂ R as bs) (xs : List α') :
    List.Forall₂ S (List.zipWith f as xs) (List.zipWith g bs xs) := by
  induction h generalizing xs with
  | nil => exact .nil
  | cons hab _ ih =>
    cases xs with
    | nil => exact .nil
    | cons x xs => exact .cons (hfg _ _ x hab) (ih xs)

section Spars

variable (h : d.LookupsMatch N d') {s s' : SparSegment K} (hs : d.SparsMatch N d' s s')
include h

/-- The points of positions that match are the same. -/
theorem parallel_midplanePoints {ps ps' : List (SparPosition K)}
    (hps : List.Forall₂ (SparPosition.Match N) ps ps') :
    Parallel N d d' Eq (ps.mapM midplanePoint) (ps'.mapM midplanePoint) := by
  refine (Parallel.mapM hps fun p p' hp => parallel_midplanePoint h hp).mono ?_
  intro xs ys hxy
  exact List.forall₂_eq_eq_eq ▸ hxy

/-- The directions of the height at positions that match are the same. -/
theorem parallel_upVectors {ps ps' : List (SparPosition K × Vec K)}
    (hps : List.Forall₂ (fun a b => a.1.Match N b.1 ∧ b.2 = a.2) ps ps') :
    Parallel N d d' Eq (ps.mapM fun (p, point) => upVector p point)
      (ps'.mapM fun (p, point) => upVector p point) := by
  refine (Parallel.mapM hps fun a b hab => ?_).mono ?_ (R := List.Forall₂ Eq)
  · show Parallel N d d' Eq (upVector a.1 a.2) (upVector b.1 b.2)
    rw [hab.2]
    exact parallel_upVector h hab.1 a.2
  · intro xs ys hxy
    exact List.forall₂_eq_eq_eq ▸ hxy

include hs

theorem parallel_buildPanels : Parallel N d d' Eq (buildPanels s) (buildPanels s') := by
  have huid : N.Owner s.uid s'.uid := .spar hs.toMatch.uid
  unfold buildPanels
  refine Parallel.bind_wing h ?_
  refine Parallel.bind (.mapM hs.toMatch.positionUids fun _ _ => parallel_position h) ?_
  intro ps ps' hps
  -- both sides find as many positions, so both or none are refused
  dsimp only
  rw [← hps.length_eq]
  refine .ite (.throw_bind (.config huid (.same _))) ?_
  refine (parallel_midplanePoints h hps).bind_eq fun points => ?_
  have hzip : List.Forall₂ (fun a b => a.1.Match N b.1 ∧ b.2 = a.2) (ps.zip points)
      (ps'.zip points) := forall₂_zipWith (fun _ _ _ hp => ⟨hp, rfl⟩) hps points
  refine (parallel_upVectors h hzip).bind_eq fun ups => ?_
  refine (parallel_size h).bind_eq fun r => ?_
  have hstations := forall₂_zipWith (S := Station.Match N) (f := fun x up => ⟨x.1, x.2, up⟩)
    (g := fun x up => ⟨x.1, x.2, up⟩) (fun _ _ _ hab => ⟨hab.1, hab.2, rfl⟩) hzip ups
  refine (Parallel.ofExcept (panelsFrom_match huid r hstations 1)).bind_eq fun faces => ?_
  refine (Parallel.ofExcept (.refl _)).bind_eq fun line => ?_
  exact (Parallel.require_eq (.geometry huid (.same _)) _).bind_eq fun _ => .pure rfl

theorem parallel_panels : Parallel N d d' Eq (panels s) (panels s') :=
  .cached (Store.filledBy_panels hs.here) (Store.filledBy_panels hs.there)
    (parallel_buildPanels h hs)

theorem parallel_sparGeometry : Parallel N d d' Eq (sparGeometry s) (sparGeometry s') := by
  refine .cached (Store.filledBy_sparGeometry hs.here) (Store.filledBy_sparGeometry hs.there) ?_
  refine (parallel_panels h hs).bind_eq fun p => (parallel_loft h).bind_eq fun shell => ?_
  have htrim (f : Face K) := trim_match (N := N) (.spar hs.toMatch.uid) f shell
  exact (Parallel.ofExcept (.mapM htrim _)).bind_eq fun _ => .pure rfl

theorem parallel_sparCaps : Parallel N d d' Eq (sparCaps s) (sparCaps s') := by
  refine .cached (Store.filledBy_sparCaps hs.here) (Store.filledBy_sparCaps hs.there) ?_
  refine (parallel_panels h hs).bind_eq fun p => ?_
  rw [hs.toMatch.hasCap]
  exact parallel_skinEdges h _ _

end Spars

/-! ### Lines -/

section Lines

variable (h : d.LookupsMatch N d') {l l' : NamedLine} (hl : NamedLine.Match N l l')
include h hl

theorem parallel_line : Parallel N d d' Eq (line l) (line l') := by
  cases hl with
  | leadingEdge | trailingEdge => exact Parallel.bind_wing h (.ofExcept (.refl _))
  | spar hx =>
    refine (parallel_spar h hx).bind fun s s' hs => ?_
    exact (parallel_panels h hs).bind_eq fun _ => .pure rfl

theorem parallel_lineLength : Parallel N d d' Eq (lineLength l) (lineLength l') :=
  (parallel_line h hl).bind_eq fun _ => .pure rfl

theorem parallel_linePoint (eta : K) : Parallel N d d' Eq (linePoint l eta) (linePoint l' eta) :=
  (parallel_line h hl).bind_eq fun _ => .pure rfl

theorem parallel_lineDirection (p : Vec K) :
    Parallel N d d' Eq (lineDirection l p) (lineDirection l' p) :=
  (parallel_line h hl).bind_eq fun _ => .pure rfl

end Lines

end Query

end WingBox
