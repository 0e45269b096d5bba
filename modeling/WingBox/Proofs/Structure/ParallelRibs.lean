import WingBox.Proofs.Structure.ParallelSpars
import WingBox.Structure.RibCut

/-!
# Ribs of designs with matching lookups

Every query about the distribution and the cuts of ribs runs in parallel on designs whose lookups
match.  Names are looked at in three places only: a spar position that bounds a set must lie on its
reference line, a spar that turns a set must be its reference line, and a line is told by its name
when a rib misses it.
-/

namespace WingBox

open Scalar

namespace Query

variable {K : Type} [Scalar K] {N : Naming} {d d' : Design K}

/-! ### Distribution -/

section Spread

variable (h : d.LookupsMatch N d') {x x' : String} (hx : N.Owner x x') {set set' : RibSet K}
  (hset : set.Match N set')
include h hx hset

theorem parallel_declaredDirection (eta : K) (p up : Vec K) :
    Parallel N d d' Eq (declaredDirection x set eta p up)
      (declaredDirection x' set' eta p up) := by
  unfold declaredDirection
  rw [hset.z]
  have href := hset.reference
  generalize set.rotation.reference = datum, set'.rotation.reference = datum' at href
  cases href with
  | none =>
    refine Parallel.bind_wing h ?_
    exact (Parallel.ofExcept (.refl _)).bind_eq fun _ => .pure rfl
  | some hdatum =>
    cases hdatum with
    | globalX | globalY => exact .pure rfl
    | line hl =>
      cases hl with
      | leadingEdge => exact (parallel_lineDirection h .leadingEdge p).bind_eq fun _ => .pure rfl
      | trailingEdge => exact (parallel_lineDirection h .trailingEdge p).bind_eq fun _ => .pure rfl
      | spar hy =>
        simp only [hset.ribReference.sparUid?_eq_some_iff hy]
        refine .ite ?_ (.throw (.config hx (.same _)))
        exact (parallel_line h hset.ribReference).bind_eq fun _ => .pure rfl

theorem parallel_ribDirection (eta : K) (p up : Vec K) :
    Parallel N d d' Eq (ribDirection x set eta p up) (ribDirection x' set' eta p up) :=
  (parallel_declaredDirection h hx hset eta p up).bind_eq fun _ =>
    .require_eq (.geometry hx (.same _)) _

omit hset in
theorem parallel_requireOnSpar {y y' : String} (hy : N.position y y') {l l' : NamedLine}
    (hl : NamedLine.Match N l l') :
    Parallel N d d' Eq (requireOnSpar x y l) (requireOnSpar x' y' l') := by
  cases hl with
  | leadingEdge | trailingEdge => exact .throw (.config hx (.same _))
  | spar hs =>
    refine (parallel_spar h hs).bind fun s s' hs' => ?_
    simp only [Naming.mem_iff hs'.toMatch.positionUids hy]
    exact .ite (.pure rfl) (.throw (.config hx (.positionOffSpar hy hs)))

theorem parallel_boundaryParameter {b b' : SetBoundary K} (hb : b.Match N b') :
    Parallel N d d' Eq (boundaryParameter x set b) (boundaryParameter x' set' b') := by
  cases hb with
  | eta => exact .pure rfl
  | elementUid =>
    refine (parallel_elementFace h _).bind_eq fun face => ?_
    refine (parallel_line h hset.ribReference).bind_eq fun w => ?_
    exact (Parallel.require_eq (.geometry hx (.same _)) _).bind_eq fun _ => .pure rfl
  | sparPositionUid hy =>
    refine (parallel_requireOnSpar h hx hy hset.ribReference).bind_eq fun _ => ?_
    refine (parallel_position h hy).bind fun p p' hp => ?_
    refine (parallel_midplanePoint h hp).bind_eq fun q => ?_
    refine (parallel_line h hset.ribReference).bind_eq fun w => ?_
    refine (parallel_ribDirection h hx hset _ _ _).bind_eq fun dir => ?_
    refine (Parallel.require_eq (.geometry hx (.same _)) _).bind_eq fun plane => ?_
    exact .require_eq (.geometry hx (.missedReference hy)) _

end Spread

section Spread

variable (h : d.LookupsMatch N d') {r r' : RibsDefinition K} (hr : d.RibsMatch N d' r r')
include h hr

theorem parallel_buildSpread : Parallel N d d' Eq (buildSpread r) (buildSpread r') := by
  have hx : N.Owner r.uid r'.uid := .ribs hr.toMatch.uid
  unfold buildSpread
  refine Parallel.bind (.ofExcept (hr.toMatch.set)) fun set set' hset => ?_
  refine (parallel_boundaryParameter h hx hset hset.start).bind_eq fun etaStart => ?_
  refine (parallel_boundaryParameter h hx hset hset.stop).bind_eq fun etaStop => ?_
  dsimp only
  rw [hset.count]
  cases set.count with
  | numberOfRibs n => exact .ite (.pure rfl) (.pure rfl)
  | spacing distance =>
    exact (parallel_lineLength h hset.ribReference).bind_eq fun _ => .pure rfl

theorem parallel_spread : Parallel N d d' Eq (spread r) (spread r') :=
  .cached (Store.filledBy_spread hr.here) (Store.filledBy_spread hr.there)
    (parallel_buildSpread h hr)

theorem parallel_ribCount : Parallel N d d' Eq (ribCount r) (ribCount r') := by
  have hp := hr.toMatch.positioning
  unfold ribCount
  generalize r.positioning = p, r'.positioning = p' at hp
  cases hp with
  | set => exact (parallel_spread h hr).bind_eq fun _ => .pure rfl
  | explicit => exact .pure rfl

end Spread

/-! ### Faces of one rib -/

section Cut

variable (h : d.LookupsMatch N d') {x x' : String} (hx : N.Owner x x')
include h

theorem parallel_nearestPiece (hx : N.Owner x x') {y y' : String} (hy : N.spar y y')
    (face : Face K) (target : Vec K) :
    Parallel N d d' Eq (nearestPiece x y face target) (nearestPiece x' y' face target) := by
  refine (parallel_spar h hy).bind fun s s' hs => ?_
  refine (parallel_panels h hs).bind_eq fun p => ?_
  dsimp only
  split
  · exact .pure rfl
  · exact .throw (.geometry hx (.vanishedFace hy))

theorem parallel_endPoint {e e' : RibEnd K} (he : e.Match N e') :
    Parallel N d d' Eq (endPoint e) (endPoint e') := by
  cases he with
  | etaXsi eta xsi referenceUid =>
    refine Parallel.bind_wing h ?_
    split
    · exact .throw (.same _)
    · exact .pure rfl
  | curve hl eta => exact parallel_linePoint h hl eta
  | sparPosition hy =>
    exact (parallel_position h hy).bind fun p p' hp => parallel_midplanePoint h hp

theorem parallel_sparHeight {y y' : String} (hy : N.spar y y') (p : Vec K) :
    Parallel N d d' Eq (sparHeight y p) (sparHeight y' p) := by
  refine (parallel_spar h hy).bind fun s s' hs => ?_
  refine (parallel_sparGeometry h hs).bind_eq fun geometry => ?_
  refine Parallel.bind_wing h ?_
  refine (Parallel.ofExcept (.refl _)).bind_eq fun up => ?_
  split
  · exact .pure rfl
  · refine (parallel_size h).bind_eq fun r => ?_
    dsimp only
    split
    · exact .pure rfl
    · exact .pure rfl

theorem parallel_explicitUp {e e' : RibEnd K} (he : e.Match N e') {l l' : NamedLine}
    (hl : NamedLine.Match N l l') (p : Vec K) :
    Parallel N d d' Eq (explicitUp e l p) (explicitUp e' l' p) := by
  cases he with
  | etaXsi | curve =>
    -- the line says how the end is trimmed
    cases hl with
    | leadingEdge | trailingEdge => exact .pure rfl
    | spar hy => exact parallel_sparHeight h hy p
  | sparPosition hy =>
    exact (parallel_position h hy).bind fun q q' hq => parallel_upVector h hq p

theorem parallel_explicitUps {e e' : ExplicitRib K} (he : e.Match N e') (start stop : Vec K) :
    Parallel N d d' Eq (explicitUps e start stop) (explicitUps e' start stop) := by
  refine (parallel_explicitUp h he.start he.ribStart start).bind_eq fun startUp => ?_
  refine (parallel_explicitUp h he.stop he.ribEnd stop).bind_eq fun stopUp => ?_
  split
  · refine Parallel.bind_wing h ?_
    exact (Parallel.ofExcept (.refl _)).bind_eq fun _ => .pure rfl
  all_goals exact .pure rfl

theorem parallel_endsInSection {y y' : String} (hy : N.spar y y') (eta : K) :
    Parallel N d d' Eq (endsInSection y eta) (endsInSection y' eta) := by
  refine (parallel_spar h hy).bind fun s s' hs => ?_
  have huids := hs.toMatch.positionUids
  have hsection {u u' : String} (hu : N.position u u') : Parallel N d d' Eq
      (do return (← position u).isInSection) (do return (← position u').isInSection) :=
    (parallel_position h hu).bind fun p p' hp => .pure hp.isInSection.symm
  -- the first or the last position, by the coordinate
  dsimp only
  rw [List.head?_eq_getElem?, List.head?_eq_getElem?, List.getLast?_eq_getElem?,
    List.getLast?_eq_getElem?, huids.length_eq]
  split_ifs
  · have hfirst := rel_getElem? huids 0
    generalize s.positionUids[0]? = u, s'.positionUids[0]? = u' at hfirst
    cases hfirst with
    | none => exact .pure rfl
    | some hu => exact hsection hu
  · have hlast := rel_getElem? huids (s'.positionUids.length - 1)
    generalize s.positionUids[s'.positionUids.length - 1]? = u,
      s'.positionUids[s'.positionUids.length - 1]? = u' at hlast
    cases hlast with
    | none => exact .pure rfl
    | some hu => exact hsection hu
  · exact .pure rfl

include hx

theorem parallel_sparBound {y y' : String} (hy : N.spar y y') (face : Face K) (r : K)
    (up : Vec K) :
    Parallel N d d' Eq (sparBound x y face r up) (sparBound x' y' face r up) := by
  refine (parallel_spar h hy).bind fun s s' hs => ?_
  refine (parallel_sparGeometry h hs).bind_eq fun geometry => ?_
  split
  · exact .pure rfl
  · exact .throw (.geometry hx (.sparCut hy _))

theorem parallel_cutFace (start dir startUp stopUp : Vec K) {l l' m m' : NamedLine}
    (hl : NamedLine.Match N l l') (hm : NamedLine.Match N m m') :
    Parallel N d d' Eq (cutFace x start dir startUp stopUp l m)
      (cutFace x' start dir startUp stopUp l' m') := by
  refine (parallel_size h).bind_eq fun r => ?_
  refine (Parallel.require_eq (.geometry hx (.same _)) _).bind_eq fun front => ?_
  refine (Parallel.require_eq (.geometry hx (.same _)) _).bind_eq fun back => ?_
  refine (Parallel.ofExcept (.ofShapeFault hx _)).bind_eq fun face => ?_
  -- the cut at the second line comes after the one at the first line, if there is one
  cases hm with
  | leadingEdge | trailingEdge =>
    cases hl with
    | leadingEdge | trailingEdge => exact .pure rfl
    | spar hy =>
      refine (parallel_sparBound h hx hy face r (-startUp)).bind_eq fun front => ?_
      exact (Parallel.ofExcept (.ofShapeFault hx _)).bind_eq fun face => .pure rfl
  | spar hz =>
    have hruled (front back : Wire K) : Parallel N d d' Eq
        (ofExcept (Error.ofShapeFault x (Face.ruledAlong stopUp back front)))
        (ofExcept (Error.ofShapeFault x' (Face.ruledAlong stopUp back front))) :=
      .ofExcept (.ofShapeFault hx _)
    have hback (front : Wire K) (face : Face K) :=
      (parallel_sparBound h hx hz face r stopUp).bind_eq (hruled front)
    cases hl with
    | leadingEdge | trailingEdge => exact hback front face
    | spar hy =>
      refine (parallel_sparBound h hx hy face r (-startUp)).bind_eq fun front => ?_
      refine (Parallel.ofExcept (.ofShapeFault hx _)).bind_eq fun face => ?_
      exact hback front face

theorem parallel_pointOnLine (face : Face K) {l l' : NamedLine} (hl : NamedLine.Match N l l') :
    Parallel N d d' Eq (pointOnLine x face l) (pointOnLine x' face l') :=
  (parallel_line h hl).bind_eq fun _ => .require_eq (.geometry hx (.missedLine hl)) _

theorem parallel_trimSection {p p' : RibPlacement K} (hp : p.Match N p') (face : Face K)
    {chordPoint : K → Query K (Vec K)}
    (hc : ∀ xsi, Parallel N d d' Eq (chordPoint xsi) (chordPoint xsi)) :
    Parallel N d d' Eq (trimSection x p face chordPoint) (trimSection x' p' face chordPoint) := by
  unfold trimSection
  have hl := hp.ribStart
  have hm := hp.ribEnd
  generalize p.ribStart = l, p'.ribStart = l' at hl
  generalize p.ribEnd = m, p'.ribEnd = m' at hm
  -- the piece at the end is taken from the piece at the start
  cases hm with
  | leadingEdge | trailingEdge =>
    cases hl with
    | leadingEdge | trailingEdge => exact .pure rfl
    | spar hy =>
      refine (hc 1).bind_eq fun _ => ?_
      exact (parallel_nearestPiece h hx hy face _).bind_eq fun _ => .pure rfl
  | spar hz =>
    have hstop (face : Face K) :=
      (hc 0).bind_eq fun point => parallel_nearestPiece h hx hz face point
    cases hl with
    | leadingEdge | trailingEdge => exact hstop face
    | spar hy =>
      refine (hc 1).bind_eq fun _ => ?_
      exact (parallel_nearestPiece h hx hy face _).bind_eq hstop

end Cut

/-! ### The cuts of ribs -/

section Cuts

variable (h : d.LookupsMatch N d') {r r' : RibsDefinition K} (hr : d.RibsMatch N d' r r')
include h hr

theorem parallel_cutBetweenLines (face : Face K) (isTargetFace : Bool) :
    Parallel N d d' Eq (cutBetweenLines r face isTargetFace)
      (cutBetweenLines r' face isTargetFace) := by
  have hx : N.Owner r.uid r'.uid := .ribs hr.toMatch.uid
  have hp := hr.toMatch.positioning
  refine (parallel_pointOnLine h hx face hp.ribStart).bind_eq fun start => ?_
  exact (parallel_pointOnLine h hx face hp.ribEnd).bind_eq fun stop => .pure rfl

theorem parallel_elementCut (element : String) :
    Parallel N d d' Eq (elementCut r element) (elementCut r' element) := by
  have hx : N.Owner r.uid r'.uid := .ribs hr.toMatch.uid
  refine (parallel_elementFace h element).bind_eq fun face => ?_
  refine Parallel.bind_wing h ?_
  refine (parallel_trimSection h hx hr.toMatch.positioning face ?_).bind_eq fun face => ?_
  · exact fun xsi => .ofExcept (.refl _)
  · exact parallel_cutBetweenLines h hr face true

theorem parallel_borderCut (eta : K) :
    Parallel N d d' Eq (borderCut r eta) (borderCut r' eta) := by
  have hx : N.Owner r.uid r'.uid := .ribs hr.toMatch.uid
  refine Parallel.bind_wing h ?_
  refine (parallel_wingGeometry h).bind_eq fun g => ?_
  refine (parallel_trimSection h hx hr.toMatch.positioning _ ?_).bind_eq fun face => ?_
  · exact fun xsi => .pure rfl
  · exact parallel_cutBetweenLines h hr face true

/-- The rib between two points is the same as well. -/
theorem parallel_explicitPlaneCut {e e' : ExplicitRib K} (he : e.Match N e') (start stop : Vec K) :
    Parallel N d d' Eq (explicitPlaneCut r e start stop) (explicitPlaneCut r' e' start stop) := by
  have hx : N.Owner r.uid r'.uid := .ribs hr.toMatch.uid
  refine (parallel_explicitUps h he start stop).bind_eq fun ups => ?_
  dsimp only
  rw [hr.toMatch.crossSection]
  refine (Parallel.require_eq (.geometry hx (.same _)) _).bind_eq fun startUp => ?_
  refine (Parallel.require_eq (.geometry hx (.same _)) _).bind_eq fun stopUp => ?_
  refine (Parallel.require_eq (.geometry hx (.same _)) _).bind_eq fun dir => ?_
  exact (parallel_cutFace h hx start dir _ _ he.ribStart he.ribEnd).bind_eq fun _ => .pure rfl

theorem parallel_explicitCut {e e' : ExplicitRib K} (he : e.Match N e') :
    Parallel N d d' Eq (explicitCut r e) (explicitCut r' e') := by
  have hx : N.Owner r.uid r'.uid := .ribs hr.toMatch.uid
  refine (parallel_endPoint h he.start).bind_eq fun start => ?_
  refine (parallel_endPoint h he.stop).bind_eq fun stop => ?_
  refine Parallel.bind_wing h ?_
  split
  · refine .ite ?_ (parallel_explicitPlaneCut h hr he start stop)
    refine (parallel_elementFace h _).bind_eq fun face => ?_
    refine (parallel_trimSection h hx hr.toMatch.positioning face ?_).bind_eq fun face => ?_
    · exact fun xsi => .ofExcept (.refl _)
    · exact .pure rfl
  · exact parallel_explicitPlaneCut h hr he start stop

section Set

variable {set set' : RibSet K} (hset : set.Match N set')
include hset

omit hr in
theorem parallel_setUp (eta : K) (p : Vec K) (atPosition : Bool) :
    Parallel N d d' Eq (setUp set eta p atPosition) (setUp set' eta p atPosition) := by
  unfold setUp
  rw [hset.ribReference.isEdge]
  refine .ite (.pure rfl) (Parallel.bind_wing h ?_)
  exact .ofExcept (.refl _)

theorem parallel_planeCut (eta : K) (atPosition : Bool) :
    Parallel N d d' Eq (planeCut r set eta atPosition) (planeCut r' set' eta atPosition) := by
  have hx : N.Owner r.uid r'.uid := .ribs hr.toMatch.uid
  refine (parallel_linePoint h hset.ribReference eta).bind_eq fun p => ?_
  refine (parallel_setUp h hset eta p atPosition).bind_eq fun up => ?_
  refine (parallel_ribDirection h hx hset eta p up).bind_eq fun dir => ?_
  dsimp only
  rw [hr.toMatch.crossSection]
  refine (parallel_cutFace h hx p dir _ _ hset.ribStart hset.ribEnd).bind_eq fun face => ?_
  exact parallel_cutBetweenLines h hr face false

theorem parallel_setCut (eta : K) (element : Option String) (atPosition : Bool) :
    Parallel N d d' Eq (setCut r set eta element atPosition)
      (setCut r' set' eta element atPosition) := by
  have hcut (inSection : Bool) : Parallel N d d' Eq
      (if inSection then borderCut r eta else planeCut r set eta atPosition)
      (if inSection then borderCut r' eta else planeCut r' set' eta atPosition) :=
    .ite (parallel_borderCut h hr eta) (parallel_planeCut h hr hset eta atPosition)
  cases element with
  | some element => exact parallel_elementCut h hr element
  | none =>
    refine .ite ?_ (hcut false)
    have hl := hset.ribReference
    generalize set.ribReference = l, set'.ribReference = l' at hl
    cases hl with
    | leadingEdge | trailingEdge => exact hcut true
    | spar hy => exact (parallel_endsInSection h hy eta).bind_eq hcut

omit [Scalar K] h hr in
theorem atBoundary_elementUid? (isFirst isAtEnd : Bool) :
    atBoundary set' SetBoundary.elementUid? isFirst isAtEnd =
      atBoundary set SetBoundary.elementUid? isFirst isAtEnd := by
  rw [atBoundary, atBoundary, hset.start.elementUid?, hset.stop.elementUid?]

omit [Scalar K] h hr in
theorem isSome_atBoundary_sparPositionUid? (isFirst isAtEnd : Bool) :
    (atBoundary set' SetBoundary.sparPositionUid? isFirst isAtEnd).isSome =
      (atBoundary set SetBoundary.sparPositionUid? isFirst isAtEnd).isSome := by
  have hstart := hset.start.isSome_sparPositionUid?
  have hstop := hset.stop.isSome_sparPositionUid?
  cases isFirst <;> cases isAtEnd <;> simp [atBoundary, hstart, hstop]

theorem parallel_setCutsFrom (s : RibSpread K) (n i : Nat) :
    Parallel N d d' Eq (setCutsFrom r set s n i) (setCutsFrom r' set' s n i) := by
  induction n generalizing i with
  | zero => exact .pure rfl
  | succ n ih =>
    unfold setCutsFrom
    dsimp only
    rw [atBoundary_elementUid? hset, isSome_atBoundary_sparPositionUid? hset]
    refine (parallel_setCut h hr hset _ _ _).bind_eq fun cut => ?_
    exact (ih (i + 1)).bind_eq fun _ => .pure rfl

end Set

theorem parallel_buildCuts : Parallel N d d' Eq (buildCuts r) (buildCuts r') := by
  have hp := hr.toMatch.positioning
  unfold buildCuts
  generalize r.positioning = p, r'.positioning = p' at hp
  cases hp with
  | set hset =>
    exact (parallel_spread h hr).bind_eq fun s => parallel_setCutsFrom h hr hset s _ 0
  | explicit he => exact (parallel_explicitCut h hr he).bind_eq fun _ => .pure rfl

theorem parallel_cuts : Parallel N d d' Eq (cuts r) (cuts r') :=
  .cached (Store.filledBy_cuts hr.here) (Store.filledBy_cuts hr.there)
    (parallel_buildCuts h hr)

end Cuts

end Query

end WingBox
