import Mathlib.Data.List.Forall2
import Mathlib.Data.Option.Defs
import WingBox.Definition.Ribs

/-!
# Definitions that differ in names

A `Naming` says which names of one structure stand for which names of another, for every kind of
part.  Two definitions `Match` under a naming when they are the same except that names stand for
names, and two refusals `Match` when they have the same cause, told with names that stand for
names.

Names are compared where parts are looked up, where a spar position has to lie on a spar and where a
spar has to be the reference line, so a naming is one to one on the names that it covers.
-/

namespace WingBox

variable {K : Type}

/-- Which names stand for which. -/
structure Naming where
  /-- Names of spar positions. -/
  position : String → String → Prop
  /-- Names of spars. -/
  spar : String → String → Prop
  /-- Names of ribs. -/
  ribs : String → String → Prop
  /-- Different positions have different names on both sides. -/
  position_iff : ∀ {x x' y y'}, position x x' → position y y' → (x = y ↔ x' = y')
  /-- Different spars have different names on both sides. -/
  spar_iff : ∀ {x x' y y'}, spar x x' → spar y y' → (x = y ↔ x' = y')
  /-- Different ribs have different names on both sides. -/
  ribs_iff : ∀ {x x' y y'}, ribs x x' → ribs y y' → (x = y ↔ x' = y')

namespace Naming

/-- Every name stands for itself. -/
def same : Naming where
  position := Eq
  spar := Eq
  ribs := Eq
  position_iff := by rintro _ _ _ _ rfl rfl; rfl
  spar_iff := by rintro _ _ _ _ rfl rfl; rfl
  ribs_iff := by rintro _ _ _ _ rfl rfl; rfl

/-- The names of parts, of whatever kind. -/
inductive Owner (N : Naming) : String → String → Prop
  | position {x x' : String} (h : N.position x x') : Owner N x x'
  | spar {x x' : String} (h : N.spar x x') : Owner N x x'
  | ribs {x x' : String} (h : N.ribs x x') : Owner N x x'

end Naming

variable (N : Naming)

/-! ### Lines -/

/-- The same edge, or spars that stand for each other. -/
inductive NamedLine.Match : NamedLine → NamedLine → Prop
  | leadingEdge : Match .leadingEdge .leadingEdge
  | trailingEdge : Match .trailingEdge .trailingEdge
  | spar {x x' : String} (h : N.spar x x') : Match (.spar x) (.spar x')

/-- The same axis, or lines that stand for each other. -/
inductive RibDatum.Match : RibDatum → RibDatum → Prop
  | line {l l' : NamedLine} (h : NamedLine.Match N l l') : Match (.line l) (.line l')
  | globalX : Match .globalX .globalX
  | globalY : Match .globalY .globalY

/-! ### Spars -/

/-- The same point under names that stand for each other. -/
structure SparPosition.Match (p p' : SparPosition K) : Prop where
  /-- The names. -/
  uid : N.position p.uid p'.uid
  /-- The place in span direction. -/
  location : p'.location = p.location
  /-- The place on the chord. -/
  xsi : p'.xsi = p.xsi

/-- The same spar through positions that stand for each other. -/
structure SparSegment.Match (s s' : SparSegment K) : Prop where
  /-- The names. -/
  uid : N.spar s.uid s'.uid
  /-- The positions. -/
  positionUids : List.Forall₂ N.position s.positionUids s'.positionUids
  /-- The cross section. -/
  crossSection : s'.crossSection = s.crossSection

/-! ### Ribs -/

/-- The same boundary, or positions that stand for each other. -/
inductive SetBoundary.Match : SetBoundary K → SetBoundary K → Prop
  | eta (eta : K) : Match (.eta eta) (.eta eta)
  | elementUid (uid : String) : Match (.elementUid uid) (.elementUid uid)
  | sparPositionUid {x x' : String} (h : N.position x x') :
    Match (.sparPositionUid x) (.sparPositionUid x')

/-- The same set along and between lines that stand for each other. -/
structure RibSet.Match (s s' : RibSet K) : Prop where
  /-- The reference line. -/
  ribReference : NamedLine.Match N s.ribReference s'.ribReference
  /-- Where the set starts. -/
  start : SetBoundary.Match N s.start s'.start
  /-- Where the set ends. -/
  stop : SetBoundary.Match N s.stop s'.stop
  /-- The line at which each rib starts. -/
  ribStart : NamedLine.Match N s.ribStart s'.ribStart
  /-- The line at which each rib ends. -/
  ribEnd : NamedLine.Match N s.ribEnd s'.ribEnd
  /-- How many ribs there are. -/
  count : s'.count = s.count
  /-- The angle of the ribs. -/
  z : s'.rotation.z = s.rotation.z
  /-- What the angle is measured from. -/
  reference : Option.Rel (RibDatum.Match N) s.rotation.reference s'.rotation.reference

/-- The same end of a rib, on a line or at a position that stands for the other. -/
inductive RibEnd.Match : RibEnd K → RibEnd K → Prop
  | etaXsi (eta xsi : K) (referenceUid : Option String) :
    Match (.etaXsi eta xsi referenceUid) (.etaXsi eta xsi referenceUid)
  | curve {l l' : NamedLine} (h : NamedLine.Match N l l') (eta : K) :
    Match (.curve l eta) (.curve l' eta)
  | sparPosition {x x' : String} (h : N.position x x') :
    Match (.sparPosition x) (.sparPosition x')

/-- The same rib between ends that stand for each other. -/
structure ExplicitRib.Match (e e' : ExplicitRib K) : Prop where
  /-- Where the rib starts. -/
  start : RibEnd.Match N e.start e'.start
  /-- Where the rib ends. -/
  stop : RibEnd.Match N e.stop e'.stop
  /-- The line at which the rib is trimmed at its start. -/
  ribStart : NamedLine.Match N e.ribStart e'.ribStart
  /-- The line at which the rib is trimmed at its end. -/
  ribEnd : NamedLine.Match N e.ribEnd e'.ribEnd

/-- The same placing in one of both ways. -/
inductive RibPlacement.Match : RibPlacement K → RibPlacement K → Prop
  | set {s s' : RibSet K} (h : RibSet.Match N s s') : Match (.set s) (.set s')
  | explicit {e e' : ExplicitRib K} (h : ExplicitRib.Match N e e') :
    Match (.explicit e) (.explicit e')

/-- The same ribs under names that stand for each other. -/
structure RibsDefinition.Match (r r' : RibsDefinition K) : Prop where
  /-- The names. -/
  uid : N.ribs r.uid r'.uid
  /-- The placing. -/
  positioning : RibPlacement.Match N r.positioning r'.positioning
  /-- The cross section. -/
  crossSection : r'.crossSection = r.crossSection

/-! ### Refusals -/

/-- The same cause, told with names that stand for each other. -/
inductive GeometryFault.Match : GeometryFault K → GeometryFault K → Prop
  | same (f : GeometryFault K) : Match f f
  | missedReference {x x' : String} (h : N.position x x') :
    Match (.missedReference x) (.missedReference x')
  | vanishedFace {x x' : String} (h : N.spar x x') : Match (.vanishedFace x) (.vanishedFace x')
  | sparCut {x x' : String} (h : N.spar x x') (e : ShapeFault) :
    Match (.sparCut x e) (.sparCut x' e)
  | missedLine {l l' : NamedLine} (h : NamedLine.Match N l l') :
    Match (.missedLine l.text) (.missedLine l'.text)

/-- The same cause, told with names that stand for each other. -/
inductive ConfigFault.Match : ConfigFault → ConfigFault → Prop
  | same (f : ConfigFault) : Match f f
  | positionOffSpar {p p' s s' : String} (hp : N.position p p') (hs : N.spar s s') :
    Match (.positionOffSpar p s) (.positionOffSpar p' s')

/-- The same refusal, told with names that stand for each other. -/
inductive Error.Match : Error K → Error K → Prop
  | same (e : Error K) : Match e e
  | position {x x' : String} (h : N.position x x') :
    Match (.notFound .sparPosition x) (.notFound .sparPosition x')
  | spar {x x' : String} (h : N.spar x x') :
    Match (.notFound .sparSegment x) (.notFound .sparSegment x')
  | ribs {x x' : String} (h : N.ribs x x') :
    Match (.notFound .ribsDefinition x) (.notFound .ribsDefinition x')
  | geometry {x x' : String} {f f' : GeometryFault K} (hx : N.Owner x x')
    (hf : GeometryFault.Match N f f') : Match (.geometry x f) (.geometry x' f')
  | config {x x' : String} {f f' : ConfigFault} (hx : N.Owner x x')
    (hf : ConfigFault.Match N f f') : Match (.config x f) (.config x' f')

/-- Two outcomes with related values or with refusals that match. -/
inductive OutcomesMatch {α β : Type} (R : α → β → Prop) :
    Except (Error K) α → Except (Error K) β → Prop
  | ok {x : α} {y : β} (h : R x y) : OutcomesMatch R (.ok x) (.ok y)
  | error {e e' : Error K} (h : Error.Match N e e') : OutcomesMatch R (.error e) (.error e')

variable {N}

/-! ### What matching definitions have in common -/

namespace NamedLine.Match

variable {l l' : NamedLine}

theorem isEdge (h : NamedLine.Match N l l') : l'.isEdge = l.isEdge := by
  cases h <;> rfl

/-- One of two matching lines belongs to a spar if the other one belongs to its counterpart. -/
theorem sparUid?_eq_some_iff (h : NamedLine.Match N l l') {x x' : String} (hx : N.spar x x') :
    l.sparUid? = some x ↔ l'.sparUid? = some x' := by
  cases h with
  | leadingEdge | trailingEdge => exact ⟨nofun, nofun⟩
  | spar hy =>
    have hxy := N.spar_iff hy hx
    simp only [NamedLine.sparUid?, Option.some.injEq, hxy]

end NamedLine.Match

/-- Searching lists of related entries finds related entries. -/
theorem rel_find? {α β : Type} {R : α → β → Prop} {p : α → Bool} {q : β → Bool}
    (hpq : ∀ x y, R x y → (p x ↔ q y)) {xs : List α} {ys : List β} (h : List.Forall₂ R xs ys) :
    Option.Rel R (xs.find? p) (ys.find? q) := by
  induction h with
  | nil => exact .none
  | @cons x y _ _ hxy _ ih =>
    by_cases hp : p x
    · rw [List.find?_cons_of_pos hp, List.find?_cons_of_pos ((hpq x y hxy).1 hp)]
      exact .some hxy
    · rw [List.find?_cons_of_neg hp, List.find?_cons_of_neg (mt (hpq x y hxy).2 hp)]
      exact ih

/-- Lists of related entries have related entries at every index. -/
theorem rel_getElem? {α β : Type} {R : α → β → Prop} {xs : List α} {ys : List β}
    (h : List.Forall₂ R xs ys) (i : Nat) : Option.Rel R xs[i]? ys[i]? := by
  induction h generalizing i with
  | nil => exact .none
  | cons hxy _ ih =>
    cases i with
    | zero => exact .some hxy
    | succ i => exact ih i

/-- A position is in a list if its counterpart is in the list of the counterparts. -/
theorem Naming.mem_iff {xs xs' : List String} (h : List.Forall₂ N.position xs xs') {x x' : String}
    (hx : N.position x x') : x ∈ xs ↔ x' ∈ xs' := by
  induction h with
  | nil => exact ⟨nofun, nofun⟩
  | cons hy _ ih => rw [List.mem_cons, List.mem_cons, ih, N.position_iff hx hy]

namespace SparPosition.Match

variable {p p' : SparPosition K}

theorem eta? (h : p.Match N p') : p'.eta? = p.eta? := by
  rw [SparPosition.eta?, SparPosition.eta?, h.location]

theorem elementUid? (h : p.Match N p') : p'.elementUid? = p.elementUid? := by
  rw [SparPosition.elementUid?, SparPosition.elementUid?, h.location]

variable [Scalar K]

theorem isAtInnerBorder (h : p.Match N p') : p'.isAtInnerBorder = p.isAtInnerBorder := by
  rw [SparPosition.isAtInnerBorder, SparPosition.isAtInnerBorder, h.eta?]

theorem isAtOuterBorder (h : p.Match N p') : p'.isAtOuterBorder = p.isAtOuterBorder := by
  rw [SparPosition.isAtOuterBorder, SparPosition.isAtOuterBorder, h.eta?]

theorem isInSection (h : p.Match N p') : p'.isInSection = p.isInSection := by
  rw [SparPosition.isInSection, SparPosition.isInSection, h.elementUid?, h.isAtInnerBorder,
    h.isAtOuterBorder]

end SparPosition.Match

theorem SparSegment.Match.hasCap {s s' : SparSegment K} (h : s.Match N s') :
    s'.hasCap = s.hasCap := by
  funext side
  cases side <;> rw [SparSegment.hasCap, SparSegment.hasCap, h.crossSection]

theorem RibsDefinition.Match.hasCap {r r' : RibsDefinition K} (h : r.Match N r') :
    r'.hasCap = r.hasCap := by
  funext side
  rw [RibsDefinition.hasCap, RibsDefinition.hasCap, h.crossSection]

theorem RibsDefinition.Match.set {r r' : RibsDefinition K} (h : r.Match N r') :
    OutcomesMatch N (RibSet.Match N) r.set r'.set := by
  have hp := h.positioning
  unfold RibsDefinition.set
  generalize r.positioning = p, r'.positioning = p' at hp
  cases hp with
  | set hset => exact .ok hset
  | explicit => exact .error (.config (.ribs h.uid) (.same _))

namespace RibPlacement.Match

variable {p p' : RibPlacement K}

theorem ribStart (h : p.Match N p') : NamedLine.Match N p.ribStart p'.ribStart := by
  cases h with
  | set h => exact h.ribStart
  | explicit h => exact h.ribStart

theorem ribEnd (h : p.Match N p') : NamedLine.Match N p.ribEnd p'.ribEnd := by
  cases h with
  | set h => exact h.ribEnd
  | explicit h => exact h.ribEnd

end RibPlacement.Match

theorem SetBoundary.Match.elementUid? {b b' : SetBoundary K} (h : b.Match N b') :
    b'.elementUid? = b.elementUid? := by
  cases h <;> rfl

theorem SetBoundary.Match.isSome_sparPositionUid? {b b' : SetBoundary K} (h : b.Match N b') :
    b'.sparPositionUid?.isSome = b.sparPositionUid?.isSome := by
  cases h <;> rfl

/-! ### Names that stand for themselves -/

/-- A name stands for no other name. -/
structure Naming.Keeps (N : Naming) : Prop where
  /-- Names of spar positions. -/
  position : ∀ {x x'}, N.position x x' → x = x'
  /-- Names of spars. -/
  spar : ∀ {x x'}, N.spar x x' → x = x'
  /-- Names of ribs. -/
  ribs : ∀ {x x'}, N.ribs x x' → x = x'

theorem Naming.keeps_same : Naming.same.Keeps := ⟨id, id, id⟩

section Keeps

variable (hN : N.Keeps)
include hN

theorem Naming.Owner.eq {x x' : String} (h : N.Owner x x') : x = x' := by
  cases h with
  | position h => exact hN.position h
  | spar h => exact hN.spar h
  | ribs h => exact hN.ribs h

theorem NamedLine.Match.eq {l l' : NamedLine} (h : NamedLine.Match N l l') : l = l' := by
  cases h with
  | leadingEdge | trailingEdge => rfl
  | spar h => exact congrArg _ (hN.spar h)

theorem GeometryFault.Match.eq {f f' : GeometryFault K} (h : f.Match N f') : f = f' := by
  cases h with
  | same => rfl
  | missedReference h => exact congrArg _ (hN.position h)
  | vanishedFace h => exact congrArg _ (hN.spar h)
  | sparCut h e => exact congrArg (GeometryFault.sparCut · e) (hN.spar h)
  | missedLine h => rw [h.eq hN]

theorem ConfigFault.Match.eq {f f' : ConfigFault} (h : f.Match N f') : f = f' := by
  cases h with
  | same => rfl
  | positionOffSpar hp hs => exact congrArg₂ _ (hN.position hp) (hN.spar hs)

theorem Error.Match.eq {e e' : Error K} (h : e.Match N e') : e = e' := by
  cases h with
  | same => rfl
  | position h => exact congrArg _ (hN.position h)
  | spar h => exact congrArg _ (hN.spar h)
  | ribs h => exact congrArg _ (hN.ribs h)
  | geometry hx hf => rw [hx.eq hN, hf.eq hN]
  | config hx hf => rw [hx.eq hN, hf.eq hN]

theorem OutcomesMatch.eq {α : Type} {r r' : Except (Error K) α} (h : OutcomesMatch N Eq r r') :
    r = r' := by
  cases h with
  | ok h => exact congrArg _ h
  | error h => exact congrArg _ (h.eq hN)

end Keeps

/-! ### Outcomes -/

namespace OutcomesMatch

variable {α β γ δ : Type} {R : α → β → Prop} {S : γ → δ → Prop}

theorem refl (r : Except (Error K) α) : OutcomesMatch N Eq r r := by
  cases r with
  | ok x => exact .ok rfl
  | error e => exact .error (.same e)

theorem bind {r : Except (Error K) α} {r' : Except (Error K) β} (h : OutcomesMatch N R r r')
    {f : α → Except (Error K) γ} {f' : β → Except (Error K) δ}
    (hf : ∀ x y, R x y → OutcomesMatch N S (f x) (f' y)) :
    OutcomesMatch N S (r >>= f) (r' >>= f') := by
  cases h with
  | ok h => exact hf _ _ h
  | error h => exact .error h

theorem require {e e' : Error K} (he : e.Match N e') (o : Option α) :
    OutcomesMatch N Eq (Error.require e o) (Error.require e' o) := by
  cases o with
  | some x => exact .ok rfl
  | none => exact .error he

theorem ofShapeFault {x x' : String} (hx : N.Owner x x') (r : Except ShapeFault α) :
    OutcomesMatch N Eq (Error.ofShapeFault (K := K) x r) (Error.ofShapeFault x' r) := by
  cases r with
  | ok x => exact .ok rfl
  | error e => exact .error (.geometry hx (.same _))

theorem mapM {f g : α → Except (Error K) γ} (h : ∀ x, OutcomesMatch N Eq (f x) (g x))
    (xs : List α) : OutcomesMatch N Eq (xs.mapM f) (xs.mapM g) := by
  induction xs with
  | nil => exact .ok rfl
  | cons x xs ih =>
    simp only [List.mapM_cons]
    refine (h x).bind fun y _ hy => hy ▸ ih.bind fun ys _ hys => hys ▸ ?_
    exact .ok rfl

end OutcomesMatch

end WingBox
