import WingBox.Decimal.Shortest
import WingBox.Fault.Shape

/-!
# Faults of wings and structures

`Error` says why a query or an edit was refused and names the entity.  The reasons are causes:
`GeometryFault` where a valid definition has no geometry, `ConfigFault` where the definition is
at fault.  `Error.message` words them.
-/

namespace WingBox

/-- What a name should have named. -/
inductive EntityKind where
  | sparPosition
  | sparSegment
  | ribsDefinition
  | sectionElement
  | wingReference
  /-- Any entity of a structure. -/
  | entity
deriving DecidableEq

namespace EntityKind

/-- The kind in words. -/
def message : EntityKind → String
  | sparPosition => "spar position"
  | sparSegment => "spar segment"
  | ribsDefinition => "ribs definition"
  | sectionElement => "section element"
  | wingReference => "wing structure reference"
  | entity => "entity"

end EntityKind

/-- What an index counts. -/
inductive Counted where
  | rib
  | sparPosition
  | sparSegment
  | ribsDefinition
deriving DecidableEq

namespace Counted

/-- The counted thing in words. -/
def message : Counted → String
  | rib => "rib"
  | sparPosition => "spar position"
  | sparSegment => "spar segment"
  | ribsDefinition => "ribs definition"

end Counted

/-- The upper or the lower skin. -/
inductive Side where
  | upper
  | lower
deriving DecidableEq

namespace Side

/-- The side in words. -/
def message : Side → String
  | upper => "upper"
  | lower => "lower"

end Side

/-! ### Geometry -/

/-- Why a definition has no geometry. -/
inductive GeometryFault (K : Type) where
  /-- An operation on wires and faces failed. -/
  | shape (fault : ShapeFault)
  /-- The chord has no length. -/
  | zeroChord (eta : K)
  /-- Chord and span run along one line. -/
  | degenerateMidplane (eta : K)
  /-- The leading edge has no length. -/
  | noSpanDirection (eta : K)
  | degenerateProfile
  | degenerateEdgeLine
  | coincidentMidplanePoints
  /-- The section at a spar position is not cut in one piece. -/
  | sectionCutEnds (found : Nat)
  | noSectionHeight
  /-- The spar position at an index coincides with the next one. -/
  | coincidentPositions (index : Nat)
  | noSparExtent
  /-- The reference line does not meet a section element. -/
  | missedElement (element : String)
  | directionAlongUp
  /-- The rib through a spar position does not meet the reference line. -/
  | missedReference (position : String)
  | noRibDirection
  /-- Nothing is left of a section face. -/
  | vanishedFace (spar : String)
  | noStartUp
  | noStopUp
  /-- A rib and a spar do not meet in one wire. -/
  | sparCut (spar : String) (fault : ShapeFault)
  /-- A rib does not meet a line that bounds it. -/
  | missedLine (line : String)
  | noUp
  | coincidentEnds
  /-- A cause given in words. -/
  | stated (reason : String)

namespace GeometryFault

/-- The cause in words, with numbers written by `text`. -/
def message {K : Type} (text : K → String) : GeometryFault K → String
  | shape fault => fault.message
  | zeroChord eta => "zero chord at eta " ++ text eta
  | degenerateMidplane eta => "degenerate midplane at eta " ++ text eta
  | noSpanDirection eta => "leading edge has no span direction at eta " ++ text eta
  | degenerateProfile => "degenerate profile"
  | degenerateEdgeLine => "degenerate edge line"
  | coincidentMidplanePoints => "midplane line between coincident points"
  | sectionCutEnds found =>
    s!"section face cut at spar position yields {found} end points instead of 2"
  | noSectionHeight => "section face has no height at spar position"
  | coincidentPositions index =>
    let next := index + 1
    s!"spar positions {index} and {next} coincide"
  | noSparExtent => "spar midplane line has no extent"
  | missedElement element => s!"rib reference line does not cross section element \"{element}\""
  | directionAlongUp => "rib direction is parallel to the up vector"
  | missedReference position =>
    s!"rib through spar position \"{position}\" does not cross the reference line"
  | noRibDirection => "rib direction vanishes"
  | vanishedFace spar => s!"section face vanished when split by spar \"{spar}\""
  | noStartUp => "rib up vector vanishes at its start"
  | noStopUp => "rib up vector vanishes at its end"
  | sparCut spar fault => s!"intersection with spar \"{spar}\" failed: " ++ fault.message
  | missedLine line => s!"rib does not meet \"{line}\""
  | noUp => "rib up vector vanishes"
  | coincidentEnds => "rib start and end point coincide"
  | stated reason => reason

end GeometryFault

/-! ### Definitions -/

/-- Why a definition is refused. -/
inductive ConfigFault where
  | fewSections
  | duplicateSection (element : String)
  | flatSection (element : String)
  | coincidentSections (inner outer : String)
  | fewProfilePoints
  | profileStart
  | fewPositions
  | noPositioning
  | twoPositionings
  | noRibs
  | badSpacing
  /-- An explicit rib has no reference line. -/
  | noReferenceRange
  /-- A spar position bounds ribs whose reference line is an edge. -/
  | boundWithoutSpar
  | positionOffSpar (position spar : String)
  | foreignRotationSpar
  | duplicatePosition
  | duplicateSpar
  | duplicateRibs
  /-- An edit changed a name. -/
  | changedUid
  | takenUid
  | noSparCap (side : Side)
  | noRibCap (side : Side)
  | unbuiltCap
  /-- A cause given in words. -/
  | stated (reason : String)
deriving DecidableEq

namespace ConfigFault

/-- The cause in words. -/
def message : ConfigFault → String
  | fewSections => "a wing needs at least two sections"
  | duplicateSection element => s!"duplicate section element \"{element}\""
  | flatSection element => s!"section \"{element}\" has no extent"
  | coincidentSections inner outer => s!"sections \"{inner}\" and \"{outer}\" coincide in span"
  | fewProfilePoints => "profile needs at least three points"
  | profileStart => "profile must start at its leading edge"
  | fewPositions => "a spar needs at least two spar positions"
  | noPositioning => "neither ribs positioning nor explicit rib positioning is defined"
  | twoPositionings => "both ribs positioning and explicit rib positioning are defined"
  | noRibs => "number of ribs must be at least 1"
  | badSpacing => "rib spacing must be positive"
  | noReferenceRange => "an explicitly positioned rib has no reference eta range"
  | boundWithoutSpar => "a spar position can only bound ribs whose reference line is a spar"
  | positionOffSpar position spar =>
    s!"spar position \"{position}\" is not part of reference spar \"{spar}\""
  | foreignRotationSpar => "a spar used as rotation reference must also be the rib reference"
  | duplicatePosition => "duplicate spar position UID"
  | duplicateSpar => "duplicate spar segment UID"
  | duplicateRibs => "duplicate ribs definition UID"
  | changedUid => "UIDs can only be changed with rename_uid"
  | takenUid => "UID already in use"
  | noSparCap side => "spar has no " ++ side.message ++ " cap"
  | noRibCap side => "ribs have no " ++ side.message ++ " cap"
  | unbuiltCap => "caps were built without this side"
  | stated reason => reason

end ConfigFault

/-! ### Errors -/

/-- Why a query or an edit was refused. -/
inductive Error (K : Type) where
  /-- A name names nothing. -/
  | notFound (kind : EntityKind) (uid : String)
  /-- An index that starts at one is beyond the count. -/
  | index (what : Counted) (index count : Nat)
  /-- The definition of an entity has no geometry. -/
  | geometry (uid : String) (fault : GeometryFault K)
  /-- The definition of an entity is incomplete or contradictory. -/
  | config (uid : String) (fault : ConfigFault)
  /-- A text describes no structure. -/
  | json

namespace Error

/-- The refusal in words, with numbers written by `text`. -/
def messageWith {K : Type} (text : K → String) : Error K → String
  | .notFound kind uid => kind.message ++ s!" \"{uid}\" not found"
  | .index what i count => what.message ++ s!" index {i} out of range [1, {count}]"
  | .geometry uid fault => s!"geometry of \"{uid}\" is inconsistent: " ++ fault.message text
  | .config uid fault => s!"invalid definition of \"{uid}\": " ++ fault.message
  | .json => "malformed structure description"

/-- The refusal in words. -/
def message (e : Error Float) : String := e.messageWith Decimal.positionalText

/-- The place of an index that starts at one, counted from zero. -/
def checkIndex {K : Type} (what : Counted) (index count : Nat) : Except (Error K) Nat :=
  if index = 0 ∨ count < index then .error (.index what index count) else .ok (index - 1)

/-- A failed operation as a fault of the entity that needed it. -/
def ofShapeFault {K α : Type} (uid : String) : Except ShapeFault α → Except (Error K) α
  | .ok x => .ok x
  | .error e => .error (.geometry uid (.shape e))

/-- A missing value as a fault. -/
def require {K α : Type} (e : Error K) : Option α → Except (Error K) α
  | some x => .ok x
  | none => .error e

theorem require_eq_ok_iff {K α : Type} {e : Error K} {o : Option α} {x : α} :
    require e o = .ok x ↔ o = some x := by
  cases o with
  | none => constructor <;> intro h <;> cases h
  | some y => exact ⟨fun h => congrArg some (Except.ok.inj h), fun h => h ▸ rfl⟩

end Error

/-- What is done in two steps succeeds if both do. -/
theorem bind_eq_ok_iff {ε α β : Type} {x : Except ε α} {f : α → Except ε β} {y : β} :
    (x >>= f) = .ok y ↔ ∃ a, x = .ok a ∧ f a = .ok y := by
  cases x with
  | error e =>
    constructor
    · intro h
      cases h
    · intro h
      obtain ⟨a, ha, -⟩ := h
      cases ha
  | ok a =>
    constructor
    · exact fun h => ⟨a, rfl, h⟩
    · intro h
      obtain ⟨b, hb, h⟩ := h
      exact Except.ok.inj hb ▸ h

end WingBox
