import WingBox.Definition.Line
import WingBox.Definition.Spar

/-!
# Definitions of ribs

Ribs are declared as a set along a reference line, `RibSet`, or as one rib between two points,
`ExplicitRib`.  A `RibsDeclaration` has room for both, a `RibsDefinition` is one that declares
exactly one of them with a usable number of ribs.

A `Description` lists all that a structure is made of, in order.
-/

namespace WingBox

open Scalar

/-! ### Sets -/

/-- Where a set of ribs starts or ends along its reference line. -/
inductive SetBoundary (K : Type) where
  /-- At a parameter of the line. -/
  | eta (eta : K)
  /-- At a section element. -/
  | elementUid (uid : String)
  /-- At a spar position. -/
  | sparPositionUid (uid : String)
deriving BEq

namespace SetBoundary

variable {K : Type}

/-- The section element, if the boundary names one. -/
def elementUid? : SetBoundary K → Option String
  | elementUid uid => some uid
  | _ => none

/-- The spar position, if the boundary names one. -/
def sparPositionUid? : SetBoundary K → Option String
  | sparPositionUid uid => some uid
  | _ => none

/-- The boundary after the spar position `old` got the name `new`. -/
def renamePosition (old new : String) : SetBoundary K → SetBoundary K
  | sparPositionUid uid => sparPositionUid (if uid = old then new else uid)
  | b => b

end SetBoundary

/-- How many ribs a set has. -/
inductive RibCount (K : Type) where
  /-- A number of ribs. -/
  | numberOfRibs (n : UInt32)
  /-- A distance along the reference line. -/
  | spacing (distance : K)
deriving BEq

/-- What happens where ribs cross spars. -/
inductive RibCrossing where
  | cross
  | stop
deriving DecidableEq

/-- How ribs are turned. -/
structure RibRotation (K : Type) where
  /-- The angle around the up vector. -/
  z : K
  /-- What the angle is measured from; the leading edge if nothing is named. -/
  reference : Option RibDatum
deriving BEq

namespace RibRotation

/-- Ribs across the span. -/
def plain {K : Type} [Scalar K] : RibRotation K := ⟨rightAngle, none⟩

end RibRotation

/-- A set of ribs along a reference line. -/
structure RibSet (K : Type) where
  /-- The line along which the ribs stand. -/
  ribReference : NamedLine
  /-- Where the set starts. -/
  start : SetBoundary K
  /-- Where the set ends. -/
  stop : SetBoundary K
  /-- The line at which each rib starts. -/
  ribStart : NamedLine
  /-- The line at which each rib ends. -/
  ribEnd : NamedLine
  /-- How many ribs there are. -/
  count : RibCount K
  /-- What happens at spars. -/
  crossing : RibCrossing
  /-- How the ribs are turned. -/
  rotation : RibRotation K
deriving BEq

namespace RibSet

variable {K : Type}

/-- The set after the spar position `old` got the name `new`. -/
def renamePosition (old new : String) (s : RibSet K) : RibSet K :=
  { s with start := s.start.renamePosition old new, stop := s.stop.renamePosition old new }

/-- The set after the spar `old` got the name `new`. -/
def renameSpar (old new : String) (s : RibSet K) : RibSet K :=
  { s with
    ribReference := s.ribReference.renameSpar old new
    ribStart := s.ribStart.renameSpar old new
    ribEnd := s.ribEnd.renameSpar old new
    rotation := { s.rotation with
      reference := s.rotation.reference.map (·.renameSpar old new) } }

end RibSet

/-! ### Explicit ribs -/

/-- One end of an explicit rib. -/
inductive RibEnd (K : Type) where
  /-- A point of the midplane of a wing, which must be the wing of the structure if it is named. -/
  | etaXsi (eta xsi : K) (referenceUid : Option String)
  /-- A point of a line. -/
  | curve (reference : NamedLine) (eta : K)
  /-- A spar position. -/
  | sparPosition (uid : String)
deriving BEq

namespace RibEnd

variable {K : Type}

/-- The end after the spar position `old` got the name `new`. -/
def renamePosition (old new : String) : RibEnd K → RibEnd K
  | sparPosition uid => sparPosition (if uid = old then new else uid)
  | p => p

/-- The end after the spar `old` got the name `new`. -/
def renameSpar (old new : String) : RibEnd K → RibEnd K
  | curve reference eta => curve (reference.renameSpar old new) eta
  | p => p

end RibEnd

/-- A rib between two points. -/
structure ExplicitRib (K : Type) where
  /-- Where the rib starts. -/
  start : RibEnd K
  /-- Where the rib ends. -/
  stop : RibEnd K
  /-- The line at which the rib is trimmed at its start. -/
  ribStart : NamedLine
  /-- The line at which the rib is trimmed at its end. -/
  ribEnd : NamedLine
deriving BEq

namespace ExplicitRib

variable {K : Type}

/-- The rib after the spar position `old` got the name `new`. -/
def renamePosition (old new : String) (r : ExplicitRib K) : ExplicitRib K :=
  { r with start := r.start.renamePosition old new, stop := r.stop.renamePosition old new }

/-- The rib after the spar `old` got the name `new`. -/
def renameSpar (old new : String) (r : ExplicitRib K) : ExplicitRib K :=
  { start := r.start.renameSpar old new
    stop := r.stop.renameSpar old new
    ribStart := r.ribStart.renameSpar old new
    ribEnd := r.ribEnd.renameSpar old new }

end ExplicitRib

/-! ### Either -/

/-- How ribs are placed. -/
inductive RibPlacement (K : Type) where
  | set (set : RibSet K)
  | explicit (rib : ExplicitRib K)
deriving BEq

namespace RibPlacement

variable {K : Type}

/-- The line at which each rib starts. -/
def ribStart : RibPlacement K → NamedLine
  | set s => s.ribStart
  | explicit r => r.ribStart

/-- The line at which each rib ends. -/
def ribEnd : RibPlacement K → NamedLine
  | set s => s.ribEnd
  | explicit r => r.ribEnd

/-- The set, if ribs are placed as one. -/
def set? : RibPlacement K → Option (RibSet K)
  | set s => some s
  | explicit _ => none

/-- The rib, if it is placed on its own. -/
def explicit? : RibPlacement K → Option (ExplicitRib K)
  | set _ => none
  | explicit r => some r

/-- The placing after the spar position `old` got the name `new`. -/
def renamePosition (old new : String) : RibPlacement K → RibPlacement K
  | set s => set (s.renamePosition old new)
  | explicit r => explicit (r.renamePosition old new)

/-- The placing after the spar `old` got the name `new`. -/
def renameSpar (old new : String) : RibPlacement K → RibPlacement K
  | set s => set (s.renameSpar old new)
  | explicit r => explicit (r.renameSpar old new)

end RibPlacement

/-- The cross section of ribs. -/
structure RibCrossSection (K : Type) where
  /-- The angle between rib and midplane around the rib direction. -/
  xRotation : K
  /-- The cap along the upper skin. -/
  upperCap : Option (Cap K)
  /-- The cap along the lower skin. -/
  lowerCap : Option (Cap K)
deriving BEq

namespace RibCrossSection

/-- An upright rib without caps. -/
def plain {K : Type} [Scalar K] : RibCrossSection K := ⟨rightAngle, none, none⟩

/-- There is a cap along a skin. -/
def hasCap {K : Type} (c : RibCrossSection K) : Side → Bool
  | .upper => c.upperCap.isSome
  | .lower => c.lowerCap.isSome

end RibCrossSection

/-- Ribs as they are declared. -/
structure RibsDeclaration (K : Type) where
  /-- The name. -/
  uid : String
  /-- The placing as a set. -/
  ribsPositioning : Option (RibSet K)
  /-- The placing as a single rib. -/
  explicitPositioning : Option (ExplicitRib K)
  /-- The cross section. -/
  crossSection : RibCrossSection K
deriving BEq

/-- Ribs with exactly one placing. -/
structure RibsDefinition (K : Type) where
  /-- The name. -/
  uid : String
  /-- The placing. -/
  positioning : RibPlacement K
  /-- The cross section. -/
  crossSection : RibCrossSection K

namespace RibsDeclaration

variable {K : Type}

/-- The one placing that is declared. -/
def positioning (d : RibsDeclaration K) : Except (Error K) (RibPlacement K) :=
  match d.ribsPositioning, d.explicitPositioning with
  | some s, none => .ok (.set s)
  | none, some r => .ok (.explicit r)
  | none, none => .error (.config d.uid .noPositioning)
  | some _, some _ => .error (.config d.uid .twoPositionings)

/-- A fault in the number of ribs. -/
def countFault? [Scalar K] : RibPlacement K → Option ConfigFault
  | .set s =>
    match s.count with
    | .numberOfRibs n => if n = 0 then some .noRibs else none
    | .spacing distance => if distance ≤ 0 then some .badSpacing else none
  | .explicit _ => none

/-- The definition that is declared. -/
def check [Scalar K] (d : RibsDeclaration K) : Except (Error K) (RibsDefinition K) := do
  let positioning ← d.positioning
  match countFault? positioning with
  | some fault => .error (.config d.uid fault)
  | none => return ⟨d.uid, positioning, d.crossSection⟩

end RibsDeclaration

namespace RibsDefinition

variable {K : Type}

instance : Named (RibsDefinition K) := ⟨uid, fun uid r => { r with uid }⟩

/-- The declaration of a definition. -/
def declaration (r : RibsDefinition K) : RibsDeclaration K :=
  ⟨r.uid, r.positioning.set?, r.positioning.explicit?, r.crossSection⟩

/-- There is a cap along a skin. -/
def hasCap (r : RibsDefinition K) (side : Side) : Bool := r.crossSection.hasCap side

/-- The set of ribs, of which an explicit rib is none. -/
def set (r : RibsDefinition K) : Except (Error K) (RibSet K) :=
  match r.positioning with
  | .set s => .ok s
  | .explicit _ => .error (.config r.uid .noReferenceRange)

/-- The definition after the spar position `old` got the name `new`. -/
def renamePosition (old new : String) (r : RibsDefinition K) : RibsDefinition K :=
  { r with positioning := r.positioning.renamePosition old new }

/-- The definition after the spar `old` got the name `new`. -/
def renameSpar (old new : String) (r : RibsDefinition K) : RibsDefinition K :=
  { r with positioning := r.positioning.renameSpar old new }

end RibsDefinition

/-! ### Descriptions -/

/-- The spar positions, spar segments and ribs of a wing. -/
structure Description (K : Type) where
  /-- The spar positions. -/
  sparPositions : List (SparPosition K)
  /-- The spar segments. -/
  sparSegments : List (SparSegment K)
  /-- The ribs. -/
  ribsDefinitions : List (RibsDeclaration K)
deriving BEq

end WingBox
