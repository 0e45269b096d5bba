import WingBox.Fault.Basic
import WingBox.Scalar
import WingBox.Container.Registry

/-!
# Definitions of spars

A `SparPosition` is a named point of the wing midplane, a `SparSegment` runs through an ordered
chain of positions.
-/

namespace WingBox

open Scalar

/-- The angle at which spars and ribs stand on the midplane unless they say otherwise. -/
def rightAngle {K : Type} [Scalar K] : K := 90.0

/-- A cap along a skin. -/
structure Cap (K : Type) where
  /-- The cross section area. -/
  area : K
  /-- The name of the material. -/
  materialUid : Option String
deriving BEq

/-! ### Positions -/

/-- How a position is placed in span direction. -/
inductive SparLocation (K : Type) where
  /-- At a span coordinate. -/
  | eta (eta : K)
  /-- On the chord line of a section element. -/
  | elementUid (uid : String)
deriving BEq

/-- A named point of the midplane. -/
structure SparPosition (K : Type) where
  /-- The name. -/
  uid : String
  /-- The place in span direction. -/
  location : SparLocation K
  /-- The place on the chord. -/
  xsi : K
deriving BEq

namespace SparPosition

variable {K : Type}

instance : Named (SparPosition K) := ⟨uid, fun uid p => { p with uid }⟩

/-- The span coordinate, if the position has one. -/
def eta? (p : SparPosition K) : Option K :=
  match p.location with
  | .eta eta => some eta
  | .elementUid _ => none

/-- The section element, if the position lies on one. -/
def elementUid? (p : SparPosition K) : Option String :=
  match p.location with
  | .eta _ => none
  | .elementUid uid => some uid

variable [Scalar K]

/-- The position has a span coordinate at the inner end of the wing. -/
def isAtInnerBorder (p : SparPosition K) : Bool := p.eta?.any (· ≤ tolerance)

/-- The position has a span coordinate at the outer end of the wing. -/
def isAtOuterBorder (p : SparPosition K) : Bool := p.eta?.any (1 - tolerance ≤ ·)

/-- The position lies in the plane of a section. -/
def isInSection (p : SparPosition K) : Bool :=
  p.elementUid?.isSome || p.isAtInnerBorder || p.isAtOuterBorder

end SparPosition

/-! ### Segments -/

/-- The cross section of a spar. -/
structure SparCrossSection (K : Type) where
  /-- The cap along the upper skin. -/
  upperCap : Option (Cap K)
  /-- The cap along the lower skin. -/
  lowerCap : Option (Cap K)
  /-- The angle between spar and midplane, of which geometry knows only the right one. -/
  rotation : K
deriving BEq

namespace SparCrossSection

/-- An upright spar without caps. -/
def plain {K : Type} [Scalar K] : SparCrossSection K := ⟨none, none, rightAngle⟩

end SparCrossSection

/-- A spar through some positions. -/
structure SparSegment (K : Type) where
  /-- The name. -/
  uid : String
  /-- The names of the positions from inner to outer. -/
  positionUids : List String
  /-- The cross section. -/
  crossSection : SparCrossSection K
deriving BEq

namespace SparSegment

variable {K : Type}

instance : Named (SparSegment K) := ⟨uid, fun uid s => { s with uid }⟩

/-- There is a cap along a skin. -/
def hasCap (s : SparSegment K) : Side → Bool
  | .upper => s.crossSection.upperCap.isSome
  | .lower => s.crossSection.lowerCap.isSome

/-- The segment after the position `old` got the name `new`. -/
def renamePosition (old new : String) (s : SparSegment K) : SparSegment K :=
  { s with positionUids := s.positionUids.map fun uid => if uid = old then new else uid }

/-- The segment, if it runs through two positions. -/
def check (s : SparSegment K) : Except (Error K) (SparSegment K) :=
  if s.positionUids.length < 2 then .error (.config s.uid .fewPositions) else .ok s

end SparSegment

end WingBox
