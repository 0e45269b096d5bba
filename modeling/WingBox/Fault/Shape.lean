/-!
# Faults of shape operations

Why an operation on wires and faces has no result.  `ShapeFault` names the cause,
`ShapeFault.message` words it.
-/

namespace WingBox

/-- Why the input of an operation is degenerate. -/
inductive Degeneracy where
  /-- A face needs three boundary points. -/
  | fewBoundaryPoints
  /-- All facets of a face are slivers. -/
  | noArea
  /-- A ruled face between wires that span nothing. -/
  | coincidentWires
  /-- A loft needs two profiles. -/
  | fewProfiles (found : Nat)
  /-- Profiles of a loft differ in size, or have less than three points. -/
  | unequalProfiles
  /-- Edges outside of the profiles of a loft, or none. -/
  | edgeRange (first stop size : Nat)
  /-- The points where a rib meets a spar make no wire. -/
  | cutWire
  /-- A cause given in words. -/
  | stated (reason : String)
deriving DecidableEq

namespace Degeneracy

/-- The cause in words. -/
def message : Degeneracy → String
  | fewBoundaryPoints => "face boundary has fewer than 3 points"
  | noArea => "face boundary encloses no area"
  | coincidentWires => "ruled face between coincident wires"
  | fewProfiles found => s!"loft needs at least 2 profiles, got {found}"
  | unequalProfiles => "loft profiles must share a vertex count of at least 3"
  | edgeRange first stop size => s!"loft edge range {first}..{stop} outside profile of {size} edges"
  | cutWire => "spar cut wire"
  | stated reason => reason

end Degeneracy

/-- How many wires an operation can use. -/
inductive WireDemand where
  | one
  | oneOrTwo
deriving DecidableEq

namespace WireDemand

/-- The demand in digits. -/
def message : WireDemand → String
  | one => "1"
  | oneOrTwo => "1 or 2"

end WireDemand

/-- Why an operation on wires and faces has no result. -/
inductive ShapeFault where
  /-- A boundary does not end where it begins. -/
  | openWire
  /-- The input has no extent. -/
  | degenerate (cause : Degeneracy)
  /-- Edges chain into the wrong number of wires. -/
  | wireCount (expected : WireDemand) (found : Nat)
  /-- Edges have too many loose ends. -/
  | endVertices (found : Nat)
  /-- Shapes do not meet. -/
  | noIntersection
deriving DecidableEq

namespace ShapeFault

/-- The fault in words. -/
def message : ShapeFault → String
  | openWire => "wire is not closed"
  | degenerate cause => "degenerate geometry: " ++ cause.message
  | wireCount expected found => "expected " ++ expected.message ++ s!" wire(s), found {found}"
  | endVertices found => s!"expected at most 2 end vertices, found {found}"
  | noIntersection => "shapes do not intersect"

end ShapeFault

end WingBox
