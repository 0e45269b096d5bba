import WingBox.Structure.Ribs

/-!
# Views of spars and ribs

What a structure tells about one spar (`Query.Spar`) or one definition of ribs (`Query.Ribs`),
in the frame of the wing or of the aircraft.  Indices of positions and ribs start at one.
-/

namespace WingBox

open Scalar

namespace Query

variable {K : Type} [Scalar K]

/-! ### Positions -/

/-- The point of the midplane at a position. -/
def positionPoint (uid : String) (frame : Frame) : Query K (Vec K) := do
  pointIn frame (← midplanePoint (← position uid))

/-- The direction of the height of spars at a position. -/
def positionUp (uid : String) : Query K (Vec K) := do
  let p ← position uid
  upVector p (← midplanePoint p)

namespace Spar

/-! ### Spars -/

/-- The faces, trimmed to the wing. -/
def geometry (s : SparSegment K) (frame : Frame) : Query K (Shape K) := do
  shapeIn frame (← sparGeometry s)

/-- The faces, split by ribs and other spars. -/
def divided (s : SparSegment K) (frame : Frame) : Query K (Shape K) := do
  shapeIn frame (← sparDivided s)

/-- The oversized panels. -/
def cutShape (s : SparSegment K) (frame : Frame) : Query K (Shape K) := do
  shapeIn frame (← panels s).cutShape

/-- The edges along a skin. -/
def caps (s : SparSegment K) (side : Side) (frame : Frame) : Query K (Shape K) := do
  if s.hasCap side then
    shapeIn frame (← require (.config s.uid .unbuiltCap) ((← sparCaps s).side? side))
  else throw (.config s.uid (.noSparCap side))

/-- The line through the positions. -/
def midplaneLine (s : SparSegment K) (frame : Frame) : Query K (Wire K) := do
  wireIn frame (← panels s).midplaneLine

/-- The point at a parameter of the line. -/
def point (s : SparSegment K) (eta : K) : Query K (Vec K) :=
  return (← panels s).midplaneLine.pointAt eta

/-- The direction at a parameter of the line. -/
def direction (s : SparSegment K) (eta : K) : Query K (Vec K) :=
  return (← panels s).midplaneLine.tangentAt eta

/-- The length of the line. -/
def length (s : SparSegment K) : Query K K := return (← panels s).midplaneLine.length

/-- The position at an index. -/
def positionAt (s : SparSegment K) (index : Nat) : Query K (SparPosition K) := do
  let count := s.positionUids.length
  let i ← ofExcept (Error.checkIndex .sparPosition index count)
  position (← require (.index .sparPosition index count) s.positionUids[i]?)

/-- The point of the midplane at the position with an index. -/
def midplanePointAt (s : SparSegment K) (index : Nat) (frame : Frame) : Query K (Vec K) := do
  pointIn frame (← midplanePoint (← positionAt s index))

/-- The coordinates of the position with an index. -/
def etaXsiAt (s : SparSegment K) (index : Nat) : Query K (K × K) := do
  let p ← positionAt s index
  match p.eta? with
  | some eta => return (eta, p.xsi)
  | none =>
    let w ← wing
    return ((w.etaXsi (← midplanePoint p)).1, p.xsi)

end Spar

namespace Ribs

/-! ### Ribs -/

/-- The place of a rib in the lists of all ribs. -/
def place (r : RibsDefinition K) (n : Nat) : Query K Nat := do
  ofExcept (Error.checkIndex .rib n (← ribCount r))

/-- The rib in a list of all ribs. -/
def pick {α : Type} (n i : Nat) (ribs : List α) : Query K α :=
  require (.index .rib n ribs.length) ribs[i]?

/-- The faces, trimmed to the wing. -/
def geometry (r : RibsDefinition K) (frame : Frame) : Query K (Shape K) := do
  shapeIn frame (← ribsGeometry r)

/-- The face of one rib. -/
def face (r : RibsDefinition K) (n : Nat) (frame : Frame) : Query K (Face K) := do
  let i ← place r n
  faceIn frame (← pick n i (← ribsGeometry r).faces)

/-- The faces, split by spars. -/
def divided (r : RibsDefinition K) (frame : Frame) : Query K (Shape K) := do
  shapeIn frame (← ribsDivided r)

/-- The edges along a skin. -/
def caps (r : RibsDefinition K) (side : Side) (frame : Frame) : Query K (Shape K) := do
  if r.hasCap side then
    shapeIn frame (← require (.config r.uid .unbuiltCap) ((← ribsCaps r).side? side))
  else throw (.config r.uid (.noRibCap side))

/-- One rib before it is trimmed. -/
def cut (r : RibsDefinition K) (n : Nat) : Query K (RibCut K) := do
  let i ← place r n
  pick n i (← cuts r)

/-- Where one rib starts and ends on the midplane. -/
def midplanePoints (r : RibsDefinition K) (n : Nat) (frame : Frame) :
    Query K (Vec K × Vec K) := do
  let c ← cut r n
  return (← pointIn frame c.start, ← pointIn frame c.stop)

/-- The parameter of the first rib on the reference line. -/
def etaStart (r : RibsDefinition K) : Query K K := return (← spread r).etaStart

/-- The parameter at which a set ends on the reference line. -/
def etaStop (r : RibsDefinition K) : Query K K := return (← spread r).etaStop

/-- The step between neighbouring ribs. -/
def etaOffset (r : RibsDefinition K) : Query K K := return (← spread r).offset

end Ribs

end Query

end WingBox
