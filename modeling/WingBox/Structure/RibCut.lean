import WingBox.Cut.Split
import WingBox.Structure.RibSpread

/-!
# Cutting ribs

Every rib is cut from a surface.  A rib in the plane of a section is cut from the face of the
section, which then is its final face; any other rib from an oversized face through its reference
point.  Both are trimmed at the spars where the rib starts and ends.

`Query.cuts` gives the surfaces of all ribs of a definition, with the points where each rib
starts and ends on the midplane.
-/

namespace WingBox

open Scalar

namespace Query

variable {K : Type} [Scalar K]

/-- A parameter at an end of a line. -/
def nearEnd (eta : K) : Bool := eta < tolerance || 1 - tolerance < eta

/-! ### Section faces -/

/-- The piece of a face nearest to a point after the face is split by a spar. -/
def nearestPiece (uid name : String) (face : Face K) (target : Vec K) : Query K (Face K) := do
  let cut := (← panels (← spar name)).cutShape
  let pieces := ((Shape.ofFace face).split cut).faces
  match Face.nearest? pieces target with
  | some (_, piece) => return piece
  | none => throw (.geometry uid (.vanishedFace name))

/-- A section face trimmed at spars.  At the start of the rib the part nearest to the trailing
edge is kept, at its end the part nearest to the leading edge. -/
def trimSection (uid : String) (positioning : RibPlacement K) (face : Face K)
    (chordPoint : K → Query K (Vec K)) : Query K (Face K) := do
  let face ← match positioning.ribStart.sparUid? with
    | some name => nearestPiece uid name face (← chordPoint 1)
    | none => pure face
  match positioning.ribEnd.sparUid? with
  | some name => nearestPiece uid name face (← chordPoint 0)
  | none => return face

/-! ### Oversized faces -/

/-- A point pushed out by `r` along `up`, away from the point next to it. -/
def pushed (up : Vec K) (r : K) (outer inner : Vec K) : Vec K :=
  if 0 ≤ (outer - inner).dot up then outer + r • up else outer - r • up

/-- The points of a wire; those of an open wire with its ends pushed out. -/
def stretched (up : Vec K) (r : K) (w : Wire K) : List (Vec K) :=
  if w.Closed then w.points
  else
    match w.points, w.points.reverse with
    | first :: second :: _, last :: before :: _ =>
      pushed up r first second :: (w.points ++ [pushed up r last before])
    | _, _ => w.points

/-- The wire in which a face meets the faces of a spar, with open ends pushed out. -/
def sparWire (geometry : Shape K) (face : Face K) (r : K) (up : Vec K) :
    Except ShapeFault (Wire K) :=
  let edges := geometry.intersection (.ofFace face)
  let ends := (Edge.looseEnds edges).length
  if 2 < ends then .error (.endVertices ends)
  else
    match Wire.chain edges with
    | [w] =>
      match Wire.ofPoints? (stretched up r w) with
      | some v => .ok v
      | none => .error (.degenerate .cutWire)
    | ws => .error (.wireCount .one ws.length)

/-- The wire in which a rib face meets a spar, long enough to bound a new face. -/
def sparBound (uid name : String) (face : Face K) (r : K) (up : Vec K) : Query K (Wire K) := do
  let geometry ← sparGeometry (← spar name)
  match sparWire geometry face r up with
  | .ok w => return w
  | .error e => throw (.geometry uid (.sparCut name e))

/-- The oversized face through `start` along `dir`, as high as `up` says at its ends, trimmed at
spars. -/
def cutFace (uid : String) (start dir startUp stopUp : Vec K) (ribStart ribEnd : NamedLine) :
    Query K (Face K) := do
  let r ← size
  let behind := start - r • dir
  let ahead := start + r • dir
  let front ← require (.geometry uid .noStartUp)
    (Wire.segment? (behind + r • startUp) (behind - r • startUp))
  let back ← require (.geometry uid .noStopUp)
    (Wire.segment? (ahead - r • stopUp) (ahead + r • stopUp))
  let face ← ofExcept (Error.ofShapeFault uid (Face.ruledAlong startUp front back))
  let (front, face) ← match ribStart.sparUid? with
    | none => pure (front, face)
    | some name =>
      let up := -startUp
      let front ← sparBound uid name face r up
      let face ← ofExcept (Error.ofShapeFault uid (Face.ruledAlong up front back))
      pure (front, face)
  match ribEnd.sparUid? with
  | none => return face
  | some name =>
    let back ← sparBound uid name face r stopUp
    ofExcept (Error.ofShapeFault uid (Face.ruledAlong stopUp back front))

/-! ### Midplane points -/

/-- The first point of a line on a rib face. -/
def pointOnLine (uid : String) (face : Face K) (l : NamedLine) : Query K (Vec K) := do
  let w ← line l
  require (.geometry uid (.missedLine l.text)) (face.firstHit? w)

/-- The rib cut from a face, with the points where the face meets its start and its end. -/
def cutBetweenLines (r : RibsDefinition K) (face : Face K) (isTargetFace : Bool) :
    Query K (RibCut K) := do
  let start ← pointOnLine r.uid face r.positioning.ribStart
  let stop ← pointOnLine r.uid face r.positioning.ribEnd
  return { face, isTargetFace, start, stop }

/-! ### Ribs of a set -/

/-- The spar ends in a section at the given end of its line. -/
def endsInSection (name : String) (eta : K) : Query K Bool := do
  let uids := (← spar name).positionUids
  let uid? :=
    if eta < tolerance then uids.head?
    else if 1 - tolerance < eta then uids.getLast?
    else none
  match uid? with
  | some uid => return (← position uid).isInSection
  | none => return false

/-- The up vector of a rib of a set before it is turned.  It is upward at spar positions and at
the ends of a reference spar, so that ribs match the spar there; elsewhere it stands on the
midplane. -/
def setUp (set : RibSet K) (eta : K) (p : Vec K) (atPosition : Bool) : Query K (Vec K) := do
  if atPosition || (!set.ribReference.isEdge && nearEnd eta) then
    return Vec.zAxis
  else
    let w ← wing
    ofExcept (w.midplaneNormal (w.etaXsi p).1)

/-- The rib in the plane of a section element. -/
def elementCut (r : RibsDefinition K) (element : String) : Query K (RibCut K) := do
  let face ← elementFace element
  let w ← wing
  let face ← trimSection r.uid r.positioning face fun xsi => ofExcept (w.elementPoint element xsi)
  cutBetweenLines r face true

/-- The rib at an end of the wing. -/
def borderCut (r : RibsDefinition K) (eta : K) : Query K (RibCut K) := do
  let w ← wing
  let g ← wingGeometry
  let (face, border) := if eta < tolerance then (g.innerFace, 0) else (g.outerFace, 1)
  let face ← trimSection r.uid r.positioning face fun xsi => return w.point border xsi
  cutBetweenLines r face true

/-- The rib on an oversized face through the reference line. -/
def planeCut (r : RibsDefinition K) (set : RibSet K) (eta : K) (atPosition : Bool) :
    Query K (RibCut K) := do
  let p ← linePoint set.ribReference eta
  let up ← setUp set eta p atPosition
  let dir ← ribDirection r.uid set eta p up
  let up := up.rotate dir (r.crossSection.xRotation - rightAngle)
  let face ← cutFace r.uid p dir up up set.ribStart set.ribEnd
  cutBetweenLines r face false

/-- The rib of a set at a parameter, where a section element or a spar position may bound the
set. -/
def setCut (r : RibsDefinition K) (set : RibSet K) (eta : K) (element : Option String)
    (atPosition : Bool) : Query K (RibCut K) := do
  match element with
  | some element => elementCut r element
  | none =>
    let inSection ←
      if nearEnd eta then
        match set.ribReference.sparUid? with
        | none => pure true
        | some name => endsInSection name eta
      else pure false
    if inSection then borderCut r eta else planeCut r set eta atPosition

/-- What names the boundary of a set at a rib: the start of the set at its first rib, else the
end of the set at a rib that stands there. -/
def atBoundary (set : RibSet K) (name? : SetBoundary K → Option String) (isFirst isAtEnd : Bool) :
    Option String :=
  (if isFirst then name? set.start else none).or (if isAtEnd then name? set.stop else none)

/-- The ribs of a set, `count` of them from the rib number `i` on. -/
def setCutsFrom (r : RibsDefinition K) (set : RibSet K) (s : RibSpread K) :
    (count i : Nat) → Query K (List (RibCut K))
  | 0, _ => return []
  | n + 1, i => do
    let eta := s.etaStart + s.offset * (i : K)
    let isAtEnd : Bool := abs (s.etaStop - eta) ≤ tolerance
    let element := atBoundary set SetBoundary.elementUid? (i == 0) isAtEnd
    let position := atBoundary set SetBoundary.sparPositionUid? (i == 0) isAtEnd
    let cut ← setCut r set eta element position.isSome
    return cut :: (← setCutsFrom r set s n (i + 1))

/-! ### Explicit ribs -/

/-- An end of an explicit rib. -/
def endPoint (p : RibEnd K) : Query K (Vec K) := do
  match p with
  | .etaXsi eta xsi referenceUid =>
    let w ← wing
    match referenceUid.filter (· ≠ w.uid) with
    | some other => throw (.notFound .wingReference other)
    | none => return w.point eta xsi
  | .curve reference eta => linePoint reference eta
  | .sparPosition uid => midplanePoint (← position uid)

/-- The extent of a spar in height, across the span at a point; zero where there is none. -/
def sparHeight (name : String) (p : Vec K) : Query K (Vec K) := do
  let geometry ← sparGeometry (← spar name)
  let w ← wing
  let up ← ofExcept (w.midplaneNormal (w.etaXsi p).1)
  match (up.cross Vec.xAxis).normalize? tolerance with
  | none => return 0
  | some normal =>
    let r ← size
    let a := r • normal.perpendicular
    let b := normal.cross a
    let cutter := Face.quad (p - a - b) (p - a + b) (p + a - b) (p + a + b)
    let edges := geometry.intersection (.ofFace cutter)
    match (Shape.ofEdges edges).extremes? Vec.zAxis with
    | some (lo, hi) => return hi - lo
    | none => return 0

/-- The up vector at an end of an explicit rib; zero if the end gives none. -/
def explicitUp (stop : RibEnd K) (trimmedAt : NamedLine) (p : Vec K) : Query K (Vec K) := do
  match stop with
  | .sparPosition uid => upVector (← position uid) p
  | _ =>
    match trimmedAt.sparUid? with
    | some name => sparHeight name p
    | none => return 0

/-- The up vectors at both ends of an explicit rib.  An end that gives none takes that of the
other one; where neither does the midplane tells. -/
def explicitUps (e : ExplicitRib K) (start stop : Vec K) : Query K (Vec K × Vec K) := do
  let startUp ← explicitUp e.start e.ribStart start
  let stopUp ← explicitUp e.stop e.ribEnd stop
  match startUp == 0, stopUp == 0 with
  | true, true =>
    let w ← wing
    let up ← ofExcept (w.midplaneNormal (w.etaXsi start).1)
    return (up, up)
  | true, false => return (stopUp, stopUp)
  | false, true => return (startUp, startUp)
  | false, false => return (startUp, stopUp)

/-- A rib on an oversized face between two points. -/
def explicitPlaneCut (r : RibsDefinition K) (e : ExplicitRib K) (start stop : Vec K) :
    Query K (RibCut K) := do
  let (startUp, stopUp) ← explicitUps e start stop
  let unit (v : Vec K) := require (.geometry r.uid .noUp) (v.normalize? tolerance)
  let angle := rightAngle - r.crossSection.xRotation
  let startUp := (← unit startUp).rotate Vec.xAxis angle
  let stopUp := (← unit stopUp).rotate Vec.xAxis angle
  let dir ← require (.geometry r.uid .coincidentEnds) ((stop - start).normalize? tolerance)
  let face ← cutFace r.uid start dir startUp stopUp e.ribStart e.ribEnd
  return ⟨face, false, start, stop⟩

/-- The rib between two points, on the face of a section if both lie on its chord. -/
def explicitCut (r : RibsDefinition K) (e : ExplicitRib K) : Query K (RibCut K) := do
  let start ← endPoint e.start
  let stop ← endPoint e.stop
  let w ← wing
  match w.elementAt? start, w.elementAt? stop with
  | some a, some b =>
    if a = b then
      let face ← elementFace a
      let face ← trimSection r.uid r.positioning face fun xsi => ofExcept (w.elementPoint a xsi)
      return ⟨face, true, start, stop⟩
    else explicitPlaneCut r e start stop
  | _, _ => explicitPlaneCut r e start stop

/-! ### All ribs -/

/-- The ribs before they are trimmed to the wing, computed anew. -/
def buildCuts (r : RibsDefinition K) : Query K (List (RibCut K)) := do
  match r.positioning with
  | .set set =>
    let s ← spread r
    setCutsFrom r set s s.count.toNat 0
  | .explicit e => return [← explicitCut r e]

/-- The ribs before they are trimmed to the wing. -/
def cuts (r : RibsDefinition K) : Query K (List (RibCut K)) :=
  cached (.ribs .cuts r.uid) (buildCuts r)

end Query

end WingBox
