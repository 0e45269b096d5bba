import WingBox.Cut.Hit
import WingBox.Structure.Spar

/-!
# The distribution of ribs

A set of ribs runs along its reference line from the parameter of its start to that of its end.
`Query.spread` finds both and the number of ribs and the step between them, either from the
number or from a distance along the line.

A spar position bounds a set where the rib through it crosses the reference line, so the
direction of ribs, `Query.ribDirection`, is found here as well.
-/

namespace WingBox

open Scalar

namespace Query

variable {K : Type} [Scalar K]

/-! ### Directions -/

/-- The direction of the ribs of a set before it is turned around and normalized, at the
parameter `eta` of the reference line and the point there. -/
def declaredDirection (uid : String) (set : RibSet K) (eta : K) (p up : Vec K) :
    Query K (Vec K) := do
  let z := set.rotation.z
  match set.rotation.reference with
  | none =>
    let w ← wing
    let span ← ofExcept (w.etaDirection (w.etaXsi p).1)
    return span.rotate up z
  | some .globalX => return Vec.xAxis.rotate Vec.zAxis z
  | some .globalY => return Vec.yAxis.rotate Vec.zAxis z
  | some (.line (.spar spar)) =>
    if set.ribReference.sparUid? = some spar then
      return ((← line set.ribReference).tangentAt eta).rotate up z
    else throw (.config uid .foreignRotationSpar)
  | some (.line edge) => return (← lineDirection edge p).rotate up z

/-- The unit direction of the ribs of a set from their start to their end.  It is declared the
other way. -/
def ribDirection (uid : String) (set : RibSet K) (eta : K) (p up : Vec K) : Query K (Vec K) := do
  let dir ← declaredDirection uid set eta p up
  require (.geometry uid .noRibDirection) ((-dir).normalize? tolerance)

/-! ### Boundaries -/

/-- A spar position bounds a set of ribs only if it lies on their reference line. -/
def requireOnSpar (uid position : String) (reference : NamedLine) : Query K Unit := do
  match reference.sparUid? with
  | none => throw (.config uid .boundWithoutSpar)
  | some name =>
    if position ∈ (← spar name).positionUids then return ()
    else throw (.config uid (.positionOffSpar position name))

/-- The parameter of the reference line at which a set starts or ends. -/
def boundaryParameter (uid : String) (set : RibSet K) (boundary : SetBoundary K) : Query K K := do
  match boundary with
  | .eta eta => return eta
  | .elementUid element =>
    let face ← elementFace element
    let w ← line set.ribReference
    let hit ← require (.geometry uid (.missedElement element)) (face.firstHit? w)
    return w.project hit
  | .sparPositionUid name =>
    requireOnSpar uid name set.ribReference
    let p ← midplanePoint (← position name)
    let w ← line set.ribReference
    let dir ← ribDirection uid set (w.project p) p Vec.zAxis
    let plane ← require (.geometry uid .directionAlongUp) (Plane.across? p (dir.cross Vec.zAxis))
    require (.geometry uid (.missedReference name)) (plane.firstCrossing? w)

/-! ### Distribution -/

/-- How many ribs a distance apart fit between parameters `delta` apart on a line. -/
def ribsApart (distance length delta : K) : UInt64 :=
  if delta ≤ tolerance then 1
  else floorCount ((length * delta + tolerance) / distance) + 1

/-- The distribution of a set of ribs, computed anew. -/
def buildSpread (r : RibsDefinition K) : Query K (RibSpread K) := do
  let set ← ofExcept r.set
  let etaStart ← boundaryParameter r.uid set set.start
  let etaStop ← boundaryParameter r.uid set set.stop
  let delta := abs (etaStop - etaStart)
  match set.count with
  | .numberOfRibs n =>
    if n ≤ 1 then return ⟨etaStart, etaStop, 0, 1⟩
    else return ⟨etaStart, etaStop, delta / ((n.toNat - 1 : Nat) : K), n.toUInt64⟩
  | .spacing distance =>
    let length ← lineLength set.ribReference
    return ⟨etaStart, etaStop, distance / length, ribsApart distance length delta⟩

/-- The distribution of a set of ribs. -/
def spread (r : RibsDefinition K) : Query K (RibSpread K) :=
  cached (.ribs .spread r.uid) (buildSpread r)

/-- The number of ribs. -/
def ribCount (r : RibsDefinition K) : Query K Nat := do
  match r.positioning with
  | .set _ => return (← spread r).count.toNat
  | .explicit _ => return 1

end Query

end WingBox
