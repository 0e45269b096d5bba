import WingBox.Definition.Ribs
import WingBox.Json.Form
import WingBox.Json.Reader
import WingBox.Json.Writer

/-!
# The JSON form of definitions

Every definition has a `JsonForm`.  Fields are written in the order of their declaration; fields
left out and right angles of cross sections are not written.

A spar position is always an object.  Its place in span direction is the first member named
`eta` or `elementUid`; because any member may turn out to be that one, all of them have to be
readable, and containers may not be nested deeper than `SparPosition.depthLimit` around and
inside a position.
-/

namespace WingBox

open Json

variable {K : Type} [Scalar K] [JsonForm K]

/-! ### Lines -/

instance : JsonForm NamedLine where
  toJson l := .text l.text
  ofJson? j := (ofJson? j).map NamedLine.ofText

instance : JsonForm RibDatum where
  toJson r := .text r.text
  ofJson? j := (ofJson? j).map RibDatum.ofText

/-! ### Cross sections -/

instance : JsonForm (Cap K) where
  toJson c := record (("area", toJson c.area) :: omittableMember "materialUid" c.materialUid)
  ofJson? j := do
    match ← fields? ["area", "materialUid"] j with
    | [area, materialUid] => return ⟨← withDefault (0 : K) area, ← omittable materialUid⟩
    | _ => none

/-- The member of an angle, which is not written if it is a right one. -/
def angleMember (name : String) (angle : K) : List (String × Json) :=
  if angle == rightAngle then [] else [(name, toJson angle)]

instance : JsonForm (SparCrossSection K) where
  toJson c := record (omittableMember "upperCap" c.upperCap ++ omittableMember "lowerCap" c.lowerCap
    ++ angleMember "rotation" c.rotation)
  ofJson? j := do
    match ← fields? ["upperCap", "lowerCap", "rotation"] j with
    | [upper, lower, rotation] =>
      return ⟨← omittable upper, ← omittable lower, ← withDefault rightAngle rotation⟩
    | _ => none

instance : JsonForm (RibCrossSection K) where
  toJson c := record (angleMember "xRotation" c.xRotation
    ++ omittableMember "upperCap" c.upperCap ++ omittableMember "lowerCap" c.lowerCap)
  ofJson? j := do
    match ← fields? ["xRotation", "upperCap", "lowerCap"] j with
    | [rotation, upper, lower] =>
      return ⟨← withDefault rightAngle rotation, ← omittable upper, ← omittable lower⟩
    | _ => none

/-! ### Spars -/

namespace SparPosition

/-- How many containers may be nested in each other where a position is read. -/
def depthLimit : Nat := 127

/-- The place in span direction, from the first member that tells it. -/
def location? (ms : List (Option String × Json)) : Option (SparLocation K) := do
  match ← ms.find? fun (k, _) => k == some "eta" || k == some "elementUid" with
  | (some "eta", v) => return .eta (← ofJson? v)
  | (_, v) => return .elementUid (← ofJson? v)

/-- The position of a JSON value that stands inside `outer` containers. -/
def ofJsonInside? (outer : Nat) : Json → Option (SparPosition K)
  | object ms => do
    guard (outer + (object ms).depth ≤ depthLimit)
    guard (object ms).readable
    let uid ← member? ms "uid"
    let xsi ← member? ms "xsi"
    return ⟨← required uid, ← location? ms, ← required xsi⟩
  | _ => none

/-- The member that tells the place in span direction. -/
def locationMember : SparLocation K → String × Json
  | .eta eta => ("eta", toJson eta)
  | .elementUid uid => ("elementUid", toJson uid)

end SparPosition

instance : JsonForm (SparPosition K) where
  toJson p := record
    [("uid", toJson p.uid), SparPosition.locationMember p.location, ("xsi", toJson p.xsi)]
  ofJson? := SparPosition.ofJsonInside? 0

instance : JsonForm (SparSegment K) where
  toJson s := record [("uid", toJson s.uid), ("positionUids", toJson s.positionUids),
    ("crossSection", toJson s.crossSection)]
  ofJson? j := do
    match ← fields? ["uid", "positionUids", "crossSection"] j with
    | [uid, positionUids, crossSection] =>
      return ⟨← required uid, ← required positionUids, ← withDefault .plain crossSection⟩
    | _ => none

/-! ### Ribs -/

instance : JsonForm (SetBoundary K) where
  toJson
    | .eta eta => chosen "eta" (toJson eta)
    | .elementUid uid => chosen "elementUid" (toJson uid)
    | .sparPositionUid uid => chosen "sparPositionUid" (toJson uid)
  ofJson? j := do
    match ← choice? j with
    | ("eta", v) => return .eta (← ofJson? v)
    | ("elementUid", v) => return .elementUid (← ofJson? v)
    | ("sparPositionUid", v) => return .sparPositionUid (← ofJson? v)
    | _ => none

instance : JsonForm (RibCount K) where
  toJson
    | .numberOfRibs n => chosen "numberOfRibs" (toJson n)
    | .spacing distance => chosen "spacing" (toJson distance)
  ofJson? j := do
    match ← choice? j with
    | ("numberOfRibs", v) => return .numberOfRibs (← ofJson? v)
    | ("spacing", v) => return .spacing (← ofJson? v)
    | _ => none

/-- A case without a value is its name, or a choice with a null. -/
instance : JsonForm RibCrossing where
  toJson
    | .cross => .text "cross"
    | .stop => .text "end"
  ofJson?
    | .string (some "cross") | .object [(some "cross", .null)] => some .cross
    | .string (some "end") | .object [(some "end", .null)] => some .stop
    | _ => none

instance : JsonForm (RibRotation K) where
  toJson r := record (("z", toJson r.z) :: omittableMember "reference" r.reference)
  ofJson? j := do
    match ← fields? ["z", "reference"] j with
    | [z, reference] => return ⟨← withDefault rightAngle z, ← omittable reference⟩
    | _ => none

instance : JsonForm (RibSet K) where
  toJson s := record [("ribReference", toJson s.ribReference), ("start", toJson s.start),
    ("end", toJson s.stop), ("ribStart", toJson s.ribStart), ("ribEnd", toJson s.ribEnd),
    ("count", toJson s.count), ("crossing", toJson s.crossing), ("rotation", toJson s.rotation)]
  ofJson? j := do
    match ← fields? ["ribReference", "start", "end", "ribStart", "ribEnd", "count", "crossing",
      "rotation"] j with
    | [ribReference, start, stop, ribStart, ribEnd, count, crossing, rotation] =>
      return ⟨← required ribReference, ← required start, ← required stop, ← required ribStart,
        ← required ribEnd, ← required count, ← withDefault .cross crossing,
        ← withDefault .plain rotation⟩
    | _ => none

instance : JsonForm (RibEnd K) where
  toJson
    | .etaXsi eta xsi referenceUid => chosen "etaXsi" (record
      ([("eta", toJson eta), ("xsi", toJson xsi)] ++ omittableMember "referenceUid" referenceUid))
    | .curve reference eta =>
      chosen "curve" (record [("reference", toJson reference), ("eta", toJson eta)])
    | .sparPosition uid => chosen "sparPosition" (toJson uid)
  ofJson? j := do
    match ← choice? j with
    | ("etaXsi", v) =>
      match ← fields? ["eta", "xsi", "referenceUid"] v with
      | [eta, xsi, referenceUid] =>
        return .etaXsi (← required eta) (← required xsi) (← omittable referenceUid)
      | _ => none
    | ("curve", v) =>
      match ← fields? ["reference", "eta"] v with
      | [reference, eta] => return .curve (← required reference) (← required eta)
      | _ => none
    | ("sparPosition", v) => return .sparPosition (← ofJson? v)
    | _ => none

instance : JsonForm (ExplicitRib K) where
  toJson r := record [("start", toJson r.start), ("end", toJson r.stop),
    ("ribStart", toJson r.ribStart), ("ribEnd", toJson r.ribEnd)]
  ofJson? j := do
    match ← fields? ["start", "end", "ribStart", "ribEnd"] j with
    | [start, stop, ribStart, ribEnd] =>
      return ⟨← required start, ← required stop, ← required ribStart, ← required ribEnd⟩
    | _ => none

instance : JsonForm (RibsDeclaration K) where
  toJson d := record (("uid", toJson d.uid) :: omittableMember "ribsPositioning" d.ribsPositioning
    ++ omittableMember "explicitPositioning" d.explicitPositioning
    ++ [("crossSection", toJson d.crossSection)])
  ofJson? j := do
    match ← fields? ["uid", "ribsPositioning", "explicitPositioning", "crossSection"] j with
    | [uid, set, explicit, crossSection] =>
      return ⟨← required uid, ← omittable set, ← omittable explicit,
        ← withDefault .plain crossSection⟩
    | _ => none

/-! ### Structures -/

/-- The positions of a structure, which stand inside two containers. -/
def positions? : Option Json → Option (List (SparPosition K))
  | none => some []
  | some (array vs) => vs.mapM (SparPosition.ofJsonInside? 2)
  | some _ => none

instance : JsonForm (Description K) where
  toJson d := record [("sparPositions", toJson d.sparPositions),
    ("sparSegments", toJson d.sparSegments), ("ribsDefinitions", toJson d.ribsDefinitions)]
  ofJson? j := do
    match ← fields? ["sparPositions", "sparSegments", "ribsDefinitions"] j with
    | [positions, segments, ribs] =>
      return ⟨← positions? positions, ← withDefault [] segments, ← withDefault [] ribs⟩
    | _ => none

/-! ### Text -/

/-- The element that a JSON text describes. -/
def ofText {α : Type} [JsonForm α] (s : String) : Except (Error K) α :=
  Error.require .json (parse? s >>= ofJson?)

/-- The JSON text of an element, without blanks. -/
def toText {α : Type} [JsonForm α] (x : α) : String := (toJson x).compact

end WingBox
