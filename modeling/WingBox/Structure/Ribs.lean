import WingBox.Structure.RibCut

/-!
# Rib faces, and parts split by each other

* `Query.ribsGeometry` are the faces of ribs, trimmed to the wing;
* `Query.ribsCaps` are the edges of ribs along the skins;
* `Query.sparDivided` are the faces of a spar split by all ribs and by other spars, and
  `Query.ribsDivided` those of ribs split by spars.

A spar takes part in splitting only if a box around it overlaps a box around what is split.
-/

namespace WingBox

open Scalar

namespace Query

variable {K : Type} [Scalar K]

/-! ### Ribs -/

/-- The final face of a rib. -/
def ribFace (uid : String) (shell : Shape K) (cut : RibCut K) : Except (Error K) (Face K) :=
  if cut.isTargetFace then .ok cut.face else trim uid cut.face shell

/-- The faces of ribs, computed anew. -/
def buildRibsGeometry (r : RibsDefinition K) : Query K (Shape K) := do
  let cs ← cuts r
  let shell ← loft
  return .ofFaces (← ofExcept (cs.mapM (ribFace r.uid shell)))

/-- The faces of ribs, trimmed to the wing. -/
def ribsGeometry (r : RibsDefinition K) : Query K (Shape K) :=
  cached (.ribs .geometry r.uid) (buildRibsGeometry r)

/-- The edges of ribs along the skins, computed anew. -/
def buildRibsCaps (r : RibsDefinition K) : Query K (Caps K) := do
  let cs ← cuts r
  skinEdges (.ofFaces (cs.map (·.face))) r.hasCap

/-- The edges of ribs along the skins on which they have caps. -/
def ribsCaps (r : RibsDefinition K) : Query K (Caps K) :=
  cached (.ribs .caps r.uid) (buildRibsCaps r)

/-! ### Splitting -/

/-- How much boxes are enlarged before they are compared. -/
def splitGap : K := 1e-2

/-- The enlarged boxes around two shapes overlap. -/
def mayMeet (s t : Shape K) : Bool :=
  match s.box?, t.box? with
  | some a, some b => (a.enlarged splitGap).Overlaps (b.enlarged splitGap)
  | _, _ => false

/-- The panels of those spars that may meet a shape. -/
def sparTool (s : Shape K) (spars : List (SparSegment K)) : Query K (Shape K) := do
  let cutShapes ← spars.mapM fun spar => return (← panels spar).cutShape
  return (cutShapes.filter (mayMeet s)).foldl (· ++ ·) .empty

/-- The surfaces from which ribs are cut. -/
def ribTool (ribs : List (RibsDefinition K)) : Query K (Shape K) := do
  let faces ← ribs.mapM fun r => return (← cuts r).map (·.face)
  return .ofFaces faces.flatten

/-- The faces of a spar split by ribs and spars, computed anew. -/
def buildSparDivided (s : SparSegment K) : Query K (Shape K) := do
  let geometry ← sparGeometry s
  let ribs ← ribTool (← read).ribs.items
  let others := (← read).spars.items.filter fun other => other.uid != s.uid
  let spars ← sparTool geometry others
  return geometry.split (ribs ++ spars)

/-- The faces of a spar split by all ribs and by the other spars. -/
def sparDivided (s : SparSegment K) : Query K (Shape K) :=
  cached (.spar .divided s.uid) (buildSparDivided s)

/-- The faces of ribs split by spars, computed anew. -/
def buildRibsDivided (r : RibsDefinition K) : Query K (Shape K) := do
  let geometry ← ribsGeometry r
  let spars ← sparTool geometry (← read).spars.items
  return geometry.split spars

/-- The faces of ribs split by all spars. -/
def ribsDivided (r : RibsDefinition K) : Query K (Shape K) :=
  cached (.ribs .divided r.uid) (buildRibsDivided r)

end Query

end WingBox
