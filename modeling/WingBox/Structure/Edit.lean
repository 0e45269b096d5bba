import WingBox.Definition.Form
import WingBox.Structure.View

/-!
# Structures

A `Structure` is a design together with what has been computed for it.  Queries fill the store
and leave the design alone (`Structure.ask`); edits change the design and drop the computed
geometry of all spars and ribs, since these trim each other.  An edit that is refused changes
nothing.

* `Structure.ofDescription` and `Structure.description` go from descriptions to structures and
  back, `Structure.ofJsonText` and `Structure.jsonText` from and to their text;
* `Structure.add…`, `remove…`, `update…` and `rename` are the edits.
-/

namespace WingBox

/-- A design and what has been computed for it. -/
structure Structure (K : Type) where
  /-- The wing and the definitions of its parts. -/
  design : Design K
  /-- What has been computed. -/
  store : Store K

/-- A step in the life of a structure, which may be refused. -/
abbrev Edit (K : Type) := ExceptT (Error K) (StateM (Structure K))

namespace Structure

variable {K : Type} [Scalar K]

/-- The structure of a wing without parts. -/
def bare (wing : Wing K) : Structure K := ⟨⟨wing, .empty, .empty, .empty⟩, .empty⟩

/-- The answer to a query. -/
def ask {α : Type} (q : Query K α) : Edit K α := fun s =>
  let (answer, store) := ((q.run s.design).run.run s.store).value
  (answer, { s with store })

/-- Takes a new design and drops the geometry of all spars and ribs. -/
def commit (design : Design K) : Edit K Unit :=
  modify fun s => ⟨design, s.store.invalidated⟩

/-- Drops the geometry of all spars and ribs. -/
def invalidate : Edit K Unit := do commit (← get).design

/-- The value, or a fault if there is none. -/
def require {α : Type} (e : Error K) : Option α → Edit K α
  | some x => pure x
  | none => throw e

/-- The result of a check. -/
def ofExcept {α : Type} : Except (Error K) α → Edit K α
  | .ok x => pure x
  | .error e => throw e

/-! ### Adding -/

/-- Adds a spar position. -/
def addPosition (p : SparPosition K) : Edit K Unit := do
  let d := (← get).design
  match d.positions.add p with
  | .ok (_, positions) => commit { d with positions }
  | .error p => throw (.config p.uid .duplicatePosition)

/-- Adds a spar. -/
def addSpar (spar : SparSegment K) : Edit K Unit := do
  let d := (← get).design
  match d.spars.add (← ofExcept spar.check) with
  | .ok (_, spars) => commit { d with spars }
  | .error s => throw (.config s.uid .duplicateSpar)

/-- Adds ribs. -/
def addRibs (declaration : RibsDeclaration K) : Edit K Unit := do
  let d := (← get).design
  match d.ribs.add (← ofExcept declaration.check) with
  | .ok (_, ribs) => commit { d with ribs }
  | .error r => throw (.config r.uid .duplicateRibs)

/-! ### Removing -/

/-- Removes a spar position.  Spars and ribs that still name it have no geometry. -/
def removePosition (uid : String) : Edit K (SparPosition K) := do
  let d := (← get).design
  let (p, positions) ← require (.notFound .sparPosition uid) (d.positions.remove? uid)
  commit { d with positions }
  return p

/-- Removes a spar. -/
def removeSpar (uid : String) : Edit K (SparSegment K) := do
  let d := (← get).design
  let (s, spars) ← require (.notFound .sparSegment uid) (d.spars.remove? uid)
  commit { d with spars }
  return s

/-- Removes ribs. -/
def removeRibs (uid : String) : Edit K (RibsDeclaration K) := do
  let d := (← get).design
  let (r, ribs) ← require (.notFound .ribsDefinition uid) (d.ribs.remove? uid)
  commit { d with ribs }
  return r.declaration

/-! ### Updating -/

/-- Refuses an edit that changed a name. -/
def checkUid (uid edited : String) : Edit K Unit :=
  if edited = uid then pure () else throw (.config uid .changedUid)

/-- Edits a spar position. -/
def updatePosition (uid : String) (edit : SparPosition K → SparPosition K) : Edit K Unit := do
  let d := (← get).design
  let edited := edit (← require (.notFound .sparPosition uid) (d.positions.get? uid))
  checkUid uid edited.uid
  commit { d with positions := d.positions.modify uid fun _ => edited }

/-- Edits a spar. -/
def updateSpar (uid : String) (edit : SparSegment K → SparSegment K) : Edit K Unit := do
  let d := (← get).design
  let edited := edit (← require (.notFound .sparSegment uid) (d.spars.get? uid))
  checkUid uid edited.uid
  let checked ← ofExcept edited.check
  commit { d with spars := d.spars.modify uid fun _ => checked }

/-- Edits the declaration of ribs. -/
def updateRibs (uid : String) (edit : RibsDeclaration K → RibsDeclaration K) : Edit K Unit := do
  let d := (← get).design
  let r ← require (.notFound .ribsDefinition uid) (d.ribs.get? uid)
  let edited := edit r.declaration
  checkUid uid edited.uid
  let checked ← ofExcept edited.check
  commit { d with ribs := d.ribs.modify uid fun _ => checked }

/-- Moves a spar position to a span coordinate. -/
def setPositionEta (uid : String) (eta : K) : Edit K Unit :=
  updatePosition uid fun p => { p with location := .eta eta }

/-- Moves a spar position along the chord. -/
def setPositionXsi (uid : String) (xsi : K) : Edit K Unit :=
  updatePosition uid fun p => { p with xsi }

/-- Moves a spar position to a section element. -/
def setPositionElement (uid element : String) : Edit K Unit :=
  updatePosition uid fun p => { p with location := .elementUid element }

/-- Turns ribs around their direction. -/
def setRibRotation (uid : String) (degrees : K) : Edit K Unit := do
  let d := (← get).design
  let _ ← require (.notFound .ribsDefinition uid) (d.ribs.get? uid)
  let turn (r : RibsDefinition K) : RibsDefinition K :=
    { r with crossSection := { r.crossSection with xRotation := degrees } }
  commit { d with ribs := d.ribs.modify uid turn }

/-! ### Renaming -/

/-- Renames a spar position, a spar or ribs, the first of these that has the name, and every
reference to it. -/
def rename (old new : String) : Edit K Unit := do
  let d := (← get).design
  let taken : Error K := .config new .takenUid
  if d.positions.contains old then
    let positions ← require taken (d.positions.rename? old new)
    commit { d with
      positions
      spars := d.spars.modifyAll (·.renamePosition old new)
      ribs := d.ribs.modifyAll (·.renamePosition old new) }
  else if d.spars.contains old then
    let spars ← require taken (d.spars.rename? old new)
    commit { d with spars, ribs := d.ribs.modifyAll (·.renameSpar old new) }
  else if d.ribs.contains old then
    let ribs ← require taken (d.ribs.rename? old new)
    commit { d with ribs }
  else throw (.notFound .entity old)

/-! ### Descriptions -/

/-- Adds all parts of a description. -/
def addAll (description : Description K) : Edit K Unit := do
  description.sparPositions.forM addPosition
  description.sparSegments.forM addSpar
  description.ribsDefinitions.forM addRibs

/-- The structure that a description makes of a wing. -/
def ofDescription (wing : Wing K) (description : Description K) : Except (Error K) (Structure K) :=
  match (addAll description).run (bare wing) with
  | (.ok (), s) => .ok s
  | (.error e, _) => .error e

/-- The description of a structure. -/
def description (s : Structure K) : Description K :=
  ⟨s.design.positions.items, s.design.spars.items, s.design.ribs.items.map (·.declaration)⟩

/-- The structure that a JSON text describes. -/
def ofJsonText [JsonForm K] (wing : Wing K) (text : String) : Except (Error K) (Structure K) := do
  ofDescription wing (← ofText text)

/-- The JSON text of a structure. -/
def jsonText [JsonForm K] (s : Structure K) : String := (toJson s.description).pretty

end Structure

end WingBox
