import WingBox.Proofs.Definition.Rename
import WingBox.Proofs.Structure.Answer
import WingBox.Structure.Edit

/-!
# Mutations

A `Mutation` is anything that may change a structure.  What it is meant to do is an edit of a
description: `Mutation.effect` appends an entry to a list, drops one, replaces one in its place, or
renames one with all references to it, or is refused.
-/

namespace WingBox

variable {K : Type}

/-! ### Outcomes of edits -/

section Outcomes

variable {α β : Type}

/-- What an edit says, and the structure it leaves behind. -/
def Edit.outcome (e : Edit K α) (s : Structure K) : Except (Error K) α × Structure K :=
  e.run.run s

namespace Edit

variable {s : Structure K}

theorem outcome_bind (m : Edit K α) (f : α → Edit K β) :
    (m >>= f).outcome s = match m.outcome s with
      | (.ok x, t) => (f x).outcome t
      | (.error e, t) => (.error e, t) := by
  simp only [outcome, ExceptT.run_bind, StateT.run_bind]
  rcases (m.run.run s : Except (Error K) α × Structure K) with ⟨_ | _, _⟩ <;> rfl

theorem outcome_get_bind (f : Structure K → Edit K α) : (get >>= f).outcome s = (f s).outcome s :=
  outcome_bind get f

theorem outcome_require_bind (e : Error K) (o : Option α) (f : α → Edit K β) :
    (Structure.require e o >>= f).outcome s = match o with
      | some x => (f x).outcome s
      | none => (.error e, s) := by
  cases o <;> rfl

theorem outcome_ofExcept_bind (r : Except (Error K) α) (f : α → Edit K β) :
    (Structure.ofExcept r >>= f).outcome s = match r with
      | .ok x => (f x).outcome s
      | .error e => (.error e, s) := by
  cases r <;> rfl

theorem outcome_checkUid_bind (uid edited : String) (f : Unit → Edit K β) :
    (Structure.checkUid uid edited >>= f).outcome s =
      if edited = uid then (f ()).outcome s else (.error (.config uid .changedUid), s) := by
  unfold Structure.checkUid
  split <;> rfl

end Edit

end Outcomes

/-! ### Edits of lists -/

theorem ok_bind {ε α β : Type} (x : α) (f : α → Except ε β) : (Except.ok x >>= f) = f x := rfl

section Lists

variable {α β : Type} [Named α] [Named β]

/-- The list with one more entry at its end, unless the name is taken. -/
def appended (taken : Error K) (xs : List α) (x : α) : Except (Error K) (List α) :=
  if Named.uid x ∈ xs.map Named.uid then .error taken else .ok (xs ++ [x])

/-- The list without the entry of a name. -/
def dropped (missing : Error K) (xs : List α) (uid : String) : Except (Error K) (List α) :=
  if uid ∈ xs.map Named.uid then .ok (xs.filter fun x => Named.uid x != uid) else .error missing

/-- The list with the entry of a name replaced in its place. -/
def replaced (missing : Error K) (xs : List α) (uid : String) (edit : α → Except (Error K) α) :
    Except (Error K) (List α) :=
  match xs.find? fun x => Named.uid x == uid with
  | none => .error missing
  | some x => do
    let edited ← edit x
    return xs.map fun y => if Named.uid y = uid then edited else y

/-- Only what an edit makes of the entry matters. -/
theorem replaced_congr {missing : Error K} {xs : List α} {uid : String}
    {edit edit' : α → Except (Error K) α} (h : ∀ x, Named.uid x = uid → edit x = edit' x) :
    replaced missing xs uid edit = replaced missing xs uid edit' := by
  unfold replaced
  cases hx : xs.find? fun x => Named.uid x == uid with
  | none => rfl
  | some x =>
    have hu : Named.uid x = uid := by simpa using List.find?_some hx
    simp only [h x hu]

variable {f : α → β} (hf : ∀ x, Named.uid (f x) = Named.uid x)
include hf

theorem map_uid_map (xs : List α) : (xs.map f).map Named.uid = xs.map Named.uid := by
  rw [List.map_map]
  exact List.map_congr_left fun x _ => hf x

theorem appended_map (taken : Error K) (xs : List α) (x : α) :
    appended taken (xs.map f) (f x) = (appended taken xs x).map (List.map f) := by
  unfold appended
  rw [map_uid_map hf, hf]
  split
  · rfl
  · simp [Except.map]

theorem dropped_map (missing : Error K) (xs : List α) (uid : String) :
    dropped missing (xs.map f) uid = (dropped missing xs uid).map (List.map f) := by
  unfold dropped
  rw [map_uid_map hf]
  split
  · simp [Except.map, List.filter_map, Function.comp_def, hf]
  · rfl

/-- Replacing an image is replacing and taking images, for edits that agree. -/
theorem replaced_map (missing : Error K) (xs : List α) (uid : String)
    {edit : β → Except (Error K) β} {edit' : α → Except (Error K) α}
    (hedit : ∀ x, edit (f x) = (edit' x).map f) :
    replaced missing (xs.map f) uid edit = (replaced missing xs uid edit').map (List.map f) := by
  unfold replaced
  rw [List.find?_map]
  simp only [Function.comp_def, hf]
  cases xs.find? fun x => Named.uid x == uid with
  | none => rfl
  | some x =>
    simp only [Option.map_some, hedit]
    cases edit' x with
    | error e => rfl
    | ok y =>
      -- the names are those of the images, so the same places are replaced
      refine congrArg Except.ok ?_
      simp only [List.map_map]
      refine List.map_congr_left fun z _ => ?_
      simp only [Function.comp_apply, hf]
      split <;> rfl

end Lists

/-! ### Mutations -/

/-- What may change a structure. -/
inductive Mutation (K : Type) where
  /-- Adds a spar position. -/
  | addPosition (p : SparPosition K)
  /-- Adds a spar. -/
  | addSpar (s : SparSegment K)
  /-- Adds ribs. -/
  | addRibs (r : RibsDeclaration K)
  /-- Removes a spar position. -/
  | removePosition (uid : String)
  /-- Removes a spar. -/
  | removeSpar (uid : String)
  /-- Removes ribs. -/
  | removeRibs (uid : String)
  /-- Edits a spar position. -/
  | updatePosition (uid : String) (edit : SparPosition K → SparPosition K)
  /-- Edits a spar. -/
  | updateSpar (uid : String) (edit : SparSegment K → SparSegment K)
  /-- Edits the declaration of ribs. -/
  | updateRibs (uid : String) (edit : RibsDeclaration K → RibsDeclaration K)
  /-- Moves a spar position to a span coordinate. -/
  | setPositionEta (uid : String) (eta : K)
  /-- Moves a spar position along the chord. -/
  | setPositionXsi (uid : String) (xsi : K)
  /-- Moves a spar position to a section element. -/
  | setPositionElement (uid element : String)
  /-- Turns ribs around their direction. -/
  | setRibRotation (uid : String) (degrees : K)
  /-- Renames a part and every reference to it. -/
  | rename (old new : String)

/-- The edit of a mutation. -/
def Mutation.edit [Scalar K] : Mutation K → Edit K Unit
  | addPosition p => Structure.addPosition p
  | addSpar s => Structure.addSpar s
  | addRibs r => Structure.addRibs r
  | removePosition uid => do let _ ← Structure.removePosition uid
  | removeSpar uid => do let _ ← Structure.removeSpar uid
  | removeRibs uid => do let _ ← Structure.removeRibs uid
  | updatePosition uid edit => Structure.updatePosition uid edit
  | updateSpar uid edit => Structure.updateSpar uid edit
  | updateRibs uid edit => Structure.updateRibs uid edit
  | setPositionEta uid eta => Structure.setPositionEta uid eta
  | setPositionXsi uid xsi => Structure.setPositionXsi uid xsi
  | setPositionElement uid element => Structure.setPositionElement uid element
  | setRibRotation uid degrees => Structure.setRibRotation uid degrees
  | rename old new => Structure.rename old new

instance : Named (RibsDeclaration K) := ⟨RibsDeclaration.uid, fun uid r => { r with uid }⟩

namespace Description

/-- The names of the parts of some kind, in order. -/
def uids (d : Description K) : PartKind → List String
  | .position => d.sparPositions.map Named.uid
  | .spar => d.sparSegments.map Named.uid
  | .ribs => d.ribsDefinitions.map Named.uid

/-- The kind of the part with a name: a spar position if there is one, else a spar, else ribs. -/
def kind? (d : Description K) (uid : String) : Option PartKind :=
  if uid ∈ d.uids .position then some .position
  else if uid ∈ d.uids .spar then some .spar
  else if uid ∈ d.uids .ribs then some .ribs
  else none

/-- The description with one spar position replaced in its place. -/
def withPosition (d : Description K) (uid : String)
    (edit : SparPosition K → Except (Error K) (SparPosition K)) :
    Except (Error K) (Description K) := do
  let sparPositions ← replaced (.notFound .sparPosition uid) d.sparPositions uid edit
  return { d with sparPositions }

/-- The description with one spar replaced in its place. -/
def withSpar (d : Description K) (uid : String)
    (edit : SparSegment K → Except (Error K) (SparSegment K)) :
    Except (Error K) (Description K) := do
  let sparSegments ← replaced (.notFound .sparSegment uid) d.sparSegments uid edit
  return { d with sparSegments }

/-- The description with the ribs of one name replaced in their place. -/
def withRibs (d : Description K) (uid : String)
    (edit : RibsDeclaration K → Except (Error K) (RibsDeclaration K)) :
    Except (Error K) (Description K) := do
  let ribsDefinitions ← replaced (.notFound .ribsDefinition uid) d.ribsDefinitions uid edit
  return { d with ribsDefinitions }

end Description

/-- What an edit makes of a part, unless it changes the name. -/
def keepingUid {α : Type} [Named α] (uid : String) (edit : α → α) (x : α) : Except (Error K) α :=
  if Named.uid (edit x) = uid then .ok (edit x) else .error (.config uid .changedUid)

section KeepingUid

variable {α : Type} [Named α] {uid : String} {edit : α → α} {x : α}

theorem keepingUid_of_eq (h : Named.uid (edit x) = uid) :
    keepingUid (K := K) uid edit x = .ok (edit x) :=
  if_pos h

theorem keepingUid_of_ne (h : Named.uid (edit x) ≠ uid) :
    keepingUid (K := K) uid edit x = .error (.config uid .changedUid) :=
  if_neg h

end KeepingUid

/-- What a mutation is meant to do to a description. -/
def Mutation.effect [Scalar K] (d : Description K) :
    Mutation K → Except (Error K) (Description K)
  | addPosition p => do
    let sparPositions ← appended (.config p.uid .duplicatePosition) d.sparPositions p
    return { d with sparPositions }
  | addSpar s => do
    let s ← s.check
    let sparSegments ← appended (.config s.uid .duplicateSpar) d.sparSegments s
    return { d with sparSegments }
  | addRibs r => do
    let _ ← r.check
    let ribsDefinitions ← appended (.config r.uid .duplicateRibs) d.ribsDefinitions r
    return { d with ribsDefinitions }
  | removePosition uid => do
    let sparPositions ← dropped (.notFound .sparPosition uid) d.sparPositions uid
    return { d with sparPositions }
  | removeSpar uid => do
    let sparSegments ← dropped (.notFound .sparSegment uid) d.sparSegments uid
    return { d with sparSegments }
  | removeRibs uid => do
    let ribsDefinitions ← dropped (.notFound .ribsDefinition uid) d.ribsDefinitions uid
    return { d with ribsDefinitions }
  | updatePosition uid edit => d.withPosition uid (keepingUid uid edit)
  | updateSpar uid edit => d.withSpar uid fun s => do (← keepingUid uid edit s).check
  | updateRibs uid edit => d.withRibs uid fun r => do
    let edited ← keepingUid uid edit r
    let _ ← edited.check
    return edited
  | setPositionEta uid eta => d.withPosition uid fun p => .ok { p with location := .eta eta }
  | setPositionXsi uid xsi => d.withPosition uid fun p => .ok { p with xsi }
  | setPositionElement uid element =>
    d.withPosition uid fun p => .ok { p with location := .elementUid element }
  | setRibRotation uid degrees => d.withRibs uid fun r =>
    .ok { r with crossSection := { r.crossSection with xRotation := degrees } }
  | rename old new =>
    match d.kind? old with
    | none => .error (.notFound .entity old)
    | some kind =>
      if new ∈ d.uids kind then .error (.config new .takenUid)
      else .ok (d.renamed (.single kind old new))

theorem Mutation.effect_rename [Scalar K] {d : Description K} {kind : PartKind} {old : String}
    (hkind : d.kind? old = some kind) (new : String) :
    (rename old new).effect d =
      if new ∈ d.uids kind then .error (.config new .takenUid)
      else .ok (d.renamed (.single kind old new)) := by
  simp only [effect, hkind]

end WingBox
