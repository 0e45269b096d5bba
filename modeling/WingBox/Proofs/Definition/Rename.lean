import WingBox.Proofs.Definition.Match

/-!
# Renamings

A `Renaming` gives new names to the names of every kind of part.  Every definition lists the names
that it holds, each with the kind of part that it names (`names`), and every definition can be
rewritten under a renaming, name by name (`renamed`).

* `renamed_of_fixed`: a renaming that fixes all names of a definition leaves it alone;
* `renamed_renamed`: renaming twice is renaming once;
* `match_renamed`: a definition matches what it becomes, for a naming in which all its names stand
  for their new names.

The renaming of a single part, `Renaming.single`, is what the definitions do when one of their
parts gets another name.
-/

namespace WingBox

variable {K : Type}

/-- The kinds of parts that have names. -/
inductive PartKind where
  | position
  | spar
  | ribs
deriving DecidableEq

/-- The name of a part of some kind. -/
abbrev PartName := PartKind × String

/-- New names for parts of all kinds. -/
abbrev Renaming := PartKind → String → String

/-- One part gets another name. -/
def Renaming.single (kind : PartKind) (old new : String) : Renaming := fun k x =>
  if k = kind ∧ x = old then new else x

/-- The name of a part stands for another one. -/
def Naming.Stands (N : Naming) : PartKind → String → String → Prop
  | .position => N.position
  | .spar => N.spar
  | .ribs => N.ribs

/-- The names of parts stand for their new names. -/
def Renaming.Follows (ρ : Renaming) (N : Naming) (names : List PartName) : Prop :=
  ∀ n ∈ names, N.Stands n.1 n.2 (ρ n.1 n.2)

/-- The names of parts stay what they are. -/
def Renaming.Fixes (ρ : Renaming) (names : List PartName) : Prop :=
  ∀ n ∈ names, ρ n.1 n.2 = n.2

/-- One renaming after another. -/
def Renaming.after (σ ρ : Renaming) : Renaming := fun k x => σ k (ρ k x)

variable {N : Naming} {ρ σ : Renaming}

namespace Renaming

theorem fixes_append {xs ys : List PartName} : ρ.Fixes (xs ++ ys) ↔ ρ.Fixes xs ∧ ρ.Fixes ys :=
  List.forall_mem_append

theorem follows_append {xs ys : List PartName} :
    ρ.Follows N (xs ++ ys) ↔ ρ.Follows N xs ∧ ρ.Follows N ys :=
  List.forall_mem_append

@[simp] theorem single_of_ne {kind k : PartKind} (hk : k ≠ kind) (old new x : String) :
    single kind old new k x = x :=
  if_neg fun h => hk h.1

theorem single_self (kind : PartKind) (old new x : String) :
    single kind old new kind x = if x = old then new else x := by
  simp [single]

end Renaming

/-! ### Lines -/

namespace NamedLine

/-- The names that a line holds. -/
def names : NamedLine → List PartName
  | spar uid => [(.spar, uid)]
  | _ => []

/-- The line under new names. -/
def renamed (ρ : Renaming) : NamedLine → NamedLine
  | spar uid => spar (ρ .spar uid)
  | l => l

theorem renamed_of_fixed {l : NamedLine} (h : ρ.Fixes l.names) : l.renamed ρ = l := by
  cases l with
  | leadingEdge | trailingEdge => rfl
  | spar uid => exact congrArg spar (h _ (List.mem_singleton_self _))

@[simp] theorem renamed_renamed (l : NamedLine) :
    (l.renamed ρ).renamed σ = l.renamed (σ.after ρ) := by
  cases l <;> rfl

theorem match_renamed {l : NamedLine} (h : ρ.Follows N l.names) :
    NamedLine.Match N l (l.renamed ρ) := by
  cases l with
  | leadingEdge => exact .leadingEdge
  | trailingEdge => exact .trailingEdge
  | spar uid => exact .spar (h _ (List.mem_singleton_self _))

theorem renameSpar_eq (old new : String) (l : NamedLine) :
    l.renameSpar old new = l.renamed (.single .spar old new) := by
  cases l with
  | leadingEdge | trailingEdge => rfl
  | spar uid => rw [renameSpar, renamed, Renaming.single_self]

/-- Lines name spars only. -/
theorem renamed_single {kind : PartKind} (hk : .spar ≠ kind) (old new : String) (l : NamedLine) :
    l.renamed (.single kind old new) = l := by
  cases l with
  | leadingEdge | trailingEdge => rfl
  | spar uid => exact congrArg spar (Renaming.single_of_ne hk old new uid)

end NamedLine

namespace RibDatum

/-- The names that a reference holds. -/
def names : RibDatum → List PartName
  | line l => l.names
  | _ => []

/-- The reference under new names. -/
def renamed (ρ : Renaming) : RibDatum → RibDatum
  | line l => line (l.renamed ρ)
  | r => r

theorem renamed_of_fixed {r : RibDatum} (h : ρ.Fixes r.names) : r.renamed ρ = r := by
  cases r with
  | globalX | globalY => rfl
  | line l => exact congrArg line (NamedLine.renamed_of_fixed h)

@[simp] theorem renamed_renamed (r : RibDatum) :
    (r.renamed ρ).renamed σ = r.renamed (σ.after ρ) := by
  cases r with
  | globalX | globalY => rfl
  | line l => exact congrArg line l.renamed_renamed

theorem match_renamed {r : RibDatum} (h : ρ.Follows N r.names) :
    RibDatum.Match N r (r.renamed ρ) := by
  cases r with
  | globalX => exact .globalX
  | globalY => exact .globalY
  | line l => exact .line (NamedLine.match_renamed h)

theorem renameSpar_eq (old new : String) (r : RibDatum) :
    r.renameSpar old new = r.renamed (.single .spar old new) := by
  cases r with
  | globalX | globalY => rfl
  | line l => exact congrArg line (l.renameSpar_eq old new)

/-- References name spars only. -/
theorem renamed_single {kind : PartKind} (hk : .spar ≠ kind) (old new : String) (r : RibDatum) :
    r.renamed (.single kind old new) = r := by
  cases r with
  | globalX | globalY => rfl
  | line l => exact congrArg line (l.renamed_single hk old new)

end RibDatum

/-! ### Spars -/

namespace SparPosition

/-- The name of a position. -/
def names (p : SparPosition K) : List PartName := [(.position, p.uid)]

/-- The position under a new name. -/
def renamed (ρ : Renaming) (p : SparPosition K) : SparPosition K :=
  { p with uid := ρ .position p.uid }

theorem renamed_of_fixed {p : SparPosition K} (h : ρ.Fixes p.names) : p.renamed ρ = p := by
  have huid : ρ .position p.uid = p.uid := h _ (List.mem_singleton_self _)
  rw [renamed, huid]

@[simp] theorem renamed_renamed (p : SparPosition K) :
    (p.renamed ρ).renamed σ = p.renamed (σ.after ρ) := rfl

theorem match_renamed {p : SparPosition K} (h : ρ.Follows N p.names) : p.Match N (p.renamed ρ) where
  uid := h _ (List.mem_singleton_self _)
  location := rfl
  xsi := rfl

/-- Renaming a position renames the one of that name. -/
theorem renamed_single (old new : String) (p : SparPosition K) :
    p.renamed (.single .position old new) = if p.uid = old then Named.withUid new p else p := by
  rw [renamed, Renaming.single_self]
  split <;> rfl

/-- Positions name no other kind of part. -/
theorem renamed_single_of_ne {kind : PartKind} (hk : .position ≠ kind) (old new : String)
    (p : SparPosition K) : p.renamed (.single kind old new) = p :=
  congrArg (SparPosition.mk · p.location p.xsi) (Renaming.single_of_ne hk old new p.uid)

end SparPosition

namespace SparSegment

/-- The names that a spar holds. -/
def names (s : SparSegment K) : List PartName :=
  (.spar, s.uid) :: s.positionUids.map fun uid => (.position, uid)

/-- The spar under new names. -/
def renamed (ρ : Renaming) (s : SparSegment K) : SparSegment K :=
  { s with uid := ρ .spar s.uid, positionUids := s.positionUids.map (ρ .position) }

theorem renamed_of_fixed {s : SparSegment K} (h : ρ.Fixes s.names) : s.renamed ρ = s := by
  obtain ⟨huid, huids⟩ := List.forall_mem_cons.1 h
  have hpositions : s.positionUids.map (ρ .position) = s.positionUids := by
    conv_rhs => rw [← List.map_id s.positionUids]
    exact List.map_congr_left (List.forall_mem_map.1 huids)
  rw [renamed, hpositions]
  exact congrArg (SparSegment.mk · s.positionUids s.crossSection) huid

@[simp] theorem renamed_renamed (s : SparSegment K) :
    (s.renamed ρ).renamed σ = s.renamed (σ.after ρ) := by
  simp only [renamed, List.map_map]
  rfl

theorem match_renamed {s : SparSegment K} (h : ρ.Follows N s.names) : s.Match N (s.renamed ρ) := by
  obtain ⟨huid, huids⟩ := List.forall_mem_cons.1 h
  refine { uid := huid, positionUids := ?_, crossSection := rfl }
  rw [renamed, List.forall₂_map_right_iff]
  exact List.forall₂_same.2 (List.forall_mem_map.1 huids)

theorem renamePosition_eq (old new : String) (s : SparSegment K) :
    s.renamePosition old new = s.renamed (.single .position old new) := by
  have hk : PartKind.spar ≠ .position := by decide
  have hsingle : Renaming.single .position old new .position =
      fun uid => if uid = old then new else uid := funext (Renaming.single_self _ old new)
  rw [renamePosition, renamed, Renaming.single_of_ne hk, hsingle]

/-- A renaming of parts other than positions leaves the positions of a spar alone. -/
theorem renamed_eq_of_ne {kind : PartKind} (hk : .position ≠ kind) (old new : String)
    (s : SparSegment K) :
    s.renamed (.single kind old new) =
      { s with uid := Renaming.single kind old new .spar s.uid } := by
  have hsingle : Renaming.single kind old new .position = id :=
    funext (Renaming.single_of_ne hk old new)
  rw [renamed, hsingle, List.map_id]

/-- Renaming a spar renames the one of that name. -/
theorem renamed_single (old new : String) (s : SparSegment K) :
    s.renamed (.single .spar old new) = if s.uid = old then Named.withUid new s else s := by
  rw [renamed_eq_of_ne (by decide), Renaming.single_self]
  split <;> rfl

/-- Spars name no ribs. -/
theorem renamed_ribs (old new : String) (s : SparSegment K) :
    s.renamed (.single .ribs old new) = s := by
  rw [renamed_eq_of_ne (by decide), Renaming.single_of_ne (by decide)]

end SparSegment

/-! ### Ribs -/

namespace SetBoundary

/-- The names that a boundary holds. -/
def names : SetBoundary K → List PartName
  | sparPositionUid uid => [(.position, uid)]
  | _ => []

/-- The boundary under new names. -/
def renamed (ρ : Renaming) : SetBoundary K → SetBoundary K
  | sparPositionUid uid => sparPositionUid (ρ .position uid)
  | b => b

theorem renamed_of_fixed {b : SetBoundary K} (h : ρ.Fixes b.names) : b.renamed ρ = b := by
  cases b with
  | eta | elementUid => rfl
  | sparPositionUid uid => exact congrArg sparPositionUid (h _ (List.mem_singleton_self _))

@[simp] theorem renamed_renamed (b : SetBoundary K) :
    (b.renamed ρ).renamed σ = b.renamed (σ.after ρ) := by
  cases b <;> rfl

theorem match_renamed {b : SetBoundary K} (h : ρ.Follows N b.names) : b.Match N (b.renamed ρ) := by
  cases b with
  | eta eta => exact .eta eta
  | elementUid uid => exact .elementUid uid
  | sparPositionUid uid => exact .sparPositionUid (h _ (List.mem_singleton_self _))

theorem renamePosition_eq (old new : String) (b : SetBoundary K) :
    b.renamePosition old new = b.renamed (.single .position old new) := by
  cases b with
  | eta | elementUid => rfl
  | sparPositionUid uid => rw [renamePosition, renamed, Renaming.single_self]

/-- Boundaries name spar positions only. -/
theorem renamed_single {kind : PartKind} (hk : .position ≠ kind) (old new : String)
    (b : SetBoundary K) : b.renamed (.single kind old new) = b := by
  cases b with
  | eta | elementUid => rfl
  | sparPositionUid uid => exact congrArg sparPositionUid (Renaming.single_of_ne hk old new uid)

end SetBoundary

namespace RibSet

/-- The names that a set holds. -/
def names (s : RibSet K) : List PartName :=
  s.ribReference.names ++ s.start.names ++ s.stop.names ++ s.ribStart.names ++ s.ribEnd.names
    ++ s.rotation.reference.elim [] RibDatum.names

/-- The set under new names. -/
def renamed (ρ : Renaming) (s : RibSet K) : RibSet K :=
  { s with
    ribReference := s.ribReference.renamed ρ
    start := s.start.renamed ρ
    stop := s.stop.renamed ρ
    ribStart := s.ribStart.renamed ρ
    ribEnd := s.ribEnd.renamed ρ
    rotation := { s.rotation with reference := s.rotation.reference.map (·.renamed ρ) } }

theorem renamed_of_fixed {s : RibSet K} (h : ρ.Fixes s.names) : s.renamed ρ = s := by
  simp only [names, Renaming.fixes_append] at h
  obtain ⟨⟨⟨⟨⟨href, hstart⟩, hstop⟩, hribStart⟩, hribEnd⟩, hrot⟩ := h
  have hdatum : s.rotation.reference.map (·.renamed ρ) = s.rotation.reference := by
    generalize s.rotation.reference = datum at hrot
    cases datum with
    | none => rfl
    | some r => exact congrArg some (RibDatum.renamed_of_fixed hrot)
  rw [renamed, NamedLine.renamed_of_fixed href, SetBoundary.renamed_of_fixed hstart,
    SetBoundary.renamed_of_fixed hstop, NamedLine.renamed_of_fixed hribStart,
    NamedLine.renamed_of_fixed hribEnd, hdatum]

@[simp] theorem renamed_renamed (s : RibSet K) :
    (s.renamed ρ).renamed σ = s.renamed (σ.after ρ) := by
  simp only [renamed, NamedLine.renamed_renamed, SetBoundary.renamed_renamed, Option.map_map,
    Function.comp_def, RibDatum.renamed_renamed]

theorem match_renamed {s : RibSet K} (h : ρ.Follows N s.names) : s.Match N (s.renamed ρ) := by
  simp only [names, Renaming.follows_append] at h
  obtain ⟨⟨⟨⟨⟨href, hstart⟩, hstop⟩, hribStart⟩, hribEnd⟩, hrot⟩ := h
  refine {
    ribReference := NamedLine.match_renamed href
    start := SetBoundary.match_renamed hstart
    stop := SetBoundary.match_renamed hstop
    ribStart := NamedLine.match_renamed hribStart
    ribEnd := NamedLine.match_renamed hribEnd
    count := rfl
    z := rfl
    reference := ?_ }
  rw [renamed]
  generalize s.rotation.reference = datum at hrot
  cases datum with
  | none => exact .none
  | some r => exact .some (RibDatum.match_renamed hrot)

theorem renamePosition_eq (old new : String) (s : RibSet K) :
    s.renamePosition old new = s.renamed (.single .position old new) := by
  have hk : PartKind.spar ≠ .position := by decide
  simp only [renamePosition, renamed, SetBoundary.renamePosition_eq, NamedLine.renamed_single hk,
    RibDatum.renamed_single hk, Option.map_id_fun', id]

theorem renameSpar_eq (old new : String) (s : RibSet K) :
    s.renameSpar old new = s.renamed (.single .spar old new) := by
  have hk : PartKind.position ≠ .spar := by decide
  simp only [renameSpar, renamed, SetBoundary.renamed_single hk, NamedLine.renameSpar_eq,
    RibDatum.renameSpar_eq]

/-- Sets name no ribs. -/
theorem renamed_ribs (old new : String) (s : RibSet K) :
    s.renamed (.single .ribs old new) = s := by
  have hp : PartKind.position ≠ .ribs := by decide
  have hs : PartKind.spar ≠ .ribs := by decide
  simp only [renamed, SetBoundary.renamed_single hp, NamedLine.renamed_single hs,
    RibDatum.renamed_single hs, Option.map_id_fun', id]

end RibSet

namespace RibEnd

/-- The names that an end of a rib holds. -/
def names : RibEnd K → List PartName
  | etaXsi _ _ _ => []
  | curve reference _ => reference.names
  | sparPosition uid => [(.position, uid)]

/-- The end under new names. -/
def renamed (ρ : Renaming) : RibEnd K → RibEnd K
  | etaXsi eta xsi referenceUid => etaXsi eta xsi referenceUid
  | curve reference eta => curve (reference.renamed ρ) eta
  | sparPosition uid => sparPosition (ρ .position uid)

theorem renamed_of_fixed {e : RibEnd K} (h : ρ.Fixes e.names) : e.renamed ρ = e := by
  cases e with
  | etaXsi => rfl
  | curve reference eta => exact congrArg (curve · eta) (NamedLine.renamed_of_fixed h)
  | sparPosition uid => exact congrArg sparPosition (h _ (List.mem_singleton_self _))

@[simp] theorem renamed_renamed (e : RibEnd K) :
    (e.renamed ρ).renamed σ = e.renamed (σ.after ρ) := by
  cases e with
  | etaXsi | sparPosition => rfl
  | curve reference eta => exact congrArg (curve · eta) reference.renamed_renamed

theorem match_renamed {e : RibEnd K} (h : ρ.Follows N e.names) : e.Match N (e.renamed ρ) := by
  cases e with
  | etaXsi eta xsi referenceUid => exact .etaXsi eta xsi referenceUid
  | curve reference eta => exact .curve (NamedLine.match_renamed h) eta
  | sparPosition uid => exact .sparPosition (h _ (List.mem_singleton_self _))

theorem renamePosition_eq (old new : String) (e : RibEnd K) :
    e.renamePosition old new = e.renamed (.single .position old new) := by
  cases e with
  | etaXsi => rfl
  | curve reference eta =>
    exact congrArg (curve · eta) (reference.renamed_single (by decide) old new).symm
  | sparPosition uid => rw [renamePosition, renamed, Renaming.single_self]

theorem renameSpar_eq (old new : String) (e : RibEnd K) :
    e.renameSpar old new = e.renamed (.single .spar old new) := by
  cases e with
  | etaXsi => rfl
  | curve reference eta => exact congrArg (curve · eta) (reference.renameSpar_eq old new)
  | sparPosition uid =>
    exact congrArg sparPosition (Renaming.single_of_ne (by decide) old new uid).symm

/-- Ends of ribs name no ribs. -/
theorem renamed_ribs (old new : String) (e : RibEnd K) :
    e.renamed (.single .ribs old new) = e := by
  cases e with
  | etaXsi => rfl
  | curve reference eta =>
    exact congrArg (curve · eta) (reference.renamed_single (by decide) old new)
  | sparPosition uid => exact congrArg sparPosition (Renaming.single_of_ne (by decide) old new uid)

end RibEnd

namespace ExplicitRib

/-- The names that a rib holds. -/
def names (e : ExplicitRib K) : List PartName :=
  e.start.names ++ e.stop.names ++ e.ribStart.names ++ e.ribEnd.names

/-- The rib under new names. -/
def renamed (ρ : Renaming) (e : ExplicitRib K) : ExplicitRib K where
  start := e.start.renamed ρ
  stop := e.stop.renamed ρ
  ribStart := e.ribStart.renamed ρ
  ribEnd := e.ribEnd.renamed ρ

theorem renamed_of_fixed {e : ExplicitRib K} (h : ρ.Fixes e.names) : e.renamed ρ = e := by
  simp only [names, Renaming.fixes_append] at h
  obtain ⟨⟨⟨hstart, hstop⟩, hribStart⟩, hribEnd⟩ := h
  rw [renamed, RibEnd.renamed_of_fixed hstart, RibEnd.renamed_of_fixed hstop,
    NamedLine.renamed_of_fixed hribStart, NamedLine.renamed_of_fixed hribEnd]

@[simp] theorem renamed_renamed (e : ExplicitRib K) :
    (e.renamed ρ).renamed σ = e.renamed (σ.after ρ) := by
  simp only [renamed, RibEnd.renamed_renamed, NamedLine.renamed_renamed]

theorem match_renamed {e : ExplicitRib K} (h : ρ.Follows N e.names) :
    e.Match N (e.renamed ρ) := by
  simp only [names, Renaming.follows_append] at h
  obtain ⟨⟨⟨hstart, hstop⟩, hribStart⟩, hribEnd⟩ := h
  exact {
    start := RibEnd.match_renamed hstart
    stop := RibEnd.match_renamed hstop
    ribStart := NamedLine.match_renamed hribStart
    ribEnd := NamedLine.match_renamed hribEnd }

theorem renamePosition_eq (old new : String) (e : ExplicitRib K) :
    e.renamePosition old new = e.renamed (.single .position old new) := by
  have hk : PartKind.spar ≠ .position := by decide
  simp only [renamePosition, renamed, RibEnd.renamePosition_eq, NamedLine.renamed_single hk]

theorem renameSpar_eq (old new : String) (e : ExplicitRib K) :
    e.renameSpar old new = e.renamed (.single .spar old new) := by
  simp only [renameSpar, renamed, RibEnd.renameSpar_eq, NamedLine.renameSpar_eq]

/-- Explicit ribs name no ribs. -/
theorem renamed_ribs (old new : String) (e : ExplicitRib K) :
    e.renamed (.single .ribs old new) = e := by
  have hs : PartKind.spar ≠ .ribs := by decide
  simp only [renamed, RibEnd.renamed_ribs, NamedLine.renamed_single hs]

end ExplicitRib

namespace RibsDeclaration

/-- The names that a declaration holds. -/
def names (d : RibsDeclaration K) : List PartName :=
  (.ribs, d.uid) :: (d.ribsPositioning.elim [] RibSet.names
    ++ d.explicitPositioning.elim [] ExplicitRib.names)

/-- The declaration under new names. -/
def renamed (ρ : Renaming) (d : RibsDeclaration K) : RibsDeclaration K :=
  { d with
    uid := ρ .ribs d.uid
    ribsPositioning := d.ribsPositioning.map (·.renamed ρ)
    explicitPositioning := d.explicitPositioning.map (·.renamed ρ) }

theorem renamed_of_fixed {d : RibsDeclaration K} (h : ρ.Fixes d.names) : d.renamed ρ = d := by
  obtain ⟨uid, set, rib, crossSection⟩ := d
  obtain ⟨huid, hrest⟩ := List.forall_mem_cons.1 h
  obtain ⟨hset, hrib⟩ := Renaming.fixes_append.1 hrest
  have huid : ρ .ribs uid = uid := huid
  have hset : set.map (·.renamed ρ) = set := by
    cases set with
    | none => rfl
    | some s => exact congrArg some (RibSet.renamed_of_fixed hset)
  have hrib : rib.map (·.renamed ρ) = rib := by
    cases rib with
    | none => rfl
    | some e => exact congrArg some (ExplicitRib.renamed_of_fixed hrib)
  simp only [renamed, huid, hset, hrib]

@[simp] theorem renamed_renamed (d : RibsDeclaration K) :
    (d.renamed ρ).renamed σ = d.renamed (σ.after ρ) := by
  simp only [renamed, Option.map_map, Function.comp_def, RibSet.renamed_renamed,
    ExplicitRib.renamed_renamed, Renaming.after]

end RibsDeclaration

namespace RibsDefinition

/-- Ribs match ribs whose declaration is theirs under new names. -/
theorem match_of_declaration {r r' : RibsDefinition K}
    (hr : r'.declaration = r.declaration.renamed ρ) (h : ρ.Follows N r.declaration.names) :
    r.Match N r' := by
  obtain ⟨huid, hrest⟩ := List.forall_mem_cons.1 h
  obtain ⟨hset, hrib⟩ := Renaming.follows_append.1 hrest
  obtain ⟨uid, p, crossSection⟩ := r
  obtain ⟨uid', p', crossSection'⟩ := r'
  simp only [declaration, RibsDeclaration.renamed, RibsDeclaration.mk.injEq] at hr
  obtain ⟨rfl, hset', hrib', rfl⟩ := hr
  refine { uid := huid, positioning := ?_, crossSection := rfl }
  cases p with
  | set s =>
    cases p' with
    | set s' =>
      cases hset'
      exact .set (RibSet.match_renamed hset)
    | explicit e' => cases hset'
  | explicit e =>
    cases p' with
    | set s' => cases hset'
    | explicit e' =>
      cases hrib'
      exact .explicit (ExplicitRib.match_renamed hrib)

/-- Ribs after a spar position got another name. -/
theorem declaration_renamePosition (old new : String) (r : RibsDefinition K) :
    (r.renamePosition old new).declaration = r.declaration.renamed (.single .position old new) := by
  obtain ⟨uid, p, crossSection⟩ := r
  have huid : Renaming.single .position old new .ribs uid = uid :=
    Renaming.single_of_ne (by decide) old new uid
  cases p with
  | set s =>
    simp only [renamePosition, declaration, RibPlacement.renamePosition, RibPlacement.set?,
      RibPlacement.explicit?, RibsDeclaration.renamed, RibSet.renamePosition_eq, huid,
      Option.map_some, Option.map_none]
  | explicit e =>
    simp only [renamePosition, declaration, RibPlacement.renamePosition, RibPlacement.set?,
      RibPlacement.explicit?, RibsDeclaration.renamed, ExplicitRib.renamePosition_eq, huid,
      Option.map_some, Option.map_none]

/-- Ribs after a spar got another name. -/
theorem declaration_renameSpar (old new : String) (r : RibsDefinition K) :
    (r.renameSpar old new).declaration = r.declaration.renamed (.single .spar old new) := by
  obtain ⟨uid, p, crossSection⟩ := r
  have huid : Renaming.single .spar old new .ribs uid = uid :=
    Renaming.single_of_ne (by decide) old new uid
  cases p with
  | set s =>
    simp only [renameSpar, declaration, RibPlacement.renameSpar, RibPlacement.set?,
      RibPlacement.explicit?, RibsDeclaration.renamed, RibSet.renameSpar_eq, huid,
      Option.map_some, Option.map_none]
  | explicit e =>
    simp only [renameSpar, declaration, RibPlacement.renameSpar, RibPlacement.set?,
      RibPlacement.explicit?, RibsDeclaration.renamed, ExplicitRib.renameSpar_eq, huid,
      Option.map_some, Option.map_none]

/-- Ribs after ribs got another name. -/
theorem declaration_renameRibs (old new : String) (r : RibsDefinition K) :
    (if r.uid = old then Named.withUid new r else r).declaration =
      r.declaration.renamed (.single .ribs old new) := by
  have huid : Renaming.single .ribs old new .ribs r.uid = if r.uid = old then new else r.uid :=
    Renaming.single_self _ _ _ _
  have hset :
      (r.positioning.set?.map (·.renamed (.single .ribs old new))) = r.positioning.set? := by
    simp only [RibSet.renamed_ribs, Option.map_id_fun', id]
  have hrib : (r.positioning.explicit?.map (·.renamed (.single .ribs old new))) =
      r.positioning.explicit? := by
    simp only [ExplicitRib.renamed_ribs, Option.map_id_fun', id]
  rw [RibsDeclaration.renamed]
  simp only [declaration, huid, hset, hrib]
  split <;> rfl

end RibsDefinition

/-! ### Descriptions -/

namespace Description

/-- The names that a description holds. -/
def names (d : Description K) : List PartName :=
  d.sparPositions.flatMap SparPosition.names ++ d.sparSegments.flatMap SparSegment.names
    ++ d.ribsDefinitions.flatMap RibsDeclaration.names

/-- The description under new names. -/
def renamed (ρ : Renaming) (d : Description K) : Description K where
  sparPositions := d.sparPositions.map (·.renamed ρ)
  sparSegments := d.sparSegments.map (·.renamed ρ)
  ribsDefinitions := d.ribsDefinitions.map (·.renamed ρ)

theorem renamed_of_fixed {d : Description K} (h : ρ.Fixes d.names) : d.renamed ρ = d := by
  obtain ⟨positions, spars, ribs⟩ := d
  simp only [names, Renaming.fixes_append] at h
  obtain ⟨⟨hpositions, hspars⟩, hribs⟩ := h
  have hp : positions.map (·.renamed ρ) = positions.map id :=
    List.map_congr_left fun p hp => SparPosition.renamed_of_fixed fun n hn =>
      hpositions n (List.mem_flatMap_of_mem hp hn)
  have hs : spars.map (·.renamed ρ) = spars.map id :=
    List.map_congr_left fun s hs => SparSegment.renamed_of_fixed fun n hn =>
      hspars n (List.mem_flatMap_of_mem hs hn)
  have hr : ribs.map (·.renamed ρ) = ribs.map id :=
    List.map_congr_left fun r hr => RibsDeclaration.renamed_of_fixed fun n hn =>
      hribs n (List.mem_flatMap_of_mem hr hn)
  rw [List.map_id] at hp hs hr
  rw [renamed, hp, hs, hr]

@[simp] theorem renamed_renamed (d : Description K) :
    (d.renamed ρ).renamed σ = d.renamed (σ.after ρ) := by
  simp only [renamed, List.map_map, Function.comp_def, SparPosition.renamed_renamed,
    SparSegment.renamed_renamed, RibsDeclaration.renamed_renamed]

end Description

end WingBox
