import WingBox.Build.Chain
import WingBox.Cut.Intersect
import WingBox.Definition.Ribs
import WingBox.Structure.Store

/-!
# Queries

A `Design` is the wing of a structure with the definitions of its parts.  A `Query` reads the
design, may be refused with an `Error`, and fills the store on the way; what it has filled stays
when it is refused in the end.  It leaves an `Event` when the builder of a cache is entered and when
it has succeeded (`Query.cached`), of which no query reads anything.

This module has the queries for definitions and for the surfaces of the wing.
-/

namespace WingBox

open Scalar

/-- A wing and the definitions of its parts. -/
structure Design (K : Type) where
  /-- The wing. -/
  wing : Wing K
  /-- The spar positions. -/
  positions : Registry (SparPosition K)
  /-- The spars. -/
  spars : Registry (SparSegment K)
  /-- The ribs. -/
  ribs : Registry (RibsDefinition K)

/-- A question about a design that may fill the store. -/
abbrev Query (K : Type) :=
  ReaderT (Design K) (ExceptT (Error K) (StateT (Store K) (Traced Event)))

/-- In which frame geometry is given. -/
inductive Frame where
  /-- The frame of the wing. -/
  | wing
  /-- The frame of the aircraft. -/
  | global
deriving DecidableEq

namespace Query

variable {K : Type} [Scalar K]

/-- The result of a computation that needs no store. -/
def ofExcept {α : Type} : Except (Error K) α → Query K α
  | .ok x => pure x
  | .error e => throw e

/-- The value, or a fault if there is none. -/
def require {α : Type} (e : Error K) : Option α → Query K α
  | some x => pure x
  | none => throw e

/-- Leaves an event. -/
def leave (e : Event) : Query K Unit := liftM (Traced.leave e)

/-- The builder of a cache, with an event when it is entered and one when it has succeeded. -/
def traced (n : CacheName) (build : Query K (n.Value K)) : Query K (n.Value K) := do
  leave (.entered n)
  let value ← build
  leave (.built n)
  return value

/-- The value of a cache, built and kept there if there is none. -/
def cached (n : CacheName) (build : Query K (n.Value K)) : Query K (n.Value K) :=
  n.slot.getOrBuild (traced n build)

/-! ### Definitions -/

/-- The wing. -/
def wing : Query K (Wing K) := return (← read).wing

/-- The spar position with a name. -/
def position (uid : String) : Query K (SparPosition K) := do
  require (.notFound .sparPosition uid) ((← read).positions.get? uid)

/-- The spar with a name. -/
def spar (uid : String) : Query K (SparSegment K) := do
  require (.notFound .sparSegment uid) ((← read).spars.get? uid)

/-- The spar at an index that starts at one. -/
def sparAt (index : Nat) : Query K (SparSegment K) := do
  let spars := (← read).spars
  let i ← ofExcept (Error.checkIndex .sparSegment index spars.size)
  require (.index .sparSegment index spars.size) (spars.at? i)

/-- The ribs with a name. -/
def ribs (uid : String) : Query K (RibsDefinition K) := do
  require (.notFound .ribsDefinition uid) ((← read).ribs.get? uid)

/-- The ribs at an index that starts at one. -/
def ribsAt (index : Nat) : Query K (RibsDefinition K) := do
  let ribs := (← read).ribs
  let i ← ofExcept (Error.checkIndex .ribsDefinition index ribs.size)
  require (.index .ribsDefinition index ribs.size) (ribs.at? i)

/-! ### The wing -/

/-- The surfaces of the wing. -/
def wingGeometry : Query K (WingGeometry K) := do
  let w ← wing
  cached .wing (ofExcept w.geometry)

/-- The closed shell of the wing. -/
def loft : Query K (Shape K) := return (← wingGeometry).loft

/-- How large the wing is: the diagonal of the box around its shell. -/
def size : Query K K := return (← loft).diagonal

/-- The face of a section element. -/
def elementFace (uid : String) : Query K (Face K) := do
  let (i, _) ← ofExcept ((← wing).section? uid)
  require (.notFound .sectionElement uid) ((← wingGeometry).sectionFaces[i]?)

/-! ### Frames -/

/-- A point in a frame. -/
def pointIn (frame : Frame) (p : Vec K) : Query K (Vec K) := do
  match frame with
  | .wing => return p
  | .global => return (← wing).transformation.apply p

/-- A face in a frame. -/
def faceIn (frame : Frame) (f : Face K) : Query K (Face K) := do
  match frame with
  | .wing => return f
  | .global => return f.transformed (← wing).transformation

/-- A shape in a frame. -/
def shapeIn (frame : Frame) (s : Shape K) : Query K (Shape K) := do
  match frame with
  | .wing => return s
  | .global => return s.transformed (← wing).transformation

/-- A wire in a frame. -/
def wireIn (frame : Frame) (w : Wire K) : Query K (Wire K) := do
  match frame with
  | .wing => return w
  | .global => return w.transformed (← wing).transformation

/-! ### Trimming -/

/-- The part of an oversized face inside the wing.  The edges in which it meets the shell chain
into one wire, which bounds a planar face, or into two, which bound a ruled one. -/
def trim (uid : String) (cut : Face K) (shell : Shape K) : Except (Error K) (Face K) :=
  match Wire.chain ((Shape.ofFace cut).intersection shell) with
  | [w] => Error.ofShapeFault uid (Face.ofBoundary w.closed)
  | [w, v] => Error.ofShapeFault uid (Face.ruledAlong (w.stop - w.start) w v)
  | ws => .error (.geometry uid (.shape (.wireCount .oneOrTwo ws.length)))

/-- What becomes of an oversized face that is trimmed to the shell, by the wires that the edges in
which the two meet chain into. -/
inductive Trimmed (cut : Face K) (shell : Shape K) : Except ShapeFault (Face K) → Prop
  /-- The edges chain into one wire.  It is closed and filled. -/
  | filled {w : Wire K} (h : Wire.chain ((Shape.ofFace cut).intersection shell) = [w]) :
    Trimmed cut shell (Face.ofBoundary w.closed)
  /-- The edges chain into two wires.  The face between them is ruled, with both run as the first
  one leads. -/
  | ruled {w v : Wire K} (h : Wire.chain ((Shape.ofFace cut).intersection shell) = [w, v]) :
    Trimmed cut shell (Face.ruledAlong (w.stop - w.start) w v)
  /-- The edges chain into no wire, or into more than two. -/
  | miscounted {ws : List (Wire K)} (h : Wire.chain ((Shape.ofFace cut).intersection shell) = ws)
    (hone : ws.length ≠ 1) (htwo : ws.length ≠ 2) :
    Trimmed cut shell (.error (.wireCount .oneOrTwo ws.length))

section Trimmed

variable {uid : String} {cut : Face K} {shell : Shape K}

theorem exists_trimmed (uid : String) (cut : Face K) (shell : Shape K) :
    ∃ r, Trimmed cut shell r ∧ trim uid cut shell = Error.ofShapeFault uid r := by
  unfold trim
  match h : Wire.chain ((Shape.ofFace cut).intersection shell) with
  | [w] => exact ⟨_, .filled h, rfl⟩
  | [w, v] => exact ⟨_, .ruled h, rfl⟩
  | [] => exact ⟨_, .miscounted h (by simp) (by simp), rfl⟩
  | w :: v :: u :: ws => exact ⟨_, .miscounted h (by simp) (by simp), rfl⟩

theorem Trimmed.trim_eq {r : Except ShapeFault (Face K)} (h : Trimmed cut shell r) :
    trim uid cut shell = Error.ofShapeFault uid r := by
  unfold trim
  cases h with
  | filled h => rw [h]
  | ruled h => rw [h]
  | miscounted h hone htwo =>
    rw [h]
    split
    · exact absurd rfl hone
    · exact absurd rfl htwo
    · rfl

/-- A face that comes out of trimming is filled, or ruled between two wires. -/
theorem trim_eq_ok_iff {f : Face K} :
    trim uid cut shell = .ok f ↔ Trimmed cut shell (.ok f) := by
  refine ⟨fun h => ?_, Trimmed.trim_eq⟩
  obtain ⟨r, hr, heq⟩ := exists_trimmed uid cut shell
  rw [heq] at h
  cases r with
  | ok g =>
    cases h
    exact hr
  | error fault => cases h

/-- Trimming is refused for the number of the wires, or because they bound no face. -/
theorem trim_eq_error_iff {e : Error K} : trim uid cut shell = .error e ↔
    ∃ fault, e = .geometry uid (.shape fault) ∧ Trimmed cut shell (.error fault) := by
  constructor
  · intro h
    obtain ⟨r, hr, heq⟩ := exists_trimmed uid cut shell
    rw [heq] at h
    cases r with
    | ok g => cases h
    | error fault =>
      cases h
      exact ⟨fault, rfl, hr⟩
  · rintro ⟨fault, rfl, h⟩
    exact h.trim_eq

end Trimmed

/-- The edges in which a cutter meets the skins on which there are caps. -/
def skinEdges (cutter : Shape K) (hasCap : Side → Bool) : Query K (Caps K) := do
  let edges (side : Side) : Query K (Option (Shape K)) := do
    if hasCap side then
      return some (.ofEdges (((← wingGeometry).skin side).intersection cutter))
    else return none
  let upper ← edges .upper
  let lower ← edges .lower
  return ⟨upper, lower⟩

end Query

end WingBox
