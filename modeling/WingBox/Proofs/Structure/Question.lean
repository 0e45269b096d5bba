import WingBox.Proofs.Structure.ParallelSplit
import WingBox.Structure.View

/-!
# Questions

A `Question` is anything that may be asked about the geometry of a structure: about a spar or ribs
with a name or at an index, about a spar position, about a line or about the wing.

`Query.parallel_question`: questions that match under a naming have matching outcomes on designs
that match.  A question is `IsLocal` if it asks by name and not for split faces; for such a question
it is enough that lookups match (`Query.parallel_localQuestion`).  All of them are answered from
coherent stores, so the outcomes do not depend on what the stores hold.
-/

namespace WingBox

variable {K : Type}

/-- What may be asked about a spar. -/
inductive SparQuestion (K : Type) : Type → Type 1
  /-- The faces, trimmed to the wing. -/
  | geometry (frame : Frame) : SparQuestion K (Shape K)
  /-- The faces, split by ribs and other spars. -/
  | divided (frame : Frame) : SparQuestion K (Shape K)
  /-- The oversized panels. -/
  | cutShape (frame : Frame) : SparQuestion K (Shape K)
  /-- The edges along a skin. -/
  | caps (side : Side) (frame : Frame) : SparQuestion K (Shape K)
  /-- The line through the positions. -/
  | midplaneLine (frame : Frame) : SparQuestion K (Wire K)
  /-- The point at a parameter of the line. -/
  | point (eta : K) : SparQuestion K (Vec K)
  /-- The direction at a parameter of the line. -/
  | direction (eta : K) : SparQuestion K (Vec K)
  /-- The length of the line. -/
  | length : SparQuestion K K
  /-- The point at the position with an index. -/
  | midplanePointAt (index : Nat) (frame : Frame) : SparQuestion K (Vec K)
  /-- The coordinates of the position with an index. -/
  | etaXsiAt (index : Nat) : SparQuestion K (K × K)

/-- What may be asked about ribs. -/
inductive RibsQuestion (K : Type) : Type → Type 1
  /-- The number of ribs. -/
  | count : RibsQuestion K Nat
  /-- The faces, trimmed to the wing. -/
  | geometry (frame : Frame) : RibsQuestion K (Shape K)
  /-- The face of one rib. -/
  | face (n : Nat) (frame : Frame) : RibsQuestion K (Face K)
  /-- The faces, split by spars. -/
  | divided (frame : Frame) : RibsQuestion K (Shape K)
  /-- The edges along a skin. -/
  | caps (side : Side) (frame : Frame) : RibsQuestion K (Shape K)
  /-- One rib before it is trimmed. -/
  | cut (n : Nat) : RibsQuestion K (RibCut K)
  /-- Where one rib starts and ends on the midplane. -/
  | midplanePoints (n : Nat) (frame : Frame) : RibsQuestion K (Vec K × Vec K)
  /-- The parameter of the first rib on the reference line. -/
  | etaStart : RibsQuestion K K
  /-- The parameter at which a set ends on the reference line. -/
  | etaStop : RibsQuestion K K
  /-- The step between neighbouring ribs. -/
  | etaOffset : RibsQuestion K K

/-- What may be asked about a structure, by the type of the answer. -/
inductive Question (K : Type) : Type → Type 1
  /-- About the spar with a name. -/
  | spar {α : Type} (uid : String) (q : SparQuestion K α) : Question K α
  /-- About the spar at an index. -/
  | sparAt {α : Type} (index : Nat) (q : SparQuestion K α) : Question K α
  /-- About the ribs with a name. -/
  | ribs {α : Type} (uid : String) (q : RibsQuestion K α) : Question K α
  /-- About the ribs at an index. -/
  | ribsAt {α : Type} (index : Nat) (q : RibsQuestion K α) : Question K α
  /-- The point at a position. -/
  | positionPoint (uid : String) (frame : Frame) : Question K (Vec K)
  /-- The direction of the height at a position. -/
  | positionUp (uid : String) : Question K (Vec K)
  /-- A line. -/
  | line (l : NamedLine) : Question K (Wire K)
  /-- The length of a line. -/
  | lineLength (l : NamedLine) : Question K K
  /-- The point at a parameter of a line. -/
  | linePoint (l : NamedLine) (eta : K) : Question K (Vec K)
  /-- The direction of a line where it passes closest to a point. -/
  | lineDirection (l : NamedLine) (p : Vec K) : Question K (Vec K)
  /-- The surfaces of the wing. -/
  | wingGeometry : Question K (WingGeometry K)
  /-- The face of a section element. -/
  | elementFace (uid : String) : Question K (Face K)

/-! ### Local questions -/

/-- The question is not about split faces, which depend on all parts of a structure. -/
def SparQuestion.IsLocal {α : Type} : SparQuestion K α → Prop
  | divided _ => False
  | _ => True

/-- The question is not about split faces, which depend on all parts of a structure. -/
def RibsQuestion.IsLocal {α : Type} : RibsQuestion K α → Prop
  | divided _ => False
  | _ => True

/-- The question asks by name, not by index, and not about split faces. -/
def Question.IsLocal {α : Type} : Question K α → Prop
  | spar _ q => q.IsLocal
  | ribs _ q => q.IsLocal
  | sparAt _ _ => False
  | ribsAt _ _ => False
  | _ => True

/-! ### Queries -/

section Queries

variable [Scalar K] {α : Type}

/-- The query that answers a question about a spar. -/
def SparQuestion.query : SparQuestion K α → SparSegment K → Query K α
  | geometry frame, s => Query.Spar.geometry s frame
  | divided frame, s => Query.Spar.divided s frame
  | cutShape frame, s => Query.Spar.cutShape s frame
  | caps side frame, s => Query.Spar.caps s side frame
  | midplaneLine frame, s => Query.Spar.midplaneLine s frame
  | point eta, s => Query.Spar.point s eta
  | direction eta, s => Query.Spar.direction s eta
  | length, s => Query.Spar.length s
  | midplanePointAt index frame, s => Query.Spar.midplanePointAt s index frame
  | etaXsiAt index, s => Query.Spar.etaXsiAt s index

/-- The query that answers a question about ribs. -/
def RibsQuestion.query : RibsQuestion K α → RibsDefinition K → Query K α
  | count, r => Query.ribCount r
  | geometry frame, r => Query.Ribs.geometry r frame
  | face n frame, r => Query.Ribs.face r n frame
  | divided frame, r => Query.Ribs.divided r frame
  | caps side frame, r => Query.Ribs.caps r side frame
  | cut n, r => Query.Ribs.cut r n
  | midplanePoints n frame, r => Query.Ribs.midplanePoints r n frame
  | etaStart, r => Query.Ribs.etaStart r
  | etaStop, r => Query.Ribs.etaStop r
  | etaOffset, r => Query.Ribs.etaOffset r

/-- The query that answers a question. -/
def Question.query : Question K α → Query K α
  | spar uid q => do q.query (← Query.spar uid)
  | sparAt index q => do q.query (← Query.sparAt index)
  | ribs uid q => do q.query (← Query.ribs uid)
  | ribsAt index q => do q.query (← Query.ribsAt index)
  | positionPoint uid frame => Query.positionPoint uid frame
  | positionUp uid => Query.positionUp uid
  | line l => Query.line l
  | lineLength l => Query.lineLength l
  | linePoint l eta => Query.linePoint l eta
  | lineDirection l p => Query.lineDirection l p
  | wingGeometry => Query.wingGeometry
  | elementFace uid => Query.elementFace uid

end Queries

/-- The same question about parts whose names stand for each other. -/
inductive Question.Match (N : Naming) : {α : Type} → Question K α → Question K α → Prop
  | spar {α : Type} {x x' : String} (h : N.spar x x') (q : SparQuestion K α) :
    Match N (.spar x q) (.spar x' q)
  | sparAt {α : Type} (index : Nat) (q : SparQuestion K α) :
    Match N (.sparAt index q) (.sparAt index q)
  | ribs {α : Type} {x x' : String} (h : N.ribs x x') (q : RibsQuestion K α) :
    Match N (.ribs x q) (.ribs x' q)
  | ribsAt {α : Type} (index : Nat) (q : RibsQuestion K α) :
    Match N (.ribsAt index q) (.ribsAt index q)
  | positionPoint {x x' : String} (h : N.position x x') (frame : Frame) :
    Match N (.positionPoint x frame) (.positionPoint x' frame)
  | positionUp {x x' : String} (h : N.position x x') : Match N (.positionUp x) (.positionUp x')
  | line {l l' : NamedLine} (h : NamedLine.Match N l l') : Match N (.line l) (.line l')
  | lineLength {l l' : NamedLine} (h : NamedLine.Match N l l') :
    Match N (.lineLength l) (.lineLength l')
  | linePoint {l l' : NamedLine} (h : NamedLine.Match N l l') (eta : K) :
    Match N (.linePoint l eta) (.linePoint l' eta)
  | lineDirection {l l' : NamedLine} (h : NamedLine.Match N l l') (p : Vec K) :
    Match N (.lineDirection l p) (.lineDirection l' p)
  | wingGeometry : Match N .wingGeometry .wingGeometry
  | elementFace (uid : String) : Match N (.elementFace uid) (.elementFace uid)

theorem NamedLine.match_same (l : NamedLine) : NamedLine.Match .same l l := by
  cases l with
  | leadingEdge => exact .leadingEdge
  | trailingEdge => exact .trailingEdge
  | spar uid => exact .spar rfl

/-- A question matches itself under the same names. -/
theorem Question.match_same {α : Type} (q : Question K α) : q.Match .same q := by
  cases q with
  | spar uid q => exact .spar rfl q
  | sparAt index q => exact .sparAt index q
  | ribs uid q => exact .ribs rfl q
  | ribsAt index q => exact .ribsAt index q
  | positionPoint uid frame => exact .positionPoint rfl frame
  | positionUp uid => exact .positionUp rfl
  | line l => exact .line l.match_same
  | lineLength l => exact .lineLength l.match_same
  | linePoint l eta => exact .linePoint l.match_same eta
  | lineDirection l p => exact .lineDirection l.match_same p
  | wingGeometry => exact .wingGeometry
  | elementFace uid => exact .elementFace uid

namespace Query

variable [Scalar K] {N : Naming} {d d' : Design K}

section Lookups

variable (h : d.LookupsMatch N d')
include h

/-! ### Positions -/

section Positions

variable {x x' : String} (hx : N.position x x')
include hx

theorem parallel_positionPoint (frame : Frame) :
    Parallel N d d' Eq (positionPoint x frame) (positionPoint x' frame) :=
  (parallel_position h hx).bind fun _ _ hp =>
    (parallel_midplanePoint h hp).bind_eq fun p => parallel_pointIn h frame p

theorem parallel_positionUp : Parallel N d d' Eq (positionUp x) (positionUp x') :=
  (parallel_position h hx).bind fun _ _ hp =>
    (parallel_midplanePoint h hp).bind_eq fun p => parallel_upVector h hp p

end Positions

/-! ### Spars -/

section Spars

variable {s s' : SparSegment K} (hs : d.SparsMatch N d' s s')
include hs

theorem parallel_sparCapsOn (side : Side) (frame : Frame) :
    Parallel N d d' Eq (Spar.caps s side frame) (Spar.caps s' side frame) := by
  have huid : N.Owner s.uid s'.uid := .spar hs.toMatch.uid
  unfold Spar.caps
  rw [hs.toMatch.hasCap]
  refine .ite ?_ (.throw (.config huid (.same _)))
  refine (parallel_sparCaps h hs).bind_eq fun caps => ?_
  refine (Parallel.require_eq (.config huid (.same _)) _).bind_eq fun shape => ?_
  exact parallel_shapeIn h frame shape

theorem parallel_positionAt (index : Nat) :
    Parallel N d d' (SparPosition.Match N) (Spar.positionAt s index)
      (Spar.positionAt s' index) := by
  unfold Spar.positionAt
  dsimp only
  rw [← hs.toMatch.positionUids.length_eq]
  refine (Parallel.ofExcept (.refl _)).bind_eq fun i => ?_
  refine Parallel.bind (.require (.same _) (rel_getElem? hs.toMatch.positionUids i)) ?_
  exact fun x x' hx => parallel_position h hx

theorem parallel_etaXsiAt (index : Nat) :
    Parallel N d d' Eq (Spar.etaXsiAt s index) (Spar.etaXsiAt s' index) := by
  refine (parallel_positionAt h hs index).bind fun p p' hp => ?_
  rw [hp.eta?, hp.xsi]
  cases p.eta? with
  | some eta => exact .pure rfl
  | none =>
    refine Parallel.bind_wing h ?_
    exact (parallel_midplanePoint h hp).bind_eq fun q => .pure rfl

theorem parallel_localSparQuestion {α : Type} {q : SparQuestion K α} (hq : q.IsLocal) :
    Parallel N d d' Eq (q.query s) (q.query s') := by
  cases q with
  | geometry frame => exact (parallel_sparGeometry h hs).bind_eq (parallel_shapeIn h frame)
  | divided => cases hq
  | cutShape frame => exact (parallel_panels h hs).bind_eq fun p => parallel_shapeIn h frame _
  | caps side frame => exact parallel_sparCapsOn h hs side frame
  | midplaneLine frame => exact (parallel_panels h hs).bind_eq fun p => parallel_wireIn h frame _
  | point | direction | length => exact (parallel_panels h hs).bind_eq fun p => .pure rfl
  | midplanePointAt index frame =>
    refine (parallel_positionAt h hs index).bind fun p p' hp => ?_
    exact (parallel_midplanePoint h hp).bind_eq fun q => parallel_pointIn h frame q
  | etaXsiAt index => exact parallel_etaXsiAt h hs index

end Spars

/-! ### Ribs -/

section Ribs

variable {r r' : RibsDefinition K} (hr : d.RibsMatch N d' r r')
include hr

theorem parallel_place (n : Nat) : Parallel N d d' Eq (Ribs.place r n) (Ribs.place r' n) :=
  (parallel_ribCount h hr).bind_eq fun _ => .ofExcept (.refl _)

theorem parallel_ribsCapsOn (side : Side) (frame : Frame) :
    Parallel N d d' Eq (Ribs.caps r side frame) (Ribs.caps r' side frame) := by
  have huid : N.Owner r.uid r'.uid := .ribs hr.toMatch.uid
  unfold Ribs.caps
  rw [hr.toMatch.hasCap]
  refine .ite ?_ (.throw (.config huid (.same _)))
  refine (parallel_ribsCaps h hr).bind_eq fun caps => ?_
  refine (Parallel.require_eq (.config huid (.same _)) _).bind_eq fun shape => ?_
  exact parallel_shapeIn h frame shape

theorem parallel_face (n : Nat) (frame : Frame) :
    Parallel N d d' Eq (Ribs.face r n frame) (Ribs.face r' n frame) := by
  refine (parallel_place h hr n).bind_eq fun i => ?_
  refine (parallel_ribsGeometry h hr).bind_eq fun shape => ?_
  exact (Parallel.require_eq (.same _) _).bind_eq (parallel_faceIn h frame)

theorem parallel_cut (n : Nat) : Parallel N d d' Eq (Ribs.cut r n) (Ribs.cut r' n) := by
  refine (parallel_place h hr n).bind_eq fun i => ?_
  exact (parallel_cuts h hr).bind_eq fun cs => .require_eq (.same _) _

theorem parallel_midplanePointsOf (n : Nat) (frame : Frame) :
    Parallel N d d' Eq (Ribs.midplanePoints r n frame) (Ribs.midplanePoints r' n frame) := by
  refine (parallel_cut h hr n).bind_eq fun c => ?_
  refine (parallel_pointIn h frame _).bind_eq fun start => ?_
  exact (parallel_pointIn h frame _).bind_eq fun stop => .pure rfl

theorem parallel_localRibsQuestion {α : Type} {q : RibsQuestion K α} (hq : q.IsLocal) :
    Parallel N d d' Eq (q.query r) (q.query r') := by
  cases q with
  | count => exact parallel_ribCount h hr
  | geometry frame => exact (parallel_ribsGeometry h hr).bind_eq (parallel_shapeIn h frame)
  | face n frame => exact parallel_face h hr n frame
  | divided => cases hq
  | caps side frame => exact parallel_ribsCapsOn h hr side frame
  | cut n => exact parallel_cut h hr n
  | midplanePoints n frame => exact parallel_midplanePointsOf h hr n frame
  | etaStart | etaStop | etaOffset => exact (parallel_spread h hr).bind_eq fun s => .pure rfl

end Ribs

/-- Local questions that match have matching outcomes on designs whose lookups match. -/
theorem parallel_localQuestion {α : Type} {q q' : Question K α} (hq : q.Match N q')
    (hlocal : q.IsLocal) : Parallel N d d' Eq q.query q'.query := by
  cases hq with
  | spar hx q =>
    exact (parallel_spar h hx).bind fun s s' hs => parallel_localSparQuestion h hs hlocal
  | ribs hx q =>
    exact (parallel_ribs h hx).bind fun r r' hr => parallel_localRibsQuestion h hr hlocal
  | sparAt | ribsAt => cases hlocal
  | positionPoint hx frame => exact parallel_positionPoint h hx frame
  | positionUp hx => exact parallel_positionUp h hx
  | line hl => exact parallel_line h hl
  | lineLength hl => exact parallel_lineLength h hl
  | linePoint hl eta => exact parallel_linePoint h hl eta
  | lineDirection hl p => exact parallel_lineDirection h hl p
  | wingGeometry => exact parallel_wingGeometry h
  | elementFace uid => exact parallel_elementFace h uid

end Lookups

/-! ### All questions -/

section Order

variable (h : d.Match N d')
include h

theorem parallel_sparAt (index : Nat) :
    Parallel N d d' (d.SparsMatch N d') (sparAt index) (sparAt index) := by
  refine Parallel.bind_read ?_
  have hsize : d'.spars.size = d.spars.size := h.spars.length_eq.symm
  dsimp only
  rw [hsize]
  refine (Parallel.ofExcept (.refl _)).bind_eq fun i => ?_
  exact .require (.same _) (rel_getElem? h.sparsMatch i)

theorem parallel_ribsAt (index : Nat) :
    Parallel N d d' (d.RibsMatch N d') (ribsAt index) (ribsAt index) := by
  refine Parallel.bind_read ?_
  have hsize : d'.ribs.size = d.ribs.size := h.ribs.length_eq.symm
  dsimp only
  rw [hsize]
  refine (Parallel.ofExcept (.refl _)).bind_eq fun i => ?_
  exact .require (.same _) (rel_getElem? h.ribsMatch i)

theorem parallel_sparQuestion {s s' : SparSegment K} (hs : d.SparsMatch N d' s s') {α : Type}
    (q : SparQuestion K α) : Parallel N d d' Eq (q.query s) (q.query s') := by
  by_cases hq : q.IsLocal
  · exact parallel_localSparQuestion h.lookupsMatch hs hq
  · cases q with
    | divided frame =>
      exact (parallel_sparDivided h hs).bind_eq (parallel_shapeIn h.lookupsMatch frame)
    | _ => exact absurd trivial hq

theorem parallel_ribsQuestion {r r' : RibsDefinition K} (hr : d.RibsMatch N d' r r') {α : Type}
    (q : RibsQuestion K α) : Parallel N d d' Eq (q.query r) (q.query r') := by
  by_cases hq : q.IsLocal
  · exact parallel_localRibsQuestion h.lookupsMatch hr hq
  · cases q with
    | divided frame =>
      exact (parallel_ribsDivided h hr).bind_eq (parallel_shapeIn h.lookupsMatch frame)
    | _ => exact absurd trivial hq

/-- Questions that match have matching outcomes on designs that match. -/
theorem parallel_question {α : Type} {q q' : Question K α} (hq : q.Match N q') :
    Parallel N d d' Eq q.query q'.query := by
  by_cases hlocal : q.IsLocal
  · exact parallel_localQuestion h.lookupsMatch hq hlocal
  · cases hq with
    | spar hx q =>
      exact (parallel_spar h.lookupsMatch hx).bind fun s s' hs => parallel_sparQuestion h hs q
    | ribs hx q =>
      exact (parallel_ribs h.lookupsMatch hx).bind fun r r' hr => parallel_ribsQuestion h hr q
    | sparAt i q => exact (parallel_sparAt h i).bind fun s s' hs => parallel_sparQuestion h hs q
    | ribsAt i q => exact (parallel_ribsAt h i).bind fun r r' hr => parallel_ribsQuestion h hr q
    | _ => exact absurd trivial hlocal

end Order

end Query

end WingBox
