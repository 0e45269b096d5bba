import WingBox.Proofs.Structure.Plan

/-!
# What queries are refused for, and which caches they ask

Most refusals have a cause in the definitions or in the geometry (`Error.Caused`).  Two have not:
an index beyond a list, and caps that were built without the side that is asked for.  No query that
computes geometry ends in one of these two, whatever the design is and whatever the store holds; so
they can only come from the views that look into what was computed.

Each of these queries has a plan with such refusals only, `Query.Planned Error.Caused`, in which the
caches it asks have a rank below a bound.  There is one lemma for each query.
-/

namespace WingBox

variable {K : Type}

/-- The refusal is neither about an index nor about caps that were built without a side. -/
def Error.Caused : Error K → Prop
  | .index _ _ _ => False
  | .config _ .unbuiltCap => False
  | _ => True

/-! ### The wing -/

namespace Wing

open Error

variable [Scalar K] (w : Wing K)

omit [Scalar K] in
theorem section?_caused (uid : String) : ErrorIs Caused (w.section? uid) := .require trivial _

theorem elementPoint_caused (uid : String) (xsi : K) : ErrorIs Caused (w.elementPoint uid xsi) :=
  (w.section?_caused uid).bind fun _ => trivial

theorem etaDirection_caused (eta : K) : ErrorIs Caused (w.etaDirection eta) := .require trivial _

theorem midplaneNormal_caused (eta : K) : ErrorIs Caused (w.midplaneNormal eta) :=
  (ErrorIs.require trivial _).bind fun _ => (w.etaDirection_caused eta).bind fun _ =>
    .require trivial _

theorem chordwiseLine_caused (xsi : K) : ErrorIs Caused (w.chordwiseLine xsi) := .require trivial _

theorem midplaneLine_caused (a b : Vec K) : ErrorIs Caused (w.midplaneLine a b) :=
  .require trivial _

theorem sectionFace_caused (s : WingSection K) : ErrorIs Caused (w.sectionFace s) :=
  (ErrorIs.require trivial _).bind fun _ => .ofShapeFault (fun _ => trivial) _

theorem skinOf_caused (edges : Loft.EdgeRange) : ErrorIs Caused (w.skinOf edges) :=
  (ErrorIs.ofShapeFault (fun _ => trivial) _).bind fun _ => trivial

theorem geometry_caused : ErrorIs Caused w.geometry :=
  (w.skinOf_caused _).bind fun _ => (w.skinOf_caused _).bind fun _ =>
    (ErrorIs.mapM w.sectionFace_caused _).bind fun _ => (w.sectionFace_caused _).bind fun _ =>
      (w.sectionFace_caused _).bind fun _ => trivial

end Wing

namespace Query

open Error

variable [Scalar K] {k : ℕ}

omit [Scalar K] in
theorem wing_planned : Planned Caused k (wing : Query K _) := Planned.read.bind fun _ => .pure _

omit [Scalar K] in
theorem position_planned (uid : String) : Planned Caused k (position uid : Query K _) :=
  Planned.read.bind fun _ => .require trivial _

omit [Scalar K] in
theorem spar_planned (uid : String) : Planned Caused k (spar uid : Query K _) :=
  Planned.read.bind fun _ => .require trivial _

omit [Scalar K] in
theorem ribs_planned (uid : String) : Planned Caused k (ribs uid : Query K _) :=
  Planned.read.bind fun _ => .require trivial _

theorem wingGeometry_planned : Planned Caused (k + 1) (wingGeometry : Query K _) :=
  wing_planned.bind fun w => .request .wing (.ofExcept w.geometry_caused)

theorem loft_planned : Planned Caused (k + 1) (loft : Query K _) :=
  wingGeometry_planned.bind fun _ => .pure _

theorem size_planned : Planned Caused (k + 1) (size : Query K _) :=
  loft_planned.bind fun _ => .pure _

theorem elementFace_planned (uid : String) : Planned Caused (k + 1) (elementFace uid : Query K _) :=
  wing_planned.bind fun w => (Planned.ofExcept (w.section?_caused uid)).bind fun _ =>
    wingGeometry_planned.bind fun _ => .require trivial _

theorem pointIn_planned (frame : Frame) (p : Vec K) : Planned Caused k (pointIn frame p) := by
  cases frame with
  | wing => exact .pure _
  | global => exact wing_planned.bind fun _ => .pure _

theorem faceIn_planned (frame : Frame) (f : Face K) : Planned Caused k (faceIn frame f) := by
  cases frame with
  | wing => exact .pure _
  | global => exact wing_planned.bind fun _ => .pure _

theorem shapeIn_planned (frame : Frame) (s : Shape K) : Planned Caused k (shapeIn frame s) := by
  cases frame with
  | wing => exact .pure _
  | global => exact wing_planned.bind fun _ => .pure _

theorem wireIn_planned (frame : Frame) (w : Wire K) : Planned Caused k (wireIn frame w) := by
  cases frame with
  | wing => exact .pure _
  | global => exact wing_planned.bind fun _ => .pure _

theorem trim_caused (uid : String) (cut : Face K) (shell : Shape K) :
    ErrorIs Caused (trim uid cut shell) := by
  obtain ⟨r, -, heq⟩ := exists_trimmed uid cut shell
  exact heq ▸ .ofShapeFault (fun _ => trivial) r

theorem skinEdges_planned (cutter : Shape K) (hasCap : Side → Bool) :
    Planned Caused (k + 1) (skinEdges cutter hasCap) :=
  (Planned.ite (wingGeometry_planned.bind fun _ => .pure _) (.pure _)).bind fun _ =>
    (Planned.ite (wingGeometry_planned.bind fun _ => .pure _) (.pure _)).bind fun _ => .pure _

/-! ### Parts at an index -/

section Index

variable {P : Error K → Prop} (h : ∀ what index count, P (.index what index count))
include h

omit [Scalar K] in
theorem checkIndex_errorIs (what : Counted) (index count : Nat) :
    ErrorIs P (checkIndex what index count) := by
  unfold checkIndex
  split
  · exact h what index count
  · trivial

omit [Scalar K] in
theorem sparAt_planned (index : Nat) : Planned P k (sparAt index) :=
  Planned.read.bind fun _ => (Planned.ofExcept (checkIndex_errorIs h _ _ _)).bind fun _ =>
    .require (h _ _ _) _

omit [Scalar K] in
theorem ribsAt_planned (index : Nat) : Planned P k (ribsAt index) :=
  Planned.read.bind fun _ => (Planned.ofExcept (checkIndex_errorIs h _ _ _)).bind fun _ =>
    .require (h _ _ _) _

end Index

/-! ### Spars -/

theorem midplanePoint_planned (p : SparPosition K) : Planned Caused k (midplanePoint p) := by
  refine wing_planned.bind fun w => ?_
  cases p.location with
  | eta eta => exact .pure _
  | elementUid uid => exact .ofExcept (w.elementPoint_caused uid _)

theorem heightDirection_caused (uid : String) (face : Face K) (p : Vec K) :
    ErrorIs Caused (heightDirection uid face p) := by
  unfold heightDirection
  dsimp only
  split
  · split <;> trivial
  · trivial

theorem upVector_planned (position : SparPosition K) (p : Vec K) :
    Planned Caused (k + 1) (upVector position p) := by
  unfold upVector
  cases position.elementUid? with
  | none => exact .pure _
  | some element =>
    exact (elementFace_planned element).bind fun face => .ofExcept (heightDirection_caused _ face p)

theorem panelsFrom_caused (spar : String) (size : K) (stations : List (Station K)) (i : Nat) :
    ErrorIs Caused (panelsFrom spar size i stations) := by
  fun_induction panelsFrom spar size i stations with
  | case1 i a b rest ih => exact (ErrorIs.require trivial _).bind fun _ => ih.bind fun _ => trivial
  | case2 => trivial

theorem linePoints_caused (w : Wing K) (ps : List (Vec K)) : ErrorIs Caused (linePoints w ps) := by
  fun_induction linePoints w ps with
  | case1 p q rest ih => exact (w.midplaneLine_caused p q).bind fun _ => ih.bind fun _ => trivial
  | case2 => trivial

theorem buildPanels_planned (s : SparSegment K) : Planned Caused (k + 1) (buildPanels s) := by
  refine wing_planned.bind fun w => (Planned.mapM position_planned _).bind fun positions => ?_
  dsimp only
  refine .ite (.throw_bind trivial) ?_
  refine (Planned.mapM midplanePoint_planned _).bind fun points => ?_
  refine (Planned.mapM (fun ⟨p, point⟩ => upVector_planned p point) _).bind fun ups => ?_
  refine size_planned.bind fun r => ?_
  refine (Planned.ofExcept (panelsFrom_caused _ r _ 1)).bind fun faces => ?_
  refine (Planned.ofExcept (linePoints_caused w points)).bind fun line => ?_
  exact (Planned.require trivial _).bind fun _ => .pure _

theorem panels_planned (s : SparSegment K) : Planned Caused (k + 2) (panels s) :=
  .request (.spar .panels s.uid) (buildPanels_planned s)

theorem buildSparGeometry_planned (s : SparSegment K) :
    Planned Caused (k + 2) (buildSparGeometry s) := by
  refine (panels_planned s).bind fun p => loft_planned.bind fun shell => ?_
  exact (Planned.ofExcept (.mapM (fun f => trim_caused s.uid f shell) _)).bind fun _ => .pure _

theorem sparGeometry_planned (s : SparSegment K) : Planned Caused (k + 3) (sparGeometry s) :=
  .request (.spar .geometry s.uid) (buildSparGeometry_planned s)

theorem buildSparCaps_planned (s : SparSegment K) : Planned Caused (k + 2) (buildSparCaps s) :=
  (panels_planned s).bind fun _ => skinEdges_planned _ _

theorem sparCaps_planned (s : SparSegment K) : Planned Caused (k + 3) (sparCaps s) :=
  .request (.spar .caps s.uid) (buildSparCaps_planned s)

theorem line_planned (l : NamedLine) : Planned Caused (k + 2) (line l : Query K _) := by
  cases l with
  | leadingEdge | trailingEdge =>
    exact wing_planned.bind fun w => .ofExcept (w.chordwiseLine_caused _)
  | spar uid => exact (spar_planned uid).bind fun s => (panels_planned s).bind fun _ => .pure _

theorem lineLength_planned (l : NamedLine) : Planned Caused (k + 2) (lineLength l : Query K _) :=
  (line_planned l).bind fun _ => .pure _

theorem linePoint_planned (l : NamedLine) (eta : K) : Planned Caused (k + 2) (linePoint l eta) :=
  (line_planned l).bind fun _ => .pure _

theorem lineDirection_planned (l : NamedLine) (p : Vec K) :
    Planned Caused (k + 2) (lineDirection l p) :=
  (line_planned l).bind fun _ => .pure _

/-! ### The distribution of ribs -/

theorem declaredDirection_planned (uid : String) (set : RibSet K) (eta : K) (p up : Vec K) :
    Planned Caused (k + 2) (declaredDirection uid set eta p up) := by
  unfold declaredDirection
  dsimp only
  split
  · exact wing_planned.bind fun w => (Planned.ofExcept (w.etaDirection_caused _)).bind fun _ =>
      .pure _
  · exact .pure _
  · exact .pure _
  · exact .ite ((line_planned _).bind fun _ => .pure _) (.throw trivial)
  · exact (lineDirection_planned _ p).bind fun _ => .pure _

theorem ribDirection_planned (uid : String) (set : RibSet K) (eta : K) (p up : Vec K) :
    Planned Caused (k + 2) (ribDirection uid set eta p up) :=
  (declaredDirection_planned uid set eta p up).bind fun _ => .require trivial _

omit [Scalar K] in
theorem requireOnSpar_planned (uid position : String) (reference : NamedLine) :
    Planned Caused k (requireOnSpar uid position reference : Query K _) := by
  unfold requireOnSpar
  cases reference.sparUid? with
  | none => exact .throw trivial
  | some name => exact (spar_planned name).bind fun _ => .ite (.pure _) (.throw trivial)

theorem boundaryParameter_planned (uid : String) (set : RibSet K) (boundary : SetBoundary K) :
    Planned Caused (k + 2) (boundaryParameter uid set boundary) := by
  cases boundary with
  | eta eta => exact .pure _
  | elementUid element =>
    exact (elementFace_planned element).bind fun _ => (line_planned _).bind fun _ =>
      (Planned.require trivial _).bind fun _ => .pure _
  | sparPositionUid name =>
    refine (requireOnSpar_planned uid name _).bind fun _ => (position_planned name).bind fun p => ?_
    refine (midplanePoint_planned p).bind fun _ => (line_planned _).bind fun _ => ?_
    refine (ribDirection_planned uid set _ _ _).bind fun _ => ?_
    exact (Planned.require trivial _).bind fun _ => .require trivial _

omit [Scalar K] in
theorem set_caused (r : RibsDefinition K) : ErrorIs Caused r.set := by
  unfold RibsDefinition.set
  split <;> trivial

theorem buildSpread_planned (r : RibsDefinition K) : Planned Caused (k + 2) (buildSpread r) := by
  refine (Planned.ofExcept (set_caused r)).bind fun set => ?_
  refine (boundaryParameter_planned _ set _).bind fun etaStart => ?_
  refine (boundaryParameter_planned _ set _).bind fun etaStop => ?_
  dsimp only
  cases set.count with
  | numberOfRibs n => exact .ite (.pure _) (.pure _)
  | spacing distance => exact (lineLength_planned _).bind fun _ => .pure _

theorem spread_planned (r : RibsDefinition K) : Planned Caused (k + 3) (spread r) :=
  .request (.ribs .spread r.uid) (buildSpread_planned r)

/-! ### Cutting ribs -/

theorem nearestPiece_planned (uid name : String) (face : Face K) (target : Vec K) :
    Planned Caused (k + 2) (nearestPiece uid name face target) := by
  refine (spar_planned name).bind fun s => (panels_planned s).bind fun p => ?_
  dsimp only
  split
  · exact .pure _
  · exact .throw trivial

theorem trimSection_planned (uid : String) (positioning : RibPlacement K) (face : Face K)
    {chordPoint : K → Query K (Vec K)} (h : ∀ xsi, Planned Caused (k + 2) (chordPoint xsi)) :
    Planned Caused (k + 2) (trimSection uid positioning face chordPoint) := by
  have hpiece (name : String) (face : Face K) (xsi : K) :
      Planned Caused (k + 2) (do nearestPiece uid name face (← chordPoint xsi)) :=
    (h xsi).bind fun _ => nearestPiece_planned uid name face _
  unfold trimSection
  cases positioning.ribEnd.sparUid? with
  | none =>
    cases positioning.ribStart.sparUid? with
    | none => exact .pure _
    | some name =>
      exact (h 1).bind fun _ => (nearestPiece_planned uid name face _).bind fun _ => .pure _
  | some last =>
    cases positioning.ribStart.sparUid? with
    | none => exact hpiece last face 0
    | some name =>
      refine (h 1).bind fun _ => (nearestPiece_planned uid name face _).bind fun face => ?_
      exact hpiece last face 0

theorem sparBound_planned (uid name : String) (face : Face K) (r : K) (up : Vec K) :
    Planned Caused (k + 3) (sparBound uid name face r up) := by
  refine (spar_planned name).bind fun s => (sparGeometry_planned s).bind fun geometry => ?_
  split
  · exact .pure _
  · exact .throw trivial

theorem cutFace_planned (uid : String) (start dir startUp stopUp : Vec K)
    (ribStart ribEnd : NamedLine) :
    Planned Caused (k + 3) (cutFace uid start dir startUp stopUp ribStart ribEnd) := by
  have hruled (up : Vec K) (front back : Wire K) :
      Planned Caused (k + 3)
        (ofExcept (K := K) (ofShapeFault uid (Face.ruledAlong up front back))) :=
    .ofExcept (.ofShapeFault (fun _ => trivial) _)
  refine size_planned.bind fun r => (Planned.require trivial _).bind fun front => ?_
  refine (Planned.require trivial _).bind fun back => (hruled _ _ _).bind fun face => ?_
  cases ribEnd.sparUid? with
  | none =>
    cases ribStart.sparUid? with
    | none => exact .pure _
    | some name =>
      refine (sparBound_planned uid name face r _).bind fun front => ?_
      exact (hruled _ _ _).bind fun _ => .pure _
  | some last =>
    have hback (front : Wire K) (face : Face K) :=
      (sparBound_planned uid last face r stopUp).bind fun back => hruled stopUp back front
    cases ribStart.sparUid? with
    | none => exact hback front face
    | some name =>
      refine (sparBound_planned uid name face r _).bind fun front => ?_
      exact (hruled _ _ _).bind (hback front)

theorem pointOnLine_planned (uid : String) (face : Face K) (l : NamedLine) :
    Planned Caused (k + 2) (pointOnLine uid face l) :=
  (line_planned l).bind fun _ => .require trivial _

theorem cutBetweenLines_planned (r : RibsDefinition K) (face : Face K) (isTargetFace : Bool) :
    Planned Caused (k + 2) (cutBetweenLines r face isTargetFace) :=
  (pointOnLine_planned _ face _).bind fun _ => (pointOnLine_planned _ face _).bind fun _ => .pure _

theorem endsInSection_planned (name : String) (eta : K) :
    Planned Caused k (endsInSection name eta) := by
  refine (spar_planned name).bind fun s => ?_
  dsimp only
  split
  · exact (position_planned _).bind fun _ => .pure _
  · exact .pure _

theorem setUp_planned (set : RibSet K) (eta : K) (p : Vec K) (atPosition : Bool) :
    Planned Caused k (setUp set eta p atPosition) :=
  .ite (.pure _) (wing_planned.bind fun w => .ofExcept (w.midplaneNormal_caused _))

theorem elementCut_planned (r : RibsDefinition K) (element : String) :
    Planned Caused (k + 2) (elementCut r element) := by
  refine (elementFace_planned element).bind fun face => wing_planned.bind fun w => ?_
  refine (trimSection_planned _ _ face fun xsi => ?_).bind fun _ => cutBetweenLines_planned r _ true
  exact .ofExcept (w.elementPoint_caused element xsi)

theorem borderCut_planned (r : RibsDefinition K) (eta : K) :
    Planned Caused (k + 2) (borderCut r eta) := by
  refine wing_planned.bind fun w => wingGeometry_planned.bind fun g => ?_
  exact (trimSection_planned _ _ _ fun xsi => .pure _).bind fun _ =>
    cutBetweenLines_planned r _ true

theorem planeCut_planned (r : RibsDefinition K) (set : RibSet K) (eta : K) (atPosition : Bool) :
    Planned Caused (k + 3) (planeCut r set eta atPosition) := by
  refine (linePoint_planned _ eta).bind fun p => ?_
  refine (setUp_planned set eta p atPosition).bind fun up => ?_
  refine (ribDirection_planned _ set eta p up).bind fun dir => ?_
  exact (cutFace_planned _ p dir _ _ _ _).bind fun _ => cutBetweenLines_planned r _ false

theorem setCut_planned (r : RibsDefinition K) (set : RibSet K) (eta : K) (element : Option String)
    (atPosition : Bool) : Planned Caused (k + 3) (setCut r set eta element atPosition) := by
  cases element with
  | some element => exact elementCut_planned r element
  | none =>
    have hcut (inSection : Bool) :
        Planned Caused (k + 3)
          (if inSection then borderCut r eta else planeCut r set eta atPosition) :=
      .ite (borderCut_planned r eta) (planeCut_planned r set eta atPosition)
    refine .ite ?_ (hcut false)
    cases set.ribReference.sparUid? with
    | none => exact hcut true
    | some name => exact (endsInSection_planned name eta).bind hcut

theorem setCutsFrom_planned (r : RibsDefinition K) (set : RibSet K) (s : RibSpread K)
    (count i : Nat) : Planned Caused (k + 3) (setCutsFrom r set s count i) := by
  induction count generalizing i with
  | zero => exact .pure _
  | succ n ih => exact (setCut_planned r set _ _ _).bind fun _ => (ih (i + 1)).bind fun _ => .pure _

theorem endPoint_planned (p : RibEnd K) : Planned Caused (k + 2) (endPoint p) := by
  cases p with
  | etaXsi eta xsi referenceUid =>
    refine wing_planned.bind fun w => ?_
    split
    · exact .throw trivial
    · exact .pure _
  | curve reference eta => exact linePoint_planned reference eta
  | sparPosition uid => exact (position_planned uid).bind fun p => midplanePoint_planned p

theorem sparHeight_planned (name : String) (p : Vec K) :
    Planned Caused (k + 3) (sparHeight name p) := by
  refine (spar_planned name).bind fun s => (sparGeometry_planned s).bind fun geometry => ?_
  refine wing_planned.bind fun w => (Planned.ofExcept (w.midplaneNormal_caused _)).bind fun up => ?_
  split
  · exact .pure _
  · refine size_planned.bind fun r => ?_
    dsimp only
    split <;> exact .pure _

theorem explicitUp_planned (stop : RibEnd K) (trimmedAt : NamedLine) (p : Vec K) :
    Planned Caused (k + 3) (explicitUp stop trimmedAt p) := by
  unfold explicitUp
  split
  · exact (position_planned _).bind fun position => upVector_planned position p
  · split
    · exact sparHeight_planned _ p
    · exact .pure _

theorem explicitUps_planned (e : ExplicitRib K) (start stop : Vec K) :
    Planned Caused (k + 3) (explicitUps e start stop) := by
  refine (explicitUp_planned _ _ start).bind fun startUp => ?_
  refine (explicitUp_planned _ _ stop).bind fun stopUp => ?_
  split
  · exact wing_planned.bind fun w => (Planned.ofExcept (w.midplaneNormal_caused _)).bind fun _ =>
      .pure _
  all_goals exact .pure _

theorem explicitPlaneCut_planned (r : RibsDefinition K) (e : ExplicitRib K) (start stop : Vec K) :
    Planned Caused (k + 3) (explicitPlaneCut r e start stop) := by
  refine (explicitUps_planned e start stop).bind fun ups => ?_
  refine (Planned.require trivial _).bind fun _ => (Planned.require trivial _).bind fun _ => ?_
  refine (Planned.require trivial _).bind fun dir => ?_
  exact (cutFace_planned _ start dir _ _ _ _).bind fun _ => .pure _

theorem explicitCut_planned (r : RibsDefinition K) (e : ExplicitRib K) :
    Planned Caused (k + 3) (explicitCut r e) := by
  refine (endPoint_planned e.start).bind fun start => (endPoint_planned e.stop).bind fun stop => ?_
  refine wing_planned.bind fun w => ?_
  split
  · next a b _ _ =>
    refine .ite ?_ (explicitPlaneCut_planned r e start stop)
    refine (elementFace_planned a).bind fun face => ?_
    refine (trimSection_planned _ _ face fun xsi => ?_).bind fun _ => .pure _
    exact .ofExcept (w.elementPoint_caused a xsi)
  · exact explicitPlaneCut_planned r e start stop

theorem buildCuts_planned (r : RibsDefinition K) : Planned Caused (k + 3) (buildCuts r) := by
  unfold buildCuts
  split
  · exact (spread_planned r).bind fun s => setCutsFrom_planned r _ s _ 0
  · exact (explicitCut_planned r _).bind fun _ => .pure _

theorem cuts_planned (r : RibsDefinition K) : Planned Caused (k + 4) (cuts r) :=
  .request (.ribs .cuts r.uid) (buildCuts_planned r)

/-! ### Ribs -/

theorem ribFace_caused (uid : String) (shell : Shape K) (cut : RibCut K) :
    ErrorIs Caused (ribFace uid shell cut) := by
  unfold ribFace
  split
  · trivial
  · exact trim_caused uid cut.face shell

theorem buildRibsGeometry_planned (r : RibsDefinition K) :
    Planned Caused (k + 4) (buildRibsGeometry r) := by
  refine (cuts_planned r).bind fun cs => loft_planned.bind fun shell => ?_
  exact (Planned.ofExcept (.mapM (ribFace_caused r.uid shell) _)).bind fun _ => .pure _

theorem ribsGeometry_planned (r : RibsDefinition K) : Planned Caused (k + 5) (ribsGeometry r) :=
  .request (.ribs .geometry r.uid) (buildRibsGeometry_planned r)

theorem buildRibsCaps_planned (r : RibsDefinition K) : Planned Caused (k + 4) (buildRibsCaps r) :=
  (cuts_planned r).bind fun _ => skinEdges_planned _ _

theorem ribsCaps_planned (r : RibsDefinition K) : Planned Caused (k + 5) (ribsCaps r) :=
  .request (.ribs .caps r.uid) (buildRibsCaps_planned r)

theorem ribCount_planned (r : RibsDefinition K) : Planned Caused (k + 3) (ribCount r) := by
  unfold ribCount
  cases r.positioning with
  | set set => exact (spread_planned r).bind fun _ => .pure _
  | explicit e => exact .pure _

/-! ### Splitting -/

theorem sparTool_planned (s : Shape K) (spars : List (SparSegment K)) :
    Planned Caused (k + 2) (sparTool s spars) :=
  (Planned.mapM (fun spar => (panels_planned spar).bind fun _ => .pure _) spars).bind fun _ =>
    .pure _

theorem ribTool_planned (ribs : List (RibsDefinition K)) :
    Planned Caused (k + 4) (ribTool ribs) :=
  (Planned.mapM (fun r => (cuts_planned r).bind fun _ => .pure _) ribs).bind fun _ => .pure _

theorem buildSparDivided_planned (s : SparSegment K) :
    Planned Caused (k + 4) (buildSparDivided s) :=
  (sparGeometry_planned s).bind fun _ => Planned.read.bind fun _ => (ribTool_planned _).bind
    fun _ => Planned.read.bind fun _ => (sparTool_planned _ _).bind fun _ => .pure _

theorem sparDivided_planned (s : SparSegment K) : Planned Caused (k + 5) (sparDivided s) :=
  .request (.spar .divided s.uid) (buildSparDivided_planned s)

theorem buildRibsDivided_planned (r : RibsDefinition K) :
    Planned Caused (k + 5) (buildRibsDivided r) :=
  (ribsGeometry_planned r).bind fun _ => Planned.read.bind fun _ => (sparTool_planned _ _).bind
    fun _ => .pure _

theorem ribsDivided_planned (r : RibsDefinition K) : Planned Caused (k + 6) (ribsDivided r) :=
  .request (.ribs .divided r.uid) (buildRibsDivided_planned r)

end Query

end WingBox
