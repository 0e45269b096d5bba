import WingBox.Proofs.Exact.Coordinates
import WingBox.Proofs.Exact.Quad
import WingBox.Proofs.Structure.RibPlace

/-!
# Reference points of ribs

A rib of a set is cut from one of three kinds of faces: that of a section element which bounds the
set, the face that closes the wing at an end, or an oversized face through its reference point.

* `Query.ensures_elementCut`, `Query.ensures_borderCut`, `Query.ensures_planeCut`: which face a rib
  between edges gets;
* `Query.ensures_setRib`: the rib is at its reference point, or closes the wing;
* `Structure.ribs_stand`: in the latter case it is at its reference point as well if the reference
  line ends there.  A spar that ends in the plane of any section is taken for one that ends at the
  end of the wing, so its rib may stand elsewhere.
-/

namespace WingBox

open Scalar

/-! ### Ends of lines -/

theorem WingEnd.exists_ofList? {α β : Type} {R : α → β → Prop} {as : List α} {bs : List β}
    (h : List.Forall₂ R as bs) (e : WingEnd) {a : α} (ha : e.ofList? as = some a) :
    ∃ b, e.ofList? bs = some b ∧ R a b := by
  have hhead {as : List α} {bs : List β} (h : List.Forall₂ R as bs) (ha : as.head? = some a) :
      ∃ b, bs.head? = some b ∧ R a b := by
    cases h with
    | nil => cases ha
    | cons hab _ => exact ⟨_, rfl, Option.some.inj ha ▸ hab⟩
  cases e with
  | inner => exact hhead h ha
  | outer =>
    unfold ofList? at ha ⊢
    rw [List.getLast?_eq_head?_reverse] at ha ⊢
    exact hhead (List.forall₂_reverse_iff.2 h) ha

namespace Design

/-- The spar position at an end of a spar. -/
def HasEnd (d : Design ℝ) (e : WingEnd) (uid : String) (p : SparPosition ℝ) : Prop :=
  ∃ s x, d.spars.get? uid = some s ∧ e.ofList? s.positionUids = some x ∧
    d.positions.get? x = some p

/-- The line ends on the chord at an end of the wing. -/
inductive EndsAt (d : Design ℝ) (e : WingEnd) : NamedLine → Prop
  | leadingEdge : EndsAt d e .leadingEdge
  | trailingEdge : EndsAt d e .trailingEdge
  | spar {uid : String} {p : SparPosition ℝ} (hp : d.HasEnd e uid p)
    (hplace : p.location = .eta e.eta ∨ p.location = .elementUid (e.sectionOf d.wing).elementUid)
    (hnonneg : 0 ≤ p.xsi) (hle : p.xsi ≤ 1) : EndsAt d e (.spar uid)

/-- The line ends in the plane of some section. -/
inductive EndsInSection (d : Design ℝ) (e : WingEnd) : NamedLine → Prop
  | leadingEdge : EndsInSection d e .leadingEdge
  | trailingEdge : EndsInSection d e .trailingEdge
  | spar {uid : String} {p : SparPosition ℝ} (hp : d.HasEnd e uid p) (h : p.isInSection = true) :
    EndsInSection d e (.spar uid)

end Design

namespace Query

section Ends

variable {d : Design ℝ} {e : WingEnd} {l : NamedLine} {w : Wire ℝ}

theorem yields_midplanePoint (hwing : d.wing.Checked) {p : SparPosition ℝ}
    (hp : p.location = .eta e.eta ∨ p.location = .elementUid (e.sectionOf d.wing).elementUid) :
    Yields d (midplanePoint p) (.ok ((e.sectionOf d.wing).chordPoint p.xsi)) := by
  refine Yields.bind_wing ?_
  obtain hp | hp := hp
  · rw [hp]
    dsimp only
    rw [WingEnd.point_eta e hwing]
    exact .pure _
  · rw [hp]
    dsimp only
    rw [Wing.elementPoint_of_mem hwing.nodup_names (WingEnd.sectionOf_mem e)]
    exact .pure _

/-- A line that ends at an end of the wing ends on the chord there. -/
theorem LineDrawn.exists_chordPoint (hwing : d.wing.Checked) (hl : LineDrawn d l w)
    (he : d.EndsAt e l) :
    ∃ xsi, 0 ≤ xsi ∧ xsi ≤ 1 ∧ e.pointOf w = (e.sectionOf d.wing).chordPoint xsi := by
  cases hl with
  | leadingEdge h =>
    exact ⟨0, le_rfl, zero_le_one, WingEnd.pointOf_chordwiseLine e hwing h⟩
  | trailingEdge h =>
    exact ⟨1, zero_le_one, le_rfl, WingEnd.pointOf_chordwiseLine e hwing h⟩
  | @spar s w positions points hs h =>
    cases he with
    | @spar _ p hp hplace hnonneg hle =>
      refine ⟨p.xsi, hnonneg, hle, ?_⟩
      obtain ⟨s', x, hs', hx, hp⟩ := hp
      obtain rfl := Option.some.inj (hs'.symm.trans hs)
      obtain ⟨p', hp', hxp⟩ := WingEnd.exists_ofList? h.found e hx
      obtain rfl := Option.some.inj (hp.symm.trans hxp)
      obtain ⟨v, hv, hpv⟩ := WingEnd.exists_ofList? h.placed e hp'
      have hpoint : e.pointOf w = v :=
        WingEnd.pointOf_eq e (LineDrawn.spar hs h).spaced (h.points_eq ▸ hv)
      rw [hpoint]
      exact Except.ok.inj (hpv.unique (yields_midplanePoint hwing hplace))

end Ends

end Query

/-! ### Faces of ribs -/

namespace Query

section Faces

variable {d : Design ℝ} (h : d.LookupsMatch .same d) {r : RibsDefinition ℝ}
  (hr : d.RibsMatch .same d r r)
include h hr

theorem ensures_cutBetweenLines (face : Face ℝ) (isTargetFace : Bool) :
    Ensures d (cutBetweenLines r face isTargetFace) (·.face = face) := by
  have hx : Naming.same.Owner r.uid r.uid := .ribs hr.toMatch.uid
  have hp := hr.toMatch.positioning
  refine (Ensures.of_parallel (parallel_pointOnLine h hx face hp.ribStart)).bind fun start _ => ?_
  refine (Ensures.of_parallel (parallel_pointOnLine h hx face hp.ribEnd)).bind fun stop _ => ?_
  exact .pure rfl

variable (hstart : r.positioning.ribStart.sparUid? = none)
  (hend : r.positioning.ribEnd.sparUid? = none)
include hstart hend

/-- The rib in the plane of a section element has the face of this element. -/
theorem ensures_elementCut (element : String) : Ensures d (elementCut r element) fun cut =>
    Yields d (elementFace element) (.ok cut.face) := by
  unfold elementCut
  refine (Ensures.of_parallel (parallel_elementFace h element)).bind fun face hface => .bind_wing ?_
  rw [trimSection_eq hstart hend, pure_bind]
  exact (ensures_cutBetweenLines h hr face true).mono fun cut hcut => hcut ▸ hface

/-- The rib at an end of the wing has the face that closes it there. -/
theorem ensures_borderCut (eta : ℝ) : Ensures d (borderCut r eta) fun cut =>
    ∃ g, Yields d wingGeometry (.ok g) ∧ cut.face = (WingEnd.ofEta eta).faceOf g := by
  unfold borderCut
  refine .bind_wing ?_
  refine (Ensures.of_parallel (parallel_wingGeometry h)).bind fun g hg => ?_
  have hface : ∃ border, (if eta < tolerance then (g.innerFace, (0 : ℝ)) else (g.outerFace, 1)) =
      ((WingEnd.ofEta eta).faceOf g, border) := by
    unfold WingEnd.ofEta
    split
    · exact ⟨0, rfl⟩
    · exact ⟨1, rfl⟩
  obtain ⟨border, hface⟩ := hface
  rw [hface]
  dsimp only
  rw [trimSection_eq hstart hend, pure_bind]
  exact (ensures_cutBetweenLines h hr _ true).mono fun cut hcut => ⟨g, hg, hcut⟩

omit hr hstart hend in
theorem ensures_size : Ensures d size (0 ≤ ·) := by
  refine (Ensures.of_parallel (parallel_loft h)).bind fun s _ => .pure ?_
  unfold Shape.diagonal
  split
  · exact Vec.norm_nonneg _
  · exact le_rfl

omit hr hstart hend in
/-- An oversized face goes through the point for which it is made. -/
theorem ensures_cutFace (uid : String) (p dir up : Vec ℝ) {ribStart ribEnd : NamedLine}
    (hstart : ribStart.sparUid? = none) (hend : ribEnd.sparUid? = none) :
    Ensures d (cutFace uid p dir up up ribStart ribEnd) (·.Has p) := by
  unfold cutFace
  refine (ensures_size h).bind fun size hsize => ?_
  refine (Ensures.require fun w hw => hw).bind fun front hfront => ?_
  refine (Ensures.require fun w hw => hw).bind fun back hback => ?_
  refine (Ensures.ofExcept fun f hf => hf).bind fun face hface => ?_
  rw [hstart, hend]
  refine .pure ?_
  cases hruled : Face.ruledAlong up front back with
  | error e =>
    rw [hruled] at hface
    cases hface
  | ok f =>
    rw [hruled] at hface
    obtain rfl := Except.ok.inj hface
    exact Face.has_of_ruledAlong hsize hfront hback hruled

variable {set : RibSet ℝ} (hset : r.positioning = .set set)
include hset

/-- Any other rib has a face through its reference point. -/
theorem ensures_planeCut (eta : ℝ) (atPosition : Bool) :
    Ensures d (planeCut r set eta atPosition) fun cut =>
      ∀ w, Yields d (line set.ribReference) (.ok w) → cut.face.Has (w.pointAt eta) := by
  have hx : Naming.same.Owner r.uid r.uid := .ribs hr.toMatch.uid
  have hmatch := set_match hr hset
  rw [hset] at hstart hend
  unfold planeCut
  have hpoint : Ensures d (linePoint set.ribReference eta) fun p =>
      ∀ w, Yields d (line set.ribReference) (.ok w) → p = w.pointAt eta :=
    (Ensures.of_parallel (parallel_line h hmatch.ribReference)).bind fun v hv => .pure fun w hw =>
      congrArg (·.pointAt eta) (Except.ok.inj (hv.unique hw))
  refine hpoint.bind fun p hp => ?_
  refine (Ensures.of_parallel (parallel_setUp h hmatch eta p atPosition)).bind fun up _ => ?_
  refine (Ensures.of_parallel (parallel_ribDirection h hx hmatch eta p up)).bind fun dir _ => ?_
  refine (ensures_cutFace h r.uid p dir _ hstart hend).bind fun face hface => ?_
  refine (ensures_cutBetweenLines h hr face false).mono fun cut hcut w hw => ?_
  rw [hcut, ← hp w hw]
  exact hface

end Faces

end Query

/-! ### Ribs of a set -/

namespace Query

/-- A face of the wing closes it at an end near to a parameter, and the line ends in a section
there. -/
structure ClosesAt (d : Design ℝ) (l : NamedLine) (eta : ℝ) (face : Face ℝ) : Prop where
  /-- The parameter is near to an end. -/
  near : eta < tolerance ∨ 1 - tolerance < eta
  /-- The face closes the wing at that end. -/
  closes : ∃ g, Yields d wingGeometry (.ok g) ∧ face = (WingEnd.ofEta eta).faceOf g
  /-- The line ends in the plane of some section. -/
  inSection : d.EndsInSection (WingEnd.ofEta eta) l

theorem ensures_wingGeometry {d : Design ℝ} :
    Ensures d wingGeometry fun g => d.wing.geometry = .ok g :=
  .bind_wing (.cached Store.filledBy_wing (.ofExcept fun _ hg => hg))

/-- A line that ends at an end of the wing ends on the face there. -/
theorem ClosesAt.has_pointOf {d : Design ℝ} {l : NamedLine} {eta : ℝ} {face : Face ℝ}
    (h : ClosesAt d l eta face) (hwing : d.wing.Checked) {w : Wire ℝ} (hl : LineDrawn d l w)
    (hsolid : ((WingEnd.ofEta eta).sectionOf d.wing).Solid)
    (hends : d.EndsAt (WingEnd.ofEta eta) l) : face.Has ((WingEnd.ofEta eta).pointOf w) := by
  obtain ⟨g, hg, rfl⟩ := h.closes
  obtain ⟨xsi, hnonneg, hle, hend⟩ := hl.exists_chordPoint hwing hends
  have hface := (Wing.faces_of_geometry (ensures_wingGeometry.holds hg)).2 (WingEnd.ofEta eta)
  rw [hend]
  exact Wing.has_chordPoint hwing.profile hsolid hface hnonneg hle

theorem nearEnd_iff {eta : ℝ} : nearEnd eta = true ↔ eta < tolerance ∨ 1 - tolerance < eta := by
  unfold nearEnd
  rw [Bool.or_eq_true, decide_eq_true_eq, decide_eq_true_eq]

theorem elementUid?_eq_some {b : SetBoundary ℝ} {x : String} (hb : b.elementUid? = some x) :
    b = .elementUid x := by
  cases b with
  | elementUid y => exact congrArg _ (Option.some.inj hb)
  | eta _ | sparPositionUid _ => cases hb

/-- The boundary that names an element at a rib is the start, at the first one, or the end. -/
theorem atBoundary_eq_some {set : RibSet ℝ} {isFirst isAtEnd : Bool} {x : String}
    (hx : atBoundary set SetBoundary.elementUid? isFirst isAtEnd = some x) :
    (isFirst = true ∧ set.start = .elementUid x) ∨ (isAtEnd = true ∧ set.stop = .elementUid x) := by
  unfold atBoundary at hx
  obtain hx | ⟨-, hx⟩ := Option.or_eq_some_iff.1 hx
  · split at hx
    next hfirst => exact .inl ⟨hfirst, elementUid?_eq_some hx⟩
    next => cases hx
  · split at hx
    next hend => exact .inr ⟨hend, elementUid?_eq_some hx⟩
    next => cases hx

section Set

variable {d : Design ℝ} (h : d.LookupsMatch .same d) {r : RibsDefinition ℝ}
  (hr : d.RibsMatch .same d r r) {set : RibSet ℝ} (hset : r.positioning = .set set)

include h in
/-- A section element bounds a set where its face is found on the reference line. -/
theorem ensures_boundaryParameter {uid element : String} :
    Ensures d (boundaryParameter uid set (.elementUid element)) fun eta =>
      ∀ f w, Yields d (elementFace element) (.ok f) →
        Yields d (line set.ribReference) (.ok w) → w.Spaced →
        f.Reaches (w.pointAt eta) Wire.projectionGap := by
  refine (Ensures.of_parallel (parallel_elementFace h element)).bind fun f hf => ?_
  refine (Ensures.of_parallel (parallel_line h set.ribReference.match_same)).bind fun w hw => ?_
  refine (Ensures.require fun q hq => hq).bind fun q hq => .pure fun f' w' hf' hw' hspaced => ?_
  obtain rfl := Except.ok.inj (hf.unique hf')
  obtain rfl := Except.ok.inj (hw.unique hw')
  exact Face.reaches_of_firstHit? hspaced hq

/-- A spar that is found to end in a section has a position in one there. -/
theorem ensures_endsInSection (uid : String) {eta : ℝ}
    (heta : eta < tolerance ∨ 1 - tolerance < eta) :
    Ensures d (endsInSection uid eta) fun found =>
      found = true → d.EndsInSection (WingEnd.ofEta eta) (.spar uid) := by
  refine (ensures_spar uid).bind fun s hs => ?_
  have huid : (if eta < tolerance then s.positionUids.head?
      else if 1 - tolerance < eta then s.positionUids.getLast? else none) =
      (WingEnd.ofEta eta).ofList? s.positionUids := by
    unfold WingEnd.ofEta
    split
    · rfl
    next hinner => exact if_pos (heta.resolve_left hinner)
  dsimp only
  rw [huid]
  cases hx : (WingEnd.ofEta eta).ofList? s.positionUids with
  | none => exact .pure nofun
  | some x =>
    refine (ensures_position x).bind fun p hp => .pure fun hfound => ?_
    exact .spar ⟨s, x, hs, hx, hp⟩ hfound

variable (hstart : r.positioning.ribStart.sparUid? = none)
  (hend : r.positioning.ribEnd.sparUid? = none)
include h hr hset hstart hend

/-- A rib that no element bounds has a face through its reference point, or closes the wing. -/
theorem ensures_setCut_none (eta : ℝ) (atPosition : Bool) :
    Ensures d (setCut r set eta none atPosition) fun cut =>
      (∀ w, Yields d (line set.ribReference) (.ok w) → cut.face.Has (w.pointAt eta)) ∨
        ClosesAt d set.ribReference eta cut.face := by
  have hplane := ensures_planeCut h hr hstart hend hset eta atPosition
  have hborder := ensures_borderCut h hr hstart hend eta
  unfold setCut
  dsimp only
  by_cases hnear : nearEnd eta = true
  · have hclose := nearEnd_iff.1 hnear
    rw [if_pos hnear]
    cases hl : set.ribReference with
    | leadingEdge =>
      exact hborder.mono fun cut hcut => .inr ⟨hclose, hcut, .leadingEdge⟩
    | trailingEdge =>
      exact hborder.mono fun cut hcut => .inr ⟨hclose, hcut, .trailingEdge⟩
    | spar uid =>
      rw [hl] at hplane
      refine (ensures_endsInSection uid hclose).bind fun found hfound => ?_
      split
      next htrue => exact hborder.mono fun cut hcut => .inr ⟨hclose, hcut, hfound htrue⟩
      next => exact hplane.mono fun cut hcut => .inl hcut
  · rw [if_neg hnear, pure_bind, if_neg Bool.false_ne_true]
    exact hplane.mono fun cut hcut => .inl hcut

/-- A rib of a set is close to its reference point, or closes the wing. -/
theorem ensures_setRib {sp : RibSpread ℝ}
    (ha : Yields d (boundaryParameter r.uid set set.start) (.ok sp.etaStart))
    (hb : Yields d (boundaryParameter r.uid set set.stop) (.ok sp.etaStop)) {w : Wire ℝ}
    (hw : Yields d (line set.ribReference) (.ok w)) (hspaced : w.Spaced) (i : ℕ) :
    Ensures d (setRib r set sp i) fun cut =>
      cut.face.Reaches (w.pointAt (sp.etaStart + sp.offset * i))
          (tolerance * w.length + Wire.projectionGap) ∨
        ClosesAt d set.ribReference (sp.etaStart + sp.offset * i) cut.face := by
  have hlength := mul_pos tolerance_pos hspaced.length_pos
  unfold setRib
  dsimp only
  set eta := sp.etaStart + sp.offset * i with heta
  cases hx : atBoundary set SetBoundary.elementUid? (i == 0)
      (decide (Scalar.abs (sp.etaStop - eta) ≤ tolerance)) with
  | none =>
    refine (ensures_setCut_none h hr hset hstart hend eta _).mono fun cut hcut => ?_
    refine hcut.imp_left fun hplane => (hplane w hw).reaches ?_
    exact add_nonneg hlength.le Wire.projectionGap_nonneg
  | some x =>
    refine (ensures_elementCut h hr hstart hend x).mono fun cut hcut => .inl ?_
    obtain ⟨hfirst, hset⟩ | ⟨hatEnd, hset⟩ := atBoundary_eq_some hx
    · -- the first rib stands where its face was found
      rw [hset] at ha
      have hreaches := (ensures_boundaryParameter h).holds ha _ w hcut hw hspaced
      obtain rfl : i = 0 := eq_of_beq hfirst
      rw [heta, Nat.cast_zero, mul_zero, add_zero]
      exact hreaches.mono (le_add_of_nonneg_left hlength.le)
    · -- a rib at the end stands close to where its face was found
      rw [hset] at hb
      have hreaches := (ensures_boundaryParameter h).holds hb _ w hcut hw hspaced
      refine (hreaches.trans (w.pointAt eta)).mono (add_le_add_left ?_ Wire.projectionGap)
      have hnear : |sp.etaStop - eta| ≤ tolerance := of_decide_eq_true hatEnd
      rw [abs_sub_comm] at hnear
      calc (w.pointAt eta).distance (w.pointAt sp.etaStop)
          ≤ |clamp 0 1 eta - clamp 0 1 sp.etaStop| * w.length :=
            Wire.distance_pointAt_le hspaced _ _
        _ ≤ tolerance * w.length := by
          refine mul_le_mul_of_nonneg_right ?_ hspaced.length_pos.le
          exact (abs_clamp_sub_le eta sp.etaStop).trans hnear

end Set

end Query

namespace Structure

/-- A face closes the wing at an end near to a parameter of a line, and the line ends elsewhere: not
on that face, though in the plane of a section. -/
structure ClosesElsewhere (s : Structure ℝ) (l : NamedLine) (w : Wire ℝ) (eta : ℝ) (face : Face ℝ) :
    Prop where
  /-- The parameter is near to an end. -/
  near : eta < tolerance ∨ 1 - tolerance < eta
  /-- The face closes the wing at that end. -/
  closes : ∃ g, s.answer .wingGeometry = .ok g ∧ face = (WingEnd.ofEta eta).faceOf g
  /-- The line ends in the plane of some section. -/
  inSection : s.design.EndsInSection (WingEnd.ofEta eta) l
  /-- The end of the line is away from the face. -/
  misses : ¬ face.Reaches ((WingEnd.ofEta eta).pointOf w) Wire.projectionGap
  /-- So the line does not end on the chord at that end of the wing. -/
  elsewhere : ((WingEnd.ofEta eta).sectionOf s.design.wing).Solid →
    ¬ s.design.EndsAt (WingEnd.ofEta eta) l

theorem sparUid?_of_isEdge {l : NamedLine} (h : l.isEdge) : l.sparUid? = none :=
  Option.isNone_iff_eq_none.1 h

/-! ### Reference points -/

/-- **Ribs stand at their reference points, unless they close the wing where their line does not
end.**  A rib of a set between edges is cut within the tolerance of the point at its parameter,
measured along the reference line.  The exception is a rib at an end of a spar that ends in the
plane of a section: it gets the face that closes the wing, whether or not this is that section. -/
theorem ribs_stand {s : Structure ℝ} (h : s.Reachable) (hwing : s.design.wing.Checked)
    {r : RibsDefinition ℝ} (hr : r ∈ s.design.ribs.items) {set : RibSet ℝ}
    (hset : r.positioning = .set set) (hstart : set.ribStart.isEdge) (hend : set.ribEnd.isEdge)
    {w : Wire ℝ} (hw : s.answer (.line set.ribReference) = .ok w) {i : ℕ} {cut : RibCut ℝ}
    (hcut : s.answer (.ribs r.uid (.cut (i + 1))) = .ok cut) :
    ∃ a o p, s.answer (.ribs r.uid .etaStart) = .ok a ∧
      s.answer (.ribs r.uid .etaOffset) = .ok o ∧
      s.answer (.linePoint set.ribReference (a + o * i)) = .ok p ∧
      (cut.face.Reaches p (tolerance * w.length + Wire.projectionGap) ∨
        s.ClosesElsewhere set.ribReference w (a + o * i) cut.face) := by
  have hs := sound_of_reachable h
  have hfound := hs.valid.ribs.get?_eq_some_iff.2 ⟨hr, rfl⟩
  have hmatch := match_self hs
  have hlookups := hmatch.lookupsMatch
  have hself := ribsMatch_self hs hfound
  have husable := usable_of_valid hs.valid hr hset
  have hcut : Query.Yields s.design (Query.Ribs.cut r (i + 1)) (.ok cut) :=
    yields_of_answer_ribs hs hfound hcut
  have hline : Query.Yields s.design (Query.line set.ribReference) (.ok w) :=
    yields_of_answer hs hw
  obtain ⟨x | c, hcount⟩ := (Query.parallel_ribCount hlookups hself).exists_yields
  · cases hcut.unique hcount.bind_error.bind_error
  obtain ⟨sp, hsp, -⟩ := Query.exists_spread hlookups hself hset hcount
  obtain ⟨ha, hb, -⟩ :=
    (Query.ensures_spread hlookups hmatch.indexed hself hset husable).holds hsp
  have hdrawn := (Query.ensures_line hlookups hmatch.indexed).holds hline
  have hspaced := hdrawn.spaced
  have hrib := (Query.ensures_cut hlookups hself hset i).holds hcut sp hsp
  have hpoint : Query.Yields s.design
      (Query.linePoint set.ribReference (sp.etaStart + sp.offset * i))
      (.ok (w.pointAt (sp.etaStart + sp.offset * i))) := hline.bind_ok (.pure _)
  refine ⟨sp.etaStart, sp.offset, _, answer_ribs hs hfound (q := .etaStart) (hsp.bind_ok (.pure _)),
    answer_ribs hs hfound (q := .etaOffset) (hsp.bind_ok (.pure _)),
    (hpoint s.store hs.coherent).1, ?_⟩
  obtain hreaches | hcloses := (Query.ensures_setRib hlookups hself hset
    (sparUid?_of_isEdge (hset ▸ hstart)) (sparUid?_of_isEdge (hset ▸ hend)) ha hb hline hspaced
    i).holds hrib
  · exact .inl hreaches
  by_cases hmisses : cut.face.Reaches
      ((WingEnd.ofEta (sp.etaStart + sp.offset * i)).pointOf w) Wire.projectionGap
  · -- the end of the line is on the face, and the reference point close to this end
    refine .inl ((hmisses.trans _).mono (add_le_add_left ?_ Wire.projectionGap))
    exact WingEnd.distance_pointOf_le hspaced hcloses.near
  · obtain ⟨g, hg, hface⟩ := hcloses.closes
    refine .inr ⟨hcloses.near, ⟨g, (hg s.store hs.coherent).1, hface⟩, hcloses.inSection, hmisses,
      fun hsolid hends => hmisses ?_⟩
    exact (hcloses.has_pointOf hwing hdrawn hsolid hends).reaches Wire.projectionGap_nonneg

/-! ### A spar from the tip to the root -/

/-- A single rib at the start of a spar. -/
noncomputable def firstSet : RibSet ℝ where
  ribReference := .spar "front"
  start := .eta 0
  stop := .eta 1
  ribStart := .leadingEdge
  ribEnd := .trailingEdge
  count := .numberOfRibs 1
  crossing := .cross
  rotation := .plain

/-- The rib of the set. -/
noncomputable def firstRib : RibsDefinition ℝ := ⟨"ribs", .set firstSet, .plain⟩

/-- A position at the outer end of the wing. -/
noncomputable def tipPosition : SparPosition ℝ := ⟨"tip", .eta 1, 0.3⟩

/-- A position at the inner end of the wing. -/
noncomputable def rootPosition : SparPosition ℝ := ⟨"root", .eta 0, 0.3⟩

/-- A spar that runs from the outer to the inner end. -/
noncomputable def inwardSpar : SparSegment ℝ := ⟨"front", ["tip", "root"], .plain⟩

/-- Its stations lie on the chords at the ends of the wing. -/
noncomputable def inwardStations : List (Query.Station ℝ) :=
  [⟨tipPosition, (WingEnd.outer.sectionOf exactWing).chordPoint 0.3, Vec.zAxis⟩,
    ⟨rootPosition, (WingEnd.inner.sectionOf exactWing).chordPoint 0.3, Vec.zAxis⟩]

/-- The spar with the rib at its start. -/
noncomputable def inwardDescription : Description ℝ :=
  ⟨[tipPosition, rootPosition], [inwardSpar], [firstRib.declaration]⟩

/-- A design in which the spar is found. -/
structure HasInwardSpar (d : Design ℝ) : Prop where
  wing : d.wing = exactWing
  spar : d.HasSpar inwardSpar
  tip : d.positions.get? "tip" = some tipPosition
  root : d.positions.get? "root" = some rootPosition

/-- A design in which the rib and the spar are found. -/
structure HasInward (d : Design ℝ) : Prop extends HasInwardSpar d where
  ribs : d.HasRibs firstRib

theorem yields_spread_firstRib {d : Design ℝ} (hr : d.HasRibs firstRib) :
    Query.Yields d (Query.spread firstRib) (.ok ⟨0, 1, 0, 1⟩) :=
  .cached (Store.filledBy_spread hr) (.bind_ok (.pure _) (.pure _))

theorem hasInwardSpar_of_ofDescription {s : Structure ℝ} {desc : Description ℝ}
    (h : ofDescription exactWing desc = .ok s) (hspar : inwardSpar ∈ desc.sparSegments)
    (htip : tipPosition ∈ desc.sparPositions) (hroot : rootPosition ∈ desc.sparPositions) :
    HasInwardSpar s.design where
  wing := (ofDescription_ok h).2.1
  spar := hasSpar_of_ofDescription h hspar
  tip := position_of_ofDescription h htip
  root := position_of_ofDescription h hroot

theorem hasInward_of_ofDescription {s : Structure ℝ} {desc : Description ℝ}
    (h : ofDescription exactWing desc = .ok s) (hspar : inwardSpar ∈ desc.sparSegments)
    (htip : tipPosition ∈ desc.sparPositions) (hroot : rootPosition ∈ desc.sparPositions)
    (hribs : firstRib.declaration ∈ desc.ribsDefinitions) : HasInward s.design where
  toHasInwardSpar := hasInwardSpar_of_ofDescription h hspar htip hroot
  ribs := hasRibs_of_ofDescription h hribs

theorem checked_exactWing : exactWing.Checked where
  profile := rfl
  nodup_names := by decide
  apart := by
    refine .cons_cons ?_ (.singleton _)
    refine Real.le_sqrt_of_sq_le ?_
    dsimp only [Vec.sub_y, Vec.sub_z]
    norm_num [tolerance]

theorem solid_exactWing : ∀ s ∈ exactWing.sections, s.Solid := by
  unfold exactWing
  simp only [List.forall_mem_cons]
  refine ⟨⟨?_, ?_⟩, ⟨?_, ?_⟩, nofun⟩ <;> norm_num [tolerance]

theorem exists_geometry_exactWing : ∃ g, exactWing.geometry = .ok g := by
  refine Wing.TwoSided.exists_geometry ⟨?_, ?_, ?_⟩ fun s hs => ⟨_, Wing.sectionFace_eq rfl ?_⟩
  · exact Nat.le_of_ble_eq_true rfl
  · exact Nat.le_of_ble_eq_true rfl
  · exact Nat.le_of_ble_eq_true rfl
  · exact solid_exactWing s hs

/-- The edges of the wing start on the face at its inner end. -/
theorem exists_pointOnLine {d : Design ℝ} (hwing : d.wing = exactWing) {l : NamedLine} {xsi : ℝ}
    (hl : Query.line l = do Query.ofExcept ((← Query.wing).chordwiseLine xsi))
    (hnonneg : 0 ≤ xsi) (hle : xsi ≤ 1) (uid : String) :
    ∃ w q, Query.Yields d (Query.line l) (.ok w) ∧
      Query.Yields d (Query.pointOnLine uid ⟨Wing.sectionFan exactWing.firstSegment.inner⟩ l)
        (.ok q) := by
  obtain ⟨v, hv, hpoints⟩ := WingEnd.exists_chordwiseLine checked_exactWing xsi
  have hline : Query.Yields d (Query.line l) (.ok v) := by
    rw [hl]
    exact .bind_wing (.ofExcept_ok (hwing ▸ hv))
  have hleaves : Edge.crossingGap ≤
      |((⟨"outer", ⟨0, 10, 0⟩, 1, 0.1⟩ : WingSection ℝ).chordPoint xsi).y - 0| := by
    rw [WingSection.chordPoint_y]
    norm_num [Edge.crossingGap, tolerance]
  obtain ⟨q, hq⟩ := Wing.exists_firstHit?_sectionFan
    (solid_exactWing _ List.mem_cons_self) hnonneg hle hpoints hleaves
  exact ⟨v, q, hline, hline.bind_ok (.require_some hq)⟩

/-- A line along the chords is as long as the wing. -/
theorem norm_chordPoint_sub (xsi : ℝ) : ((WingEnd.inner.sectionOf exactWing).chordPoint xsi -
    (WingEnd.outer.sectionOf exactWing).chordPoint xsi).norm = 10 := by
  have hinner : WingEnd.inner.sectionOf exactWing = ⟨"inner", ⟨0, 0, 0⟩, 1, 0.1⟩ := rfl
  have houter : WingEnd.outer.sectionOf exactWing = ⟨"outer", ⟨0, 10, 0⟩, 1, 0.1⟩ := rfl
  rw [hinner, houter]
  refine (Real.sqrt_eq_iff_mul_self_eq_of_pos (by norm_num)).2 ?_
  norm_num [Vec.normSq, Vec.dot]

/-- The spar is long enough to have a line. -/
theorem tolerance_lt_norm_chordPoint_sub : tolerance <
    ((WingEnd.inner.sectionOf exactWing).chordPoint 0.3 -
      (WingEnd.outer.sectionOf exactWing).chordPoint 0.3).norm := by
  rw [norm_chordPoint_sub]
  norm_num [tolerance]

/-- All surfaces of the wing are found. -/
theorem exists_wingGeometry {d : Design ℝ} (hwing : d.wing = exactWing) :
    ∃ g, Query.Yields d Query.wingGeometry (.ok g) ∧
      g.innerFace = ⟨Wing.sectionFan exactWing.firstSegment.inner⟩ := by
  obtain ⟨g, hg⟩ := exists_geometry_exactWing
  refine ⟨g, .bind_wing (.cached Store.filledBy_wing ?_), ?_⟩
  · exact .ofExcept_ok (hwing ▸ hg)
  · have hsection := (Wing.faces_of_geometry hg).2 .inner
    rw [Wing.sectionFace_eq rfl (solid_exactWing _ (WingEnd.sectionOf_mem .inner))] at hsection
    exact (Except.ok.inj hsection).symm

/-- The middle of the straight wing. -/
theorem point_half (xsi : ℝ) : exactWing.point 0.5 xsi = ⟨xsi, 5, 0⟩ := by
  obtain ⟨g, hg, -, hpoint⟩ :=
    checked_exactWing.exists_spans (show (0 : ℝ) ≤ 0.5 by norm_num) (by norm_num)
  obtain rfl := List.mem_singleton.1 hg
  have hhalf : (0.5 * exactWing.totalSpan - 0) / (exactWing.totalSpan - 0) = 0.5 := by
    have htotal : exactWing.totalSpan ≠ 0 := (checked_exactWing.totalSpan_pos).ne'
    field_simp
    ring
  rw [hpoint]
  change Wing.Segment.point _ ((0.5 * exactWing.totalSpan - 0) / (exactWing.totalSpan - 0)) xsi = _
  rw [hhalf]
  ext <;> norm_num [Wing.Segment.point, Vec.lerp, WingSection.trailingEdge, Vec.xAxis]

section InwardSpar

variable {d : Design ℝ} (hd : HasInwardSpar d)
include hd

theorem stands_inwardSpar :
    List.Forall₂ (Query.Stands d) inwardSpar.positionUids inwardStations := by
  have hwing : d.wing.Checked := hd.wing ▸ checked_exactWing
  have htip := Query.yields_midplanePoint (e := .outer) hwing (p := tipPosition) (.inl rfl)
  have hroot := Query.yields_midplanePoint (e := .inner) hwing (p := rootPosition) (.inl rfl)
  rw [hd.wing] at htip hroot
  exact .cons ⟨hd.tip, htip, .pure _⟩ (.cons ⟨hd.root, hroot, .pure _⟩ .nil)

/-- The spar has panels, and its line starts at the outer end of the wing. -/
theorem exists_panels_inwardSpar : ∃ p, Query.Yields d (Query.panels inwardSpar) (.ok p) ∧
    p.midplaneLine = Wire.straight ((WingEnd.outer.sectionOf exactWing).chordPoint 0.3)
      ((WingEnd.inner.sectionOf exactWing).chordPoint 0.3) := by
  obtain ⟨g, hg, -⟩ := exists_wingGeometry hd.wing
  have hloft : Query.Yields d Query.loft (.ok g.loft) := hg.bind_ok (.pure _)
  have htwo : 2 ≤ inwardStations.length := le_rfl
  have hapart : inwardStations.IsChain Query.Station.Apart :=
    .cons_cons (Query.Station.apart_iff.2 tolerance_lt_norm_chordPoint_sub) (.singleton _)
  have hpanels := Query.yields_panels hd.spar (stands_inwardSpar hd) htwo (hloft.bind_ok (.pure _))
  rw [(Query.panelsOf_eq_ok_iff htwo (p := ⟨Wire.straight _ _, _⟩)).2 ⟨hapart, rfl, rfl⟩] at hpanels
  exact ⟨_, hpanels, rfl⟩

theorem yields_line_inwardSpar : Query.Yields d (Query.line (.spar "front")) (.ok (Wire.straight
    ((WingEnd.outer.sectionOf exactWing).chordPoint 0.3)
    ((WingEnd.inner.sectionOf exactWing).chordPoint 0.3))) := by
  obtain ⟨p, hp, hline⟩ := exists_panels_inwardSpar hd
  rw [← hline]
  exact (Query.yields_spar hd.spar).bind_ok (hp.bind_ok (.pure _))

/-- The first position is in a section, but in that at the other end. -/
theorem yields_endsInSection_inwardSpar :
    Query.Yields d (Query.endsInSection "front" 0) (.ok true) := by
  have hsection : tipPosition.isInSection = true := by
    refine Bool.or_eq_true_iff.2 (.inr (decide_eq_true ?_))
    exact sub_le_self 1 tolerance_pos.le
  refine (Query.yields_spar hd.spar).bind_ok ?_
  dsimp only
  rw [if_pos tolerance_pos]
  exact (Query.yields_position hd.tip).bind_ok (hsection ▸ .pure _)

end InwardSpar

section Inward

variable {d : Design ℝ} (hd : HasInward d)
include hd

/-- A face closes the wing at its inner end, and the edges of the wing start on it. -/
theorem exists_borderCut_firstRib : ∃ cut,
    Query.Yields d (Query.borderCut firstRib 0) (.ok cut) ∧ cut.isTargetFace = true ∧
      cut.face = ⟨Wing.sectionFan exactWing.firstSegment.inner⟩ := by
  obtain ⟨g, hg, hface⟩ := exists_wingGeometry hd.wing
  obtain ⟨-, start, -, hstart⟩ := exists_pointOnLine hd.wing (l := .leadingEdge) rfl le_rfl
    zero_le_one "ribs"
  obtain ⟨-, stop, -, hstop⟩ := exists_pointOnLine hd.wing (l := .trailingEdge) rfl zero_le_one
    le_rfl "ribs"
  refine ⟨⟨g.innerFace, true, start, stop⟩, .bind_wing (hg.bind_ok ?_), rfl, hface⟩
  rw [← hface] at hstart hstop
  have hlines : Query.Yields d (Query.cutBetweenLines firstRib g.innerFace true)
      (.ok ⟨g.innerFace, true, start, stop⟩) := hstart.bind_ok (hstop.bind_ok (.pure _))
  rw [if_pos tolerance_pos]
  dsimp only
  rw [Query.trimSection_eq rfl rfl, pure_bind]
  exact hlines

/-- The only rib closes the wing at its inner end. -/
theorem exists_cuts_firstRib : ∃ cut, Query.Yields d (Query.cuts firstRib) (.ok [cut]) ∧
    cut.isTargetFace = true ∧ cut.face = ⟨Wing.sectionFan exactWing.firstSegment.inner⟩ := by
  obtain ⟨cut, hcut, htarget, hface⟩ := exists_borderCut_firstRib hd
  refine ⟨cut, ?_, htarget, hface⟩
  have hrib : Query.Yields d (Query.setRib firstRib firstSet ⟨0, 1, 0, 1⟩ 0) (.ok cut) := by
    have helement (isAtEnd : Bool) :
        Query.atBoundary firstSet SetBoundary.elementUid? true isAtEnd = none := by
      cases isAtEnd <;> rfl
    have hnear : Query.nearEnd (0 : ℝ) = true := Query.nearEnd_iff.2 (.inl tolerance_pos)
    have heta : (0 : ℝ) + 0 * ((0 : ℕ) : ℝ) = 0 := by rw [zero_mul, add_zero]
    unfold Query.setRib
    dsimp only
    rw [beq_self_eq_true, helement, heta]
    unfold Query.setCut
    dsimp only
    rw [if_pos hnear]
    exact (yields_endsInSection_inwardSpar hd.toHasInwardSpar).bind_ok hcut
  refine .cached (Store.filledBy_cuts hd.ribs) ((yields_spread_firstRib hd.ribs).bind_ok ?_)
  exact hrib.bind_ok ((Query.Yields.pure _).bind_ok (.pure _))

theorem exists_cut_firstRib : ∃ cut, Query.Yields d (Query.Ribs.cut firstRib 1) (.ok cut) ∧
    cut.face = ⟨Wing.sectionFan exactWing.firstSegment.inner⟩ := by
  obtain ⟨cut, hcuts, -, hface⟩ := exists_cuts_firstRib hd
  have hcount : Query.Yields d (Query.ribCount firstRib) (.ok 1) :=
    (yields_spread_firstRib hd.ribs).bind_ok (.pure _)
  exact ⟨cut, (Query.yields_place hcount Nat.one_pos).bind_ok
    (hcuts.bind_ok (Query.yields_pick 1 Nat.one_pos)), hface⟩

end Inward

/-- A spar starts at the tip, but its first rib is at the root. -/
theorem ribs_stand_inwardSpar :
    ∃ s, ofDescription exactWing inwardDescription = .ok s ∧
      ∃ cut w, s.answer (.ribs "ribs" (.cut 1)) = .ok cut ∧
        s.answer (.line (.spar "front")) = .ok w ∧
        s.ClosesElsewhere (.spar "front") w 0 cut.face := by
  have hvalid : inwardDescription.Valid := by decide
  obtain ⟨s, hs⟩ := exists_ofDescription exactWing (Description.loadable_iff_valid.2 hvalid)
  have hd := hasInward_of_ofDescription hs List.mem_cons_self List.mem_cons_self
    (List.mem_cons_of_mem _ List.mem_cons_self) List.mem_cons_self
  have hsound := Sound.load hs
  obtain ⟨cut, hcut, hface⟩ := exists_cut_firstRib hd
  have hcut : s.answer (.ribs "ribs" (.cut 1)) = .ok cut :=
    answer_ribs hsound hd.ribs (q := .cut 1) hcut
  have hline := yields_line_inwardSpar hd.toHasInwardSpar
  have hw := (hline s.store hsound.coherent).1
  obtain ⟨a, o, p, ha, -, hp, hstands⟩ := ribs_stand (.load hs) (hd.wing ▸ checked_exactWing)
    (hsound.valid.ribs.get?_eq_some_iff.1 hd.ribs).1 rfl rfl rfl hw hcut
  refine ⟨s, hs, cut, _, hcut, hw, ?_⟩
  -- the rib stands at the parameter of the start
  have hspread := yields_spread_firstRib hd.ribs
  obtain rfl : a = 0 := Except.ok.inj (ha.symm.trans
    (answer_ribs hsound hd.ribs (q := .etaStart) (hspread.bind_ok (.pure _))))
  rw [Nat.cast_zero, mul_zero, add_zero] at hp hstands
  refine hstands.resolve_left fun hreaches => ?_
  have hspaced := Wire.spaced_straight tolerance_lt_norm_chordPoint_sub.le
  have hpoint : p = (WingEnd.outer.sectionOf exactWing).chordPoint 0.3 := by
    have hyields : Query.Yields s.design (Query.linePoint (.spar "front") 0) (.ok _) :=
      hline.bind_ok (.pure _)
    rw [Except.ok.inj (hp.symm.trans (hyields s.store hsound.coherent).1),
      Wire.pointAt_start hspaced]
    rfl
  -- but the spar is as long as the wing
  have hnear := hreaches.abs_y_sub_le fun t ht => Wing.of_mem_sectionFan (hface ▸ ht)
  rw [Wire.length_straight, norm_chordPoint_sub, hpoint, WingSection.chordPoint_y] at hnear
  change |(10 : ℝ) - 0| ≤ _ at hnear
  norm_num [tolerance, Wire.projectionGap] at hnear

end Structure

end WingBox
