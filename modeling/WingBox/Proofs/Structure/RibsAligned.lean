import WingBox.Proofs.Fault.Traversal
import WingBox.Proofs.Structure.Ensured

/-!
# Ribs where they are counted, caps where they are declared

The number of ribs, the ribs before they are trimmed and their final faces are kept apart.  In a
reachable structure all of them come from one definition, so they fit
(`Structure.RibsAligned`): an index is refused exactly if it is not counted, every other one finds
its rib, and the face of a rib is the surface that it was cut from or what `Query.Trimmed` says of
it.  No question about caps finds them built without a side (`Structure.caps_ne_unbuiltCap`).
-/

namespace WingBox

open Scalar

variable {K : Type} [Scalar K]

namespace Structure

variable {s : Structure K}

/-! ### Ribs -/

/-- What a structure answers about single ribs fits the number `c` of ribs. -/
structure RibsAligned (s : Structure K) (r : RibsDefinition K) (c : Nat) : Prop where
  /-- An index that is not counted is refused, with the number of ribs. -/
  outside : ∀ n frame, n = 0 ∨ c < n →
    s.answer (.ribs r.uid (.cut n)) = .error (.index .rib n c) ∧
      s.answer (.ribs r.uid (.face n frame)) = .error (.index .rib n c) ∧
      s.answer (.ribs r.uid (.midplanePoints n frame)) = .error (.index .rib n c)
  /-- A counted index may be refused for other reasons only. -/
  inside : ∀ n frame, n < c →
    ErrorIs Error.Caused (s.answer (.ribs r.uid (.cut (n + 1)))) ∧
      ErrorIs Error.Caused (s.answer (.ribs r.uid (.face (n + 1) frame))) ∧
      ErrorIs Error.Caused (s.answer (.ribs r.uid (.midplanePoints (n + 1) frame)))
  /-- If the ribs can be cut, there is one for each counted index. -/
  cuts : ∀ cs, ((Query.cuts r).answer s.design s.store).1 = .ok cs → cs.length = c ∧
    ∀ n (hn : n < cs.length), s.answer (.ribs r.uid (.cut (n + 1))) = .ok cs[n] ∧
      s.answer (.ribs r.uid (.midplanePoints (n + 1) .wing)) = .ok (cs[n].start, cs[n].stop)
  /-- If the ribs have faces, there is one for each counted index: the surface that the rib is cut
  from if that is its final face, else the part of this surface inside the wing. -/
  geometry : ∀ g, s.answer (.ribs r.uid (.geometry .wing)) = .ok g → g.faces.length = c ∧
    ∃ w, s.answer .wingGeometry = .ok w ∧ ∀ n (hn : n < g.faces.length),
      s.answer (.ribs r.uid (.face (n + 1) .wing)) = .ok g.faces[n] ∧
        ∃ cut, s.answer (.ribs r.uid (.cut (n + 1))) = .ok cut ∧
          (cut.isTargetFace = true → g.faces[n] = cut.face) ∧
          (cut.isTargetFace = false → Query.Trimmed cut.face w.loft (.ok g.faces[n]))
  /-- If they have none, though they can be cut and the wing has its surfaces, a surface that is no
  final face cannot be trimmed. -/
  refused : ∀ cs w frame e, ((Query.cuts r).answer s.design s.store).1 = .ok cs →
    s.answer .wingGeometry = .ok w → s.answer (.ribs r.uid (.geometry frame)) = .error e →
    ∃ n cut fault, s.answer (.ribs r.uid (.cut (n + 1))) = .ok cut ∧ cut.isTargetFace = false ∧
      e = .geometry r.uid (.shape fault) ∧ Query.Trimmed cut.face w.loft (.error fault)
  /-- It does not matter whether the ribs are asked for by name or by their own index. -/
  atIndex : ∀ i, s.design.ribs.at? i = some r → ∀ {α : Type} (q : RibsQuestion K α),
    s.answer (.ribsAt (i + 1) q) = s.answer (.ribs r.uid q)

section Sound

variable (hs : s.Sound)
include hs

variable {r : RibsDefinition K} (hr : s.design.HasRibs r)
include hr

/-- The answers about single ribs fit their number. -/
theorem ribsAligned {c : Nat} (hcount : s.answer (.ribs r.uid .count) = .ok c) :
    s.RibsAligned r c := by
  have hmatch := match_self hs
  have hself := ribsMatch_self hs hr
  have hcount : Query.Yields s.design (Query.ribCount r) (.ok c) :=
    yields_of_answer_ribs hs hr hcount
  have hpoint (p : Vec K) : Query.Yields s.design (Query.pointIn .wing p) (.ok p) := .pure p
  have hgeometry := (Query.parallel_ribsGeometry hmatch.lookupsMatch hself).exists_yields
  constructor
  case outside =>
    intro n frame hn
    have hplace := Query.yields_place_of_outside hcount hn
    exact ⟨answer_ribs hs hr hplace.bind_error, answer_ribs hs hr hplace.bind_error,
      answer_ribs hs hr (Query.Yields.bind_error hplace.bind_error)⟩
  case inside =>
    intro n frame hn
    obtain ⟨x, hx, hcut⟩ := Query.yieldsIs_cut hmatch hself hcount hn
    obtain ⟨y, hy, hface⟩ := Query.yieldsIs_face hmatch hself hcount hn frame
    obtain ⟨z, hz, hpoints⟩ := Query.yieldsIs_midplanePoints hmatch hself hcount hn frame
    have hcutIs : s.answer (.ribs r.uid (.cut (n + 1))) = x := answer_ribs hs hr hx
    have hfaceIs : s.answer (.ribs r.uid (.face (n + 1) frame)) = y := answer_ribs hs hr hy
    have hpointsAre : s.answer (.ribs r.uid (.midplanePoints (n + 1) frame)) = z :=
      answer_ribs hs hr hz
    exact ⟨hcutIs ▸ hcut, hfaceIs ▸ hface, hpointsAre ▸ hpoints⟩
  case cuts =>
    intro cs hcs
    have hcs := yields_of_parallel hs (Query.parallel_cuts hmatch.lookupsMatch hself) hcs
    refine ⟨Query.length_of_cuts hmatch hself hcount hcs, fun n hn => ?_⟩
    have hcut := Query.yields_cut hmatch hself hcount hcs hn
    refine ⟨answer_ribs hs hr hcut, answer_ribs hs hr ?_⟩
    exact hcut.bind_ok ((hpoint _).bind_ok ((hpoint _).bind_ok (.pure _)))
  case geometry =>
    intro g hg
    have hg : Query.Yields s.design (Query.ribsGeometry r) (.ok g) := by
      obtain ⟨x | shape, hx⟩ := hgeometry
      · cases (answer_ribs hs hr (q := .geometry .wing) hx.bind_error).symm.trans hg
      · cases (answer_ribs hs hr (q := .geometry .wing) (hx.bind_ok (.pure shape))).symm.trans hg
        exact hx
    obtain ⟨cs, w, hcs, hw, hfaces⟩ := Query.exists_faces hmatch hself hg
    refine ⟨Query.length_of_ribsGeometry hmatch hself hcount hg, w,
      (hw s.store hs.coherent).1, fun n hn => ?_⟩
    have hncs : n < cs.length := hfaces.length_eq ▸ hn
    have hface : Query.ribFace r.uid w.loft cs[n] = .ok g.faces[n] := hfaces.get hncs hn
    refine ⟨answer_ribs hs hr (Query.yields_face hmatch hself hcount hg hn), cs[n],
      answer_ribs hs hr (Query.yields_cut hmatch hself hcount hcs hncs), ?_, ?_⟩
    · intro htarget
      rw [Query.ribFace, if_pos htarget] at hface
      exact (Except.ok.inj hface).symm
    · intro htarget
      rw [Query.ribFace, if_neg (Bool.eq_false_iff.1 htarget)] at hface
      exact Query.trim_eq_ok_iff.1 hface
  case refused =>
    intro cs w frame e hcs hw he
    have hcs := yields_of_parallel hs (Query.parallel_cuts hmatch.lookupsMatch hself) hcs
    have he : Query.Yields s.design (Query.ribsGeometry r) (.error e) := by
      obtain ⟨x | shape, hx⟩ := hgeometry
      · cases (answer_ribs hs hr (q := .geometry frame) hx.bind_error).symm.trans he
        exact hx
      · obtain ⟨image, himage⟩ := Query.exists_shapeIn (d := s.design) frame shape
        cases (answer_ribs hs hr (q := .geometry frame) (hx.bind_ok himage)).symm.trans he
    obtain ⟨cut, hcut, hface⟩ := Query.exists_ribFace_error hself hcs (yields_of_answer hs hw) he
    obtain ⟨n, hn, rfl⟩ := List.getElem_of_mem hcut
    unfold Query.ribFace at hface
    split at hface
    · cases hface
    next htarget =>
      obtain ⟨fault, rfl, htrimmed⟩ := Query.trim_eq_error_iff.1 hface
      exact ⟨n, cs[n], fault, answer_ribs hs hr (Query.yields_cut hmatch hself hcount hcs hn),
        Bool.eq_false_iff.2 htarget, rfl, htrimmed⟩
  case atIndex => exact fun i hi => answer_ribsAt hs hr hi

end Sound

/-! ### Caps -/

/-- A question about the edges along a skin. -/
inductive AsksCaps : Question K (Shape K) → Prop
  | spar (uid : String) (side : Side) (frame : Frame) : AsksCaps (.spar uid (.caps side frame))
  | sparAt (i : Nat) (side : Side) (frame : Frame) : AsksCaps (.sparAt i (.caps side frame))
  | ribs (uid : String) (side : Side) (frame : Frame) : AsksCaps (.ribs uid (.caps side frame))
  | ribsAt (i : Nat) (side : Side) (frame : Frame) : AsksCaps (.ribsAt i (.caps side frame))

omit [Scalar K] in
theorem caused_ne_unbuiltCap {uid : String} (e : Error K) (h : e.Caused) :
    e ≠ .config uid .unbuiltCap := by
  rintro rfl
  exact h

/-- Caps are refused only because of what they are built from. -/
theorem caps_ne_unbuiltCap (hs : s.Sound) {q : Question K (Shape K)} (hq : AsksCaps q)
    (uid : String) : s.answer q ≠ .error (.config uid .unbuiltCap) := by
  have hmatch := match_self hs
  have hlookups := hmatch.lookupsMatch
  have hindex (what : Counted) (i count : Nat) :
      (.index what i count : Error K) ≠ .config uid .unbuiltCap := nofun
  -- a part may be missing, but if it is found so are its caps
  have hasked : Query.YieldsIs (· ≠ .config uid .unbuiltCap) s.design q.query := by
    cases hq with
    | spar x side frame =>
      have hname : Naming.same.spar x x := rfl
      have hspar := Query.parallel_spar hlookups hname
      refine (Query.YieldsIs.of_planned ((Query.spar_planned x).mono caused_ne_unbuiltCap)
        hspar).bind fun t ht => ?_
      exact (Query.yieldsIs_sparCapsOn hlookups side frame (hspar.rel_self ht)).mono
        caused_ne_unbuiltCap
    | sparAt i side frame =>
      have hspar := Query.parallel_sparAt hmatch i
      refine (Query.YieldsIs.of_planned (Query.sparAt_planned hindex i) hspar).bind fun t ht => ?_
      exact (Query.yieldsIs_sparCapsOn hlookups side frame (hspar.rel_self ht)).mono
        caused_ne_unbuiltCap
    | ribs x side frame =>
      have hname : Naming.same.ribs x x := rfl
      have hribs := Query.parallel_ribs hlookups hname
      refine (Query.YieldsIs.of_planned ((Query.ribs_planned x).mono caused_ne_unbuiltCap)
        hribs).bind fun r hr => ?_
      exact (Query.yieldsIs_ribsCapsOn hlookups side frame (hribs.rel_self hr)).mono
        caused_ne_unbuiltCap
    | ribsAt i side frame =>
      have hribs := Query.parallel_ribsAt hmatch i
      refine (Query.YieldsIs.of_planned (Query.ribsAt_planned hindex i) hribs).bind fun r hr => ?_
      exact (Query.yieldsIs_ribsCapsOn hlookups side frame (hribs.rel_self hr)).mono
        caused_ne_unbuiltCap
  obtain ⟨x, hx, hne⟩ := hasked
  have hanswer : s.answer q = x := (hx s.store hs.coherent).1
  rw [hanswer]
  rintro rfl
  exact hne rfl

/-! ### Results -/

/-- **Ribs are found where they are counted, and caps where they are declared.**  Whatever was
asked or changed before, an index of ribs is refused exactly if it is not counted, and there are as
many surfaces, midplane points and faces as ribs.  Caps are never built without the side that is
asked for. -/
theorem ribs_aligned (h : s.Reachable) :
    (∀ r ∈ s.design.ribs.items, ∀ c, s.answer (.ribs r.uid .count) = .ok c → s.RibsAligned r c) ∧
      ∀ q, AsksCaps q → ∀ uid, s.answer q ≠ .error (.config uid .unbuiltCap) := by
  have hs := sound_of_reachable h
  refine ⟨fun r hr c hcount => ?_, fun q hq uid => caps_ne_unbuiltCap hs hq uid⟩
  exact ribsAligned hs (hs.valid.ribs.get?_eq_some_iff.2 ⟨hr, rfl⟩) hcount

/-! ### A rib that closes the wing and one that is trimmed -/

/-- A straight wing, flat on its upper side. -/
def flatWing : Wing Float where
  uid := "wing"
  sections := [⟨"inner", ⟨0, 0, 0⟩, 1, 0.5⟩, ⟨"outer", ⟨0, 10, 0⟩, 1, 0.5⟩]
  two_le_length := by decide
  profile := [⟨0, 0⟩, ⟨1, 0⟩, ⟨0.5, -0.5⟩]
  trailingIndex := 1
  transformation := Transform.identity

/-- A rib at the inner end of the wing and one half way to the other end. -/
def halfSet : RibSet Float where
  ribReference := .leadingEdge
  start := .eta 0
  stop := .eta 0.5
  ribStart := .leadingEdge
  ribEnd := .trailingEdge
  count := .numberOfRibs 2
  crossing := .cross
  rotation := ⟨0, some .globalX⟩

/-- The ribs of the set. -/
def halfRibs : RibsDefinition Float := ⟨"ribs", .set halfSet, .plain⟩

/-- Where the ribs stand on the leading edge. -/
def halfSpread : RibSpread Float := ⟨0, 0.5, Scalar.abs (0.5 - 0) / ((2 - 1 : Nat) : Float), 2⟩

/-- The parameter of a rib. -/
def halfEta (i : Nat) : Float := halfSpread.etaStart + halfSpread.offset * (i : Float)

/-- The up vector of the second rib, turned for its direction. -/
def halfUp (up dir : Vec Float) : Vec Float :=
  up.rotate dir (halfRibs.crossSection.xRotation - rightAngle)

/-- The strip between two sides is met by both lines, and something of it is inside the shell. -/
def Crosses (shell : Shape Float) (front back w v : Wire Float) : Prop :=
  (w.parameters = [0, 1] ∧ v.parameters = [0, 1] ∧ Face.strip w v 0 1 ≠ []) ∧
    (Face.firstHit? ⟨Face.strip w v 0 1⟩ front).isSome ∧
    (Face.firstHit? ⟨Face.strip w v 0 1⟩ back).isSome ∧
    (Query.trim "ribs" ⟨Face.strip w v 0 1⟩ shell).isOk

instance (shell : Shape Float) (front back w v : Wire Float) :
    Decidable (Crosses shell front back w v) := inferInstanceAs (Decidable (_ ∧ _))

/-- The first rib closes the wing, and both edges of the wing start there. -/
theorem exists_innerFace_flatWing : ∃ g, flatWing.geometry = .ok g ∧
    ∃ front, flatWing.leadingEdge = .ok front ∧ ∃ back, flatWing.trailingEdge = .ok back ∧
      (g.innerFace.firstHit? front).isSome ∧ (g.innerFace.firstHit? back).isSome := by
  decide +kernel

/-- The second rib stands across the wing. -/
theorem exists_sides_halfRibs : ∃ g, flatWing.geometry = .ok g ∧
    ∃ front, flatWing.leadingEdge = .ok front ∧ ∃ back, flatWing.trailingEdge = .ok back ∧
      ∃ up, flatWing.midplaneNormal (flatWing.etaXsi (front.pointAt (halfEta 1))).1 = .ok up ∧
      ∃ dir ∈ (-(Vec.xAxis : Vec Float).rotate Vec.zAxis 0).normalize? tolerance,
      ∃ w ∈ Wire.segment?
        (front.pointAt (halfEta 1) - g.loft.diagonal • dir + g.loft.diagonal • halfUp up dir)
        (front.pointAt (halfEta 1) - g.loft.diagonal • dir - g.loft.diagonal • halfUp up dir),
      ∃ v ∈ Wire.segment?
        (front.pointAt (halfEta 1) + g.loft.diagonal • dir - g.loft.diagonal • halfUp up dir)
        (front.pointAt (halfEta 1) + g.loft.diagonal • dir + g.loft.diagonal • halfUp up dir),
      Crosses g.loft front back (Face.orient (halfUp up dir) w)
        (Face.orient (halfUp up dir) v) := by
  decide +kernel

/-- Two straight sides bound a single strip. -/
theorem stripBounds_unit {w v : Wire Float} (hw : w.parameters = [0, 1])
    (hv : v.parameters = [0, 1]) : Face.stripBounds w v = [0, 1] := by
  have hle : totalLE (0 : Float) 0 = true ∧ totalLE (0 : Float) 1 = true ∧
      totalLE (1 : Float) 0 = false ∧ totalLE (1 : Float) 1 = true := by decide +kernel
  have hsorted : ([0, 1, 0, 1] : List Float).mergeSort totalLE = [0, 0, 1, 1] := by
    simp [List.mergeSort, List.MergeSort.Internal.splitInTwo, hle]
  rw [Face.stripBounds, hw, hv]
  simp only [List.cons_append, List.nil_append]
  rw [hsorted]
  decide +kernel

theorem ruled_strip {w v : Wire Float} (hw : w.parameters = [0, 1]) (hv : v.parameters = [0, 1])
    (hne : Face.strip w v 0 1 ≠ []) : Face.ruled w v = .ok ⟨Face.strip w v 0 1⟩ := by
  have hfacets : (List.zipWith (Face.strip w v) (Face.stripBounds w v)
      (Face.stripBounds w v).tail).flatten = Face.strip w v 0 1 := by
    rw [stripBounds_unit hw hv, List.tail_cons, List.zipWith_cons_cons, List.zipWith_nil_right,
      List.flatten_singleton]
  rw [Face.ruled, hfacets]
  split
  next h => exact absurd h hne
  next => rfl

section HalfRibs

variable {d : Design Float} (hwing : d.wing = flatWing)
include hwing

theorem yields_wingGeometry_flatWing {g : WingGeometry Float} (hg : flatWing.geometry = .ok g) :
    Query.Yields d Query.wingGeometry (.ok g) :=
  .bind_wing (.cached Store.filledBy_wing (.ofExcept_ok (hwing ▸ hg)))

theorem yields_leadingEdge_flatWing {w : Wire Float} (hw : flatWing.leadingEdge = .ok w) :
    Query.Yields d (Query.line .leadingEdge) (.ok w) := .bind_wing (.ofExcept_ok (hwing ▸ hw))

theorem yields_trailingEdge_flatWing {w : Wire Float} (hw : flatWing.trailingEdge = .ok w) :
    Query.Yields d (Query.line .trailingEdge) (.ok w) := .bind_wing (.ofExcept_ok (hwing ▸ hw))

/-- A face that both edges of the wing meet has a rib. -/
theorem exists_cutBetweenLines_halfRibs {face : Face Float} {front back : Wire Float}
    (hfront : flatWing.leadingEdge = .ok front) (hback : flatWing.trailingEdge = .ok back)
    (hstart : (face.firstHit? front).isSome) (hstop : (face.firstHit? back).isSome)
    (isTargetFace : Bool) : ∃ cut,
      Query.Yields d (Query.cutBetweenLines halfRibs face isTargetFace) (.ok cut) ∧
        cut.face = face ∧ cut.isTargetFace = isTargetFace := by
  obtain ⟨start, hstart⟩ := Option.isSome_iff_exists.1 hstart
  obtain ⟨stop, hstop⟩ := Option.isSome_iff_exists.1 hstop
  have hstart : Query.Yields d (Query.pointOnLine "ribs" face .leadingEdge) (.ok start) :=
    (yields_leadingEdge_flatWing hwing hfront).bind_ok (.require_some hstart)
  have hstop : Query.Yields d (Query.pointOnLine "ribs" face .trailingEdge) (.ok stop) :=
    (yields_trailingEdge_flatWing hwing hback).bind_ok (.require_some hstop)
  exact ⟨⟨face, isTargetFace, start, stop⟩, hstart.bind_ok (hstop.bind_ok (.pure _)), rfl, rfl⟩

/-- The first rib has the face that closes the wing. -/
theorem exists_first_halfRibs : ∃ cut,
    Query.Yields d (Query.setRib halfRibs halfSet halfSpread 0) (.ok cut) ∧
      cut.isTargetFace = true := by
  obtain ⟨g, hg, front, hfront, back, hback, hstart, hstop⟩ := exists_innerFace_flatWing
  obtain ⟨cut, hcut, -, htarget⟩ :=
    exists_cutBetweenLines_halfRibs hwing hfront hback hstart hstop true
  have helement (isAtEnd : Bool) :
      Query.atBoundary halfSet SetBoundary.elementUid? true isAtEnd = none := by
    cases isAtEnd <;> rfl
  have hnear : Query.nearEnd (halfEta 0) = true ∧ halfEta 0 < tolerance := by decide +kernel
  refine ⟨cut, ?_, htarget⟩
  unfold Query.setRib
  dsimp only
  rw [beq_self_eq_true, helement]
  change Query.Yields d (Query.setCut halfRibs halfSet (halfEta 0) none _) _
  unfold Query.setCut
  dsimp only
  rw [if_pos hnear.1]
  refine .bind_wing ((yields_wingGeometry_flatWing hwing hg).bind_ok ?_)
  rw [if_pos hnear.2]
  dsimp only
  rw [Query.trimSection_eq rfl rfl, pure_bind]
  exact hcut

/-- The second rib is cut from an oversized face, of which something is inside the wing. -/
theorem exists_second_halfRibs : ∃ cut,
    Query.Yields d (Query.setRib halfRibs halfSet halfSpread 1) (.ok cut) ∧
      cut.isTargetFace = false ∧ ∃ g f, flatWing.geometry = .ok g ∧
        Query.trim "ribs" cut.face g.loft = .ok f := by
  obtain ⟨g, hg, front, hfront, back, hback, up, hup, dir, hdir, w, hw, v, hv, hcross⟩ :=
    exists_sides_halfRibs
  obtain ⟨⟨hwfits, hvfits, hne⟩, hstart, hstop, htrim⟩ := hcross
  obtain ⟨f, htrim⟩ := exists_eq_ok_of_isOk htrim
  obtain ⟨cut, hcut, hface, htarget⟩ :=
    exists_cutBetweenLines_halfRibs hwing hfront hback hstart hstop false
  have hgeometry := yields_wingGeometry_flatWing hwing hg
  have hsize : Query.Yields d Query.size (.ok g.loft.diagonal) :=
    Query.Yields.bind_ok (hgeometry.bind_ok (.pure _)) (.pure _)
  have hpoint : Query.Yields d (Query.linePoint .leadingEdge (halfEta 1))
      (.ok (front.pointAt (halfEta 1))) :=
    (yields_leadingEdge_flatWing hwing hfront).bind_ok (.pure _)
  have hsetUp : Query.Yields d
      (Query.setUp halfSet (halfEta 1) (front.pointAt (halfEta 1)) false) (.ok up) :=
    .bind_wing (.ofExcept_ok (hwing ▸ hup))
  have hdirection : Query.Yields d (Query.ribDirection "ribs" halfSet (halfEta 1)
      (front.pointAt (halfEta 1)) up) (.ok dir) :=
    Query.Yields.bind_ok (.pure _) (.require_some hdir)
  have hcutFace : Query.Yields d (Query.cutFace "ribs" (front.pointAt (halfEta 1)) dir
      (halfUp up dir) (halfUp up dir) .leadingEdge .trailingEdge) (.ok ⟨_⟩) :=
    Query.yields_cutFace hsize rfl rfl hw hv (ruled_strip hwfits hvfits hne)
  have hboundary (name? : SetBoundary Float → Option String)
      (hname : ∀ x, name? (.eta x) = none) (isAtEnd : Bool) :
      Query.atBoundary halfSet name? false isAtEnd = none := by
    cases isAtEnd
    · rfl
    · exact hname 0.5
  have hnear : Query.nearEnd (halfEta 1) = false := by decide +kernel
  refine ⟨cut, ?_, htarget, g, f, hg, hface ▸ htrim⟩
  unfold Query.setRib
  dsimp only
  change Query.Yields d (Query.setCut halfRibs halfSet (halfEta 1)
    (Query.atBoundary halfSet SetBoundary.elementUid? false _)
    (Query.atBoundary halfSet SetBoundary.sparPositionUid? false _).isSome) _
  rw [hboundary _ fun _ => rfl, hboundary _ fun _ => rfl]
  unfold Query.setCut
  dsimp only
  rw [hnear]
  exact hpoint.bind_ok (hsetUp.bind_ok (hdirection.bind_ok (hcutFace.bind_ok hcut)))

variable (hr : d.HasRibs halfRibs)
include hr

omit hwing in
theorem yields_spread_halfRibs : Query.Yields d (Query.spread halfRibs) (.ok halfSpread) :=
  .cached (Store.filledBy_spread hr) (.bind_ok (.pure _) (.pure _))

/-- Both ribs have faces. -/
theorem exists_geometry_halfRibs : ∃ first second g f,
    Query.Yields d (Query.cuts halfRibs) (.ok [first, second]) ∧ second.isTargetFace = false ∧
      flatWing.geometry = .ok g ∧ Query.trim "ribs" second.face g.loft = .ok f ∧
        Query.Yields d (Query.ribsGeometry halfRibs) (.ok (.ofFaces [first.face, f])) := by
  obtain ⟨first, hfirst, htarget⟩ := exists_first_halfRibs hwing
  obtain ⟨second, hsecond, hoversized, g, f, hg, htrim⟩ := exists_second_halfRibs hwing
  have hcuts : Query.Yields d (Query.cuts halfRibs) (.ok [first, second]) := by
    refine .cached (Store.filledBy_cuts hr) ((yields_spread_halfRibs hr).bind_ok ?_)
    refine hfirst.bind_ok (Query.Yields.bind_ok ?_ (.pure _))
    exact hsecond.bind_ok (Query.Yields.bind_ok (.pure _) (.pure _))
  refine ⟨first, second, g, f, hcuts, hoversized, hg, htrim, ?_⟩
  have hfaces : [first, second].mapM (Query.ribFace "ribs" g.loft) = .ok [first.face, f] := by
    have hone : Query.ribFace "ribs" g.loft first = .ok first.face := if_pos htarget
    have htwo : Query.ribFace "ribs" g.loft second = .ok f := by
      rw [Query.ribFace, hoversized]
      exact htrim
    simp only [List.mapM_cons, List.mapM_nil, hone, htwo]
    rfl
  have hgeometry := Query.yields_ribsGeometry hr hcuts (yields_wingGeometry_flatWing hwing hg)
  rw [show halfRibs.uid = "ribs" from rfl, hfaces] at hgeometry
  exact hgeometry

end HalfRibs

/-- Both ribs of a wing have faces, and the second one is trimmed, after the structure was
invalidated too. -/
theorem ribs_aligned_halfRibs :
    ∃ s, ofDescription flatWing ⟨[], [], [halfRibs.declaration]⟩ = .ok s ∧
      s.invalidated.RibsAligned halfRibs 2 ∧
      (∃ g w cut f, s.invalidated.answer (.ribs "ribs" (.geometry .wing)) = .ok g ∧
        s.invalidated.answer .wingGeometry = .ok w ∧
        s.invalidated.answer (.ribs "ribs" (.cut 2)) = .ok cut ∧ cut.isTargetFace = false ∧
        f ∈ g.faces ∧ Query.Trimmed cut.face w.loft (.ok f)) ∧
      ∀ q, AsksCaps q → ∀ uid, s.invalidated.answer q ≠ .error (.config uid .unbuiltCap) := by
  have hvalid : (⟨[], [], [halfRibs.declaration]⟩ : Description Float).Valid := by decide
  obtain ⟨s, hs⟩ := exists_ofDescription flatWing (Description.loadable_iff_valid.2 hvalid)
  obtain ⟨-, hwing, -, -⟩ := ofDescription_ok hs
  have hr := hasRibs_of_ofDescription hs (r := halfRibs) (List.mem_singleton.2 rfl)
  have hreach := (Reachable.load hs).invalidate
  have hsound := sound_of_reachable hreach
  have hcount : s.invalidated.answer (.ribs "ribs" .count) = .ok 2 :=
    answer_ribs hsound hr (q := .count) ((yields_spread_halfRibs hr).bind_ok (.pure _))
  obtain ⟨haligned, hcaps⟩ := ribs_aligned hreach
  have haligned := haligned _ (hsound.valid.ribs.get?_eq_some_iff.1 hr).1 _ hcount
  obtain ⟨first, second, g, f, hcuts, hoversized, hg, htrim, hgeometry⟩ :=
    exists_geometry_halfRibs hwing hr
  have hcuts := (hcuts s.invalidated.store hsound.coherent).1
  obtain ⟨-, hcut⟩ := haligned.cuts _ hcuts
  refine ⟨s, hs, haligned, ⟨.ofFaces [first.face, f], g, second, f, ?_, ?_,
    (hcut 1 Nat.one_lt_two).1, hoversized, List.mem_cons_of_mem _ List.mem_cons_self,
    Query.trim_eq_ok_iff.1 htrim⟩, hcaps⟩
  · exact answer_ribs hsound hr (q := .geometry .wing) (hgeometry.bind_ok (.pure _))
  · exact (yields_wingGeometry_flatWing hwing hg s.invalidated.store hsound.coherent).1

end Structure

end WingBox
