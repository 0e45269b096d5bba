import WingBox.Proofs.Structure.RibPoint

/-!
# Spars thread their positions

What a structure answers about a spar fits its positions, whatever was asked or changed before.

* `Structure.hasStation_iff`: the answers about a position make its station;
* `Structure.Threads`: the line of a spar has one point for each position, in order, and there is
  one panel between any two neighbours;
* `Structure.MeasuredAlong`: with exact numbers the line runs from the first position to the last
  one, and is as long as its neighbours are apart in sum;
* `Structure.spars_thread_positions`: a spar is built exactly if its neighbours are apart, and then
  it threads its positions.
-/

namespace WingBox

open Scalar

namespace Structure

section Answers

variable {K : Type} [Scalar K] {s : Structure K}

/-- What the structure tells of a position makes a station. -/
structure HasStation (s : Structure K) (uid : String) (t : Query.Station K) : Prop where
  position : s.design.positions.get? uid = some t.position
  point : s.answer (.positionPoint uid .wing) = .ok t.point
  up : s.answer (.positionUp uid) = .ok t.up

/-- The line of a spar threads its positions, with panels between them. -/
structure Threads (s : Structure K) (spar : SparSegment K) (line : Wire K) : Prop where
  /-- There is one point for each position. -/
  length_points : line.points.length = spar.positionUids.length
  /-- The points are those of the positions, in order. -/
  points : ∀ i p, line.points[i]? = some p →
    s.answer (.spar spar.uid (.midplanePointAt (i + 1) .wing)) = .ok p
  /-- There is one panel between any two neighbours. -/
  panels : ∃ g stations shape, s.answer .wingGeometry = .ok g ∧
    List.Forall₂ s.HasStation spar.positionUids stations ∧ line.points = stations.map (·.point) ∧
    s.answer (.spar spar.uid (.cutShape .wing)) = .ok shape ∧
    shape.faces =
      List.zipWith (Query.Station.panel g.loft.diagonal) stations stations.tail ∧
    shape.faces.length = spar.positionUids.length - 1

variable (hs : s.Sound)
include hs

theorem hasStation_iff {uid : String} {t : Query.Station K} :
    s.HasStation uid t ↔ Query.Stands s.design uid t := by
  constructor
  · intro h
    have hposition := Query.yields_position h.position
    obtain ⟨x, hx⟩ := (Query.parallel_midplanePoint (match_self hs).lookupsMatch
      (Query.position_match t.position)).exists_yields
    have hpoint : Query.Yields s.design (Query.positionPoint uid .wing) x := by
      refine hposition.bind_ok ?_
      cases x with
      | error e => exact hx.bind_error
      | ok p => exact hx.bind_ok (.pure p)
    obtain rfl := hpoint.unique (yields_of_answer hs h.point)
    refine ⟨h.position, hx, ?_⟩
    obtain ⟨y, hy⟩ := (Query.parallel_upVector (match_self hs).lookupsMatch
      (Query.position_match t.position) t.point).exists_yields
    have hup : Query.Yields s.design (Query.positionUp uid) y :=
      hposition.bind_ok (hx.bind_ok hy)
    obtain rfl := hup.unique (yields_of_answer hs h.up)
    exact hy
  · intro h
    have hposition := Query.yields_position h.found
    exact ⟨h.found, answer_of_yields hs (hposition.bind_ok (h.placed.bind_ok (.pure _))),
      answer_of_yields hs (hposition.bind_ok (h.placed.bind_ok h.upright))⟩

theorem exists_wingGeometry_of_size {r : K} (hr : Query.Yields s.design Query.size (.ok r)) :
    ∃ g, s.answer .wingGeometry = .ok g ∧ r = g.loft.diagonal := by
  obtain ⟨x, hx⟩ :=
    (Query.parallel_wingGeometry (match_self hs).lookupsMatch).exists_yields
  cases x with
  | error e =>
    have hsize : Query.Yields s.design Query.size (.error e) :=
      Query.Yields.bind_error hx.bind_error
    cases hsize.unique hr
  | ok g =>
    have hg : s.answer .wingGeometry = .ok g := answer_of_yields hs hx
    exact ⟨g, hg, Except.ok.inj (hr.unique (yields_size hs hg))⟩

variable {spar : SparSegment K} (hspar : s.design.HasSpar spar)
include hspar

theorem answer_spar {α : Type} {q : SparQuestion K α} {x : Except (Error K) α}
    (hx : Query.Yields s.design (q.query spar) x) : s.answer (.spar spar.uid q) = x :=
  answer_of_yields hs ((Query.yields_spar hspar).bind_ok hx)

/-- The line of a spar is that of its panels. -/
theorem exists_panels_of_line {line : Wire K}
    (h : s.answer (.spar spar.uid (.midplaneLine .wing)) = .ok line) :
    ∃ p, Query.Yields s.design (Query.panels spar) (.ok p) ∧ p.midplaneLine = line := by
  have hlookups := (match_self hs).lookupsMatch
  have hself := Query.sparsMatch_self hlookups hspar
  obtain ⟨x, hx⟩ := (Query.parallel_panels hlookups hself).exists_yields
  cases x with
  | error e =>
    have hanswer : s.answer (.spar spar.uid (.midplaneLine .wing)) = .error e :=
      answer_spar hs hspar hx.bind_error
    cases hanswer.symm.trans h
  | ok p =>
    have hanswer : s.answer (.spar spar.uid (.midplaneLine .wing)) = .ok p.midplaneLine :=
      answer_spar hs hspar (hx.bind_ok (.pure _))
    exact ⟨p, hx, Except.ok.inj (hanswer.symm.trans h)⟩

/-- A station is asked for by the index of its position. -/
theorem answer_midplanePointAt {stations : List (Query.Station K)}
    (hstands : List.Forall₂ (Query.Stands s.design) spar.positionUids stations) {i : ℕ}
    {t : Query.Station K} (ht : stations[i]? = some t) :
    s.answer (.spar spar.uid (.midplanePointAt (i + 1) .wing)) = .ok t.point := by
  obtain ⟨hi, rfl⟩ := List.getElem?_eq_some_iff.1 ht
  have hlt : i < spar.positionUids.length := hstands.length_eq ▸ hi
  have hstation := hstands.get hlt hi
  have hposition : Query.Yields s.design (Query.Spar.positionAt spar (i + 1))
      (.ok stations[i].position) := by
    unfold Query.Spar.positionAt
    dsimp only
    rw [Query.checkIndex_of_lt hlt]
    refine Query.Yields.bind_ok (.ofExcept _) ?_
    exact (Query.Yields.require_some (List.getElem?_eq_getElem hlt)).bind_ok
      (Query.yields_position hstation.found)
  exact answer_spar hs hspar (hposition.bind_ok (hstation.placed.bind_ok (.pure _)))

/-- A spar that is built threads its positions. -/
theorem threads_of_line [Vec.SelfNear K] {line : Wire K}
    (h : s.answer (.spar spar.uid (.midplaneLine .wing)) = .ok line) : s.Threads spar line := by
  obtain ⟨p, hp, rfl⟩ := exists_panels_of_line hs hspar h
  have hlookups := (match_self hs).lookupsMatch
  have hself := Query.sparsMatch_self hlookups hspar
  obtain ⟨stations, r, hstands, htwo, hr, hpanels⟩ :=
    (Query.ensures_stations hlookups hself).holds hp
  obtain ⟨-, hpoints, hshape⟩ := (Query.panelsOf_eq_ok_iff htwo).1 hpanels
  obtain ⟨g, hg, rfl⟩ := exists_wingGeometry_of_size hs hr
  constructor
  case length_points => rw [hpoints, List.length_map, hstands.length_eq]
  case points =>
    intro i q hq
    rw [hpoints, List.getElem?_map, Option.map_eq_some_iff] at hq
    obtain ⟨t, ht, rfl⟩ := hq
    exact answer_midplanePointAt hs hspar hstands ht
  case panels =>
    refine ⟨g, stations, p.cutShape, hg, ?_, hpoints, ?_, ?_, ?_⟩
    · exact hstands.imp fun _ _ h => (hasStation_iff hs).2 h
    · exact answer_spar hs hspar (hp.bind_ok (.pure _))
    · rw [hshape]
      rfl
    · rw [hshape, Shape.ofFaces, List.length_zipWith, List.length_tail, ← hstands.length_eq]
      omega

/-- What is answered about a spar whose stations are found. -/
theorem answers_of_stations {g : WingGeometry K} (hg : s.answer .wingGeometry = .ok g)
    {stations : List (Query.Station K)}
    (hstations : List.Forall₂ s.HasStation spar.positionUids stations)
    (htwo : 2 ≤ stations.length) {x : Except (Error K) (SparPanels K)}
    (hx : Query.panelsOf spar g.loft.diagonal s.design.wing stations = x) :
    s.answer (.spar spar.uid (.midplaneLine .wing)) = x.map (·.midplaneLine) ∧
      s.answer (.spar spar.uid (.cutShape .wing)) = x.map (·.cutShape) := by
  have hpanels : Query.Yields s.design (Query.panels spar) x := hx ▸ Query.yields_panels hspar
    (hstations.imp fun _ _ h => (hasStation_iff hs).1 h) htwo (yields_size hs hg)
  cases x with
  | error e =>
    exact ⟨answer_spar hs hspar hpanels.bind_error, answer_spar hs hspar hpanels.bind_error⟩
  | ok p =>
    exact ⟨answer_spar hs hspar (hpanels.bind_ok (.pure _)),
      answer_spar hs hspar (hpanels.bind_ok (.pure _))⟩

end Answers

/-! ### Lines with exact numbers -/

/-- The line of a spar runs from its first to its last position, and is as long as neighbouring
positions are apart. -/
structure MeasuredAlong (s : Structure ℝ) (spar : SparSegment ℝ) (line : Wire ℝ) : Prop where
  start : ∃ p, s.answer (.spar spar.uid (.point 0)) = .ok p ∧
    s.answer (.spar spar.uid (.midplanePointAt 1 .wing)) = .ok p
  stop : ∃ p, s.answer (.spar spar.uid (.point 1)) = .ok p ∧
    s.answer (.spar spar.uid (.midplanePointAt spar.positionUids.length .wing)) = .ok p
  length : s.answer (.spar spar.uid .length) =
    .ok (List.zipWith Vec.distance line.points line.points.tail).sum

theorem measuredAlong_of_line {s : Structure ℝ} (hs : s.Sound) {spar : SparSegment ℝ}
    (hspar : s.design.HasSpar spar) {line : Wire ℝ}
    (h : s.answer (.spar spar.uid (.midplaneLine .wing)) = .ok line) :
    s.MeasuredAlong spar line := by
  have hthreads := threads_of_line hs hspar h
  obtain ⟨p, hp, rfl⟩ := exists_panels_of_line hs hspar h
  have hspaced : p.midplaneLine.Spaced := by
    have hlookups := (match_self hs).lookupsMatch
    have hself := Query.sparsMatch_self hlookups hspar
    obtain ⟨positions, points, hdrawn⟩ := (Query.ensures_panels hlookups hself).holds hp
    obtain ⟨line, -, hline⟩ := hdrawn.drawn
    exact Wire.spaced_of_ofPoints? hline
  have hne := p.midplaneLine.points_ne_nil
  have hpoint (t : ℝ) : s.answer (.spar spar.uid (.point t)) = .ok (p.midplaneLine.pointAt t) :=
    answer_spar hs hspar (hp.bind_ok (.pure _))
  constructor
  case start =>
    refine ⟨p.midplaneLine.start, ?_, hthreads.points 0 _ ?_⟩
    · rw [hpoint, Wire.pointAt_start hspaced]
    · rw [← List.head?_eq_getElem?, List.head?_eq_some_head hne]
      rfl
  case stop =>
    have htwo := p.midplaneLine.two_le_length
    have hlast : spar.positionUids.length - 1 + 1 = spar.positionUids.length := by
      rw [← hthreads.length_points]
      omega
    refine ⟨p.midplaneLine.stop, ?_, ?_⟩
    · rw [hpoint, Wire.pointAt_stop hspaced]
    · rw [← hlast]
      refine hthreads.points _ _ ?_
      rw [← hthreads.length_points, ← List.getLast?_eq_getElem?, List.getLast?_eq_some_getLast hne]
      rfl
  case length =>
    have hlength : s.answer (.spar spar.uid .length) = .ok p.midplaneLine.length :=
      answer_spar hs hspar (hp.bind_ok (.pure _))
    rw [hlength, Wire.length_eq, Wire.edges, List.map_zipWith]
    congr 3
    funext a b
    exact Vec.distance_comm b a

/-! ### Spars and positions -/

/-- **Spars thread their positions.**  The line of a spar has the points of its positions, in order
and each of them once, with one panel between any two.  If all stations are found, the spar is built
exactly if neighbours are apart, and the first two that coincide are refused.  With exact numbers
the line starts and ends in the outermost positions and is as long as neighbours are apart. -/
theorem spars_thread_positions :
    (∀ {K : Type} [Scalar K] [Vec.SelfNear K] {s : Structure K}, s.Reachable →
      ∀ spar ∈ s.design.spars.items,
        (∀ line, s.answer (.spar spar.uid (.midplaneLine .wing)) = .ok line →
          s.Threads spar line) ∧
        ∀ g stations, s.answer .wingGeometry = .ok g →
          List.Forall₂ s.HasStation spar.positionUids stations →
            ((∃ line, s.answer (.spar spar.uid (.midplaneLine .wing)) = .ok line) ↔
              stations.IsChain Query.Station.Apart) ∧
            ((∃ j a b, stations[j]? = some a ∧ stations[j + 1]? = some b ∧ a.Coincide b) →
              ∃ j a b, stations[j]? = some a ∧ stations[j + 1]? = some b ∧ a.Coincide b ∧
                (stations.take (j + 1)).IsChain (fun a b => ¬ a.Coincide b) ∧
                s.answer (.spar spar.uid (.midplaneLine .wing)) =
                  .error (.geometry spar.uid (.coincidentPositions (j + 1))) ∧
                s.answer (.spar spar.uid (.cutShape .wing)) =
                  .error (.geometry spar.uid (.coincidentPositions (j + 1))))) ∧
    ∀ {s : Structure ℝ}, s.Reachable → ∀ spar ∈ s.design.spars.items, ∀ line,
      s.answer (.spar spar.uid (.midplaneLine .wing)) = .ok line → s.MeasuredAlong spar line := by
  refine ⟨fun {K} _ _ {s} h spar hmem => ?_, fun {s} h spar hmem line hline => ?_⟩
  · have hs := sound_of_reachable h
    have hspar := hs.valid.spars.get?_eq_some_iff.2 ⟨hmem, rfl⟩
    refine ⟨fun line hline => threads_of_line hs hspar hline, fun g stations hg hstations => ?_⟩
    have htwo : 2 ≤ stations.length :=
      hstations.length_eq ▸ SparSegment.check_eq_ok_iff.1 (hs.valid.checked_spars spar hmem)
    refine ⟨⟨fun hbuilt => ?_, fun hapart => ?_⟩, fun hnear => ?_⟩
    · obtain ⟨line, hline⟩ := hbuilt
      cases hpanels : Query.panelsOf spar g.loft.diagonal s.design.wing stations with
      | error e =>
        cases (answers_of_stations hs hspar hg hstations htwo hpanels).1.symm.trans hline
      | ok p => exact ((Query.panelsOf_eq_ok_iff htwo).1 hpanels).1
    · have hlength : 2 ≤ (stations.map (·.point)).length := by rwa [List.length_map]
      have hpanels : Query.panelsOf spar g.loft.diagonal s.design.wing stations =
          .ok ⟨⟨_, hlength⟩, _⟩ := (Query.panelsOf_eq_ok_iff htwo).2 ⟨hapart, rfl, rfl⟩
      exact ⟨_, (answers_of_stations hs hspar hg hstations htwo hpanels).1⟩
    · have hnot : ¬ stations.IsChain fun a b => ¬ a.Coincide b := by
        obtain ⟨j, a, b, ha, hb, hab⟩ := hnear
        intro hchain
        obtain ⟨hj, rfl⟩ := List.getElem?_eq_some_iff.1 hb
        obtain ⟨hj', rfl⟩ := List.getElem?_eq_some_iff.1 ha
        exact List.isChain_iff_getElem.1 hchain j hj hab
      obtain ⟨j, a, b, ha, hb, hab, hbefore, herror⟩ := Query.exists_panelsOf_error hnot
      exact ⟨j, a, b, ha, hb, hab, hbefore,
        answers_of_stations hs hspar hg hstations htwo herror⟩
  · have hs := sound_of_reachable h
    exact measuredAlong_of_line hs (hs.valid.spars.get?_eq_some_iff.2 ⟨hmem, rfl⟩) hline

/-- A position half way along the wing, behind the straight line between the ends. -/
noncomputable def middlePosition : SparPosition ℝ := ⟨"middle", .eta 0.5, 0.5⟩

/-- A spar with a kink. -/
noncomputable def kinkedSpar : SparSegment ℝ := ⟨"front", ["root", "middle", "tip"], .plain⟩

/-- A spar that does not leave its first position. -/
noncomputable def shortSpar : SparSegment ℝ := ⟨"short", ["root", "root"], .plain⟩

/-- The spars with their positions. -/
noncomputable def kinkedDescription : Description ℝ :=
  ⟨[rootPosition, middlePosition, tipPosition], [kinkedSpar, shortSpar], []⟩

/-- The station at the inner end. -/
noncomputable def rootStation : Query.Station ℝ :=
  ⟨rootPosition, (WingEnd.inner.sectionOf exactWing).chordPoint 0.3, Vec.zAxis⟩

/-- The station half way along the wing. -/
noncomputable def middleStation : Query.Station ℝ :=
  ⟨middlePosition, exactWing.point 0.5 0.5, Vec.zAxis⟩

/-- The station at the outer end. -/
noncomputable def tipStation : Query.Station ℝ :=
  ⟨tipPosition, (WingEnd.outer.sectionOf exactWing).chordPoint 0.3, Vec.zAxis⟩

/-- Neighbouring stations are half a wing apart. -/
theorem isChain_kinkedStations :
    [rootStation, middleStation, tipStation].IsChain Query.Station.Apart := by
  have hfar {a b : Query.Station ℝ} (hab : b.point.y - a.point.y = 5) : a.Apart b := by
    refine Query.Station.apart_iff.2 (lt_of_lt_of_le ?_ (Vec.abs_y_le_norm _))
    rw [Vec.sub_y, hab]
    norm_num [tolerance]
  unfold rootStation middleStation tipStation
  refine .cons_cons (hfar ?_) (.cons_cons (hfar ?_) (.singleton _))
  · rw [WingSection.chordPoint_y, point_half]
    exact sub_zero 5
  · rw [WingSection.chordPoint_y, point_half]
    change (10 : ℝ) - 5 = 5
    norm_num

theorem stands_kinkedDescription {s : Structure ℝ}
    (h : ofDescription exactWing kinkedDescription = .ok s) :
    Query.Stands s.design "root" rootStation ∧ Query.Stands s.design "middle" middleStation ∧
      Query.Stands s.design "tip" tipStation := by
  have hwing := (ofDescription_ok h).2.1
  have hchecked : s.design.wing.Checked := hwing ▸ checked_exactWing
  have hroot := Query.yields_midplanePoint (e := .inner) hchecked (p := rootPosition) (.inl rfl)
  have htip := Query.yields_midplanePoint (e := .outer) hchecked (p := tipPosition) (.inl rfl)
  have hmiddle : Query.Yields s.design (Query.midplanePoint middlePosition)
      (.ok (s.design.wing.point 0.5 0.5)) := .bind_wing (.pure _)
  rw [hwing] at hroot htip hmiddle
  have hfirst := position_of_ofDescription h (p := rootPosition) List.mem_cons_self
  have hsecond := position_of_ofDescription h (p := middlePosition)
    (List.mem_cons_of_mem _ List.mem_cons_self)
  have hthird := position_of_ofDescription h (p := tipPosition)
    (List.mem_cons_of_mem _ (List.mem_cons_of_mem _ List.mem_cons_self))
  exact ⟨⟨hfirst, hroot, .pure _⟩, ⟨hsecond, hmiddle, .pure _⟩, hthird, htip, .pure _⟩

/-- A kinked spar threads its three positions, and one that does not leave its first position is
refused. -/
theorem spars_thread_positions_kinkedSpar :
    ∃ s, ofDescription exactWing kinkedDescription = .ok s ∧
      (∃ line, s.answer (.spar "front" (.midplaneLine .wing)) = .ok line ∧
        s.Threads kinkedSpar line ∧ s.MeasuredAlong kinkedSpar line) ∧
      s.answer (.spar "short" (.midplaneLine .wing)) =
        .error (.geometry "short" (.coincidentPositions 1)) := by
  have hvalid : kinkedDescription.Valid := by decide
  obtain ⟨s, hs⟩ := exists_ofDescription exactWing (Description.loadable_iff_valid.2 hvalid)
  obtain ⟨-, hwing, hdesc, -⟩ := ofDescription_ok hs
  have hsound := Sound.load hs
  have hspars : s.design.spars.items = [kinkedSpar, shortSpar] :=
    congrArg Description.sparSegments hdesc
  have hkinked : kinkedSpar ∈ s.design.spars.items := hspars ▸ List.mem_cons_self
  have hshort : shortSpar ∈ s.design.spars.items :=
    hspars ▸ List.mem_cons_of_mem _ List.mem_cons_self
  obtain ⟨hroot, hmiddle, htip⟩ := stands_kinkedDescription hs
  have hroot := (hasStation_iff hsound).2 hroot
  have hmiddle := (hasStation_iff hsound).2 hmiddle
  have htip := (hasStation_iff hsound).2 htip
  obtain ⟨g, hg, -⟩ := exists_wingGeometry hwing
  have hg : s.answer .wingGeometry = .ok g := answer_of_yields hsound hg
  obtain ⟨hany, hexact⟩ := spars_thread_positions
  refine ⟨s, hs, ?_, ?_⟩
  · obtain ⟨hthreads, hbuilt⟩ := hany (.load hs) kinkedSpar hkinked
    obtain ⟨line, hline⟩ := (hbuilt g _ hg (.cons hroot (.cons hmiddle (.cons htip .nil)))).1.2
      isChain_kinkedStations
    exact ⟨line, hline, hthreads line hline, hexact (.load hs) kinkedSpar hkinked line hline⟩
  · have hnear : rootStation.Coincide rootStation := by
      rw [Query.Station.Coincide, sub_self, Vec.norm_zero]
      exact tolerance_pos.le
    obtain ⟨-, hbuilt⟩ := hany (.load hs) shortSpar hshort
    obtain ⟨j, a, b, -, hb, -, -, herror, -⟩ :=
      (hbuilt g _ hg (.cons hroot (.cons hroot .nil))).2 ⟨0, _, _, rfl, rfl, hnear⟩
    -- there are only two positions
    cases j with
    | zero => exact herror
    | succ j => cases hb

end Structure

end WingBox
