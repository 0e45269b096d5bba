import WingBox.Proofs.Exact.Crossing
import WingBox.Proofs.Structure.RibPoint

/-!
# Sets that are bounded by spar positions

A spar position bounds a set of ribs at the parameter at which its reference spar crosses the plane
of the rib through the position.  The spar may cross this plane several times.

* `Query.ensures_positionParameter`: the first crossing is taken;
* `Structure.ribs_bounded`: so a set is bounded at its position exactly if the spar is clear of the
  plane before it.  Else it is bounded no later than at the position before.
-/

namespace WingBox

open Scalar

/-- A plane goes through its origin. -/
theorem Plane.signedDistance_of_across? {p n : Vec ℝ} {plane : Plane ℝ}
    (h : Plane.across? p n = some plane) : plane.signedDistance p = 0 := by
  obtain ⟨v, -, rfl⟩ := Option.map_eq_some_iff.1 h
  simp [signedDistance, Vec.dot]

/-- Elements of one list belong to elements of the other one. -/
theorem exists_mem_of_forall₂ {α β : Type} {R : α → β → Prop} {as : List α} {bs : List β}
    (h : List.Forall₂ R as bs) {a : α} (ha : a ∈ as) : ∃ b ∈ bs, R a b := by
  induction h with
  | nil => cases ha
  | cons hab _ ih =>
    rcases List.mem_cons.1 ha with rfl | ha
    · exact ⟨_, List.mem_cons_self, hab⟩
    · obtain ⟨b, hb, hab⟩ := ih ha
      exact ⟨b, List.mem_cons_of_mem _ hb, hab⟩

namespace Query

section Boundary

variable {d : Design ℝ}

/-- The plane of the rib through a spar position first meets the reference line at the
parameter. -/
structure MeetsAt (d : Design ℝ) (uid : String) (set : RibSet ℝ) (name : String) (eta : ℝ)
    (w : Wire ℝ) (p : Vec ℝ) (plane : Plane ℝ) : Prop where
  /-- The reference line. -/
  line : Yields d (Query.line set.ribReference) (.ok w)
  /-- It is a spar through the position. -/
  onSpar : ∃ s, set.ribReference = .spar s.uid ∧ d.HasSpar s ∧ name ∈ s.positionUids
  /-- The point of the position. -/
  position : ∃ x, d.positions.get? name = some x ∧ Yields d (midplanePoint x) (.ok p)
  /-- The plane of the rib through this point. -/
  plane_eq : ∃ dir, Yields d (ribDirection uid set (w.project p) p Vec.zAxis) (.ok dir) ∧
    Plane.across? p (dir.cross Vec.zAxis) = some plane
  /-- The first crossing. -/
  crossing : plane.firstCrossing? w = some eta

/-- A spar position may bound a set if the reference line is a spar through it. -/
theorem ensures_requireOnSpar (hindexed : d.Indexed) {uid name : String} {l : NamedLine} :
    Ensures d (requireOnSpar uid name l) fun _ =>
      ∃ s, l = .spar s.uid ∧ d.HasSpar s ∧ name ∈ s.positionUids := by
  cases l with
  | leadingEdge | trailingEdge => exact ⟨_, .throw _, nofun⟩
  | spar x =>
    refine (ensures_spar x).bind fun s hs => ?_
    obtain rfl : s.uid = x := (hindexed.spars.get?_eq_some_iff.1 hs).2
    split
    next hmem => exact .pure ⟨s, rfl, hs, hmem⟩
    next => exact ⟨_, .throw _, nofun⟩

variable (h : d.LookupsMatch .same d) (hindexed : d.Indexed) {r : RibsDefinition ℝ}
  (hr : d.RibsMatch .same d r r) {set : RibSet ℝ} (hset : r.positioning = .set set)
include h hindexed hr hset

/-- Of all crossings of the reference spar with the plane of the rib the first one is taken. -/
theorem ensures_positionParameter {name : String} :
    Ensures d (boundaryParameter r.uid set (.sparPositionUid name)) fun eta =>
      ∃ w p plane, MeetsAt d r.uid set name eta w p plane := by
  have hx : Naming.same.Owner r.uid r.uid := .ribs hr.toMatch.uid
  have hmatch := set_match hr hset
  refine (ensures_requireOnSpar hindexed).bind fun _ hspar => ?_
  refine (ensures_position name).bind fun x hname => ?_
  refine (Ensures.of_parallel (parallel_midplanePoint h (position_match x))).bind fun p hp => ?_
  refine (Ensures.of_parallel (parallel_line h hmatch.ribReference)).bind fun w hw => ?_
  refine (Ensures.of_parallel (parallel_ribDirection h hx hmatch _ p Vec.zAxis)).bind
    fun dir hdir => ?_
  refine (Ensures.require fun plane hplane => hplane).bind fun plane hplane => ?_
  refine .require fun eta heta => ⟨w, p, plane, ?_⟩
  exact {
    line := hw
    onSpar := hspar
    position := ⟨x, hname, hp⟩
    plane_eq := ⟨dir, hdir, hplane⟩
    crossing := heta }

omit hr hset in
/-- The position that bounds a set is one of the points of the reference line. -/
theorem MeetsAt.mem_points {uid name : String} {eta : ℝ} {w : Wire ℝ} {p : Vec ℝ}
    {plane : Plane ℝ} (hmeets : MeetsAt d uid set name eta w p plane) :
    p ∈ w.points := by
  obtain ⟨s, hl, hs, hmem⟩ := hmeets.onSpar
  obtain ⟨x, hname, hp⟩ := hmeets.position
  have hdrawn : LineDrawn d (.spar s.uid) w := (ensures_line h hindexed).holds (hl ▸ hmeets.line)
  generalize hl' : NamedLine.spar s.uid = l at hdrawn
  cases hdrawn with
  | leadingEdge _ | trailingEdge _ => cases hl'
  | spar hs' hthrough =>
    -- the spar that is found is the one that names the position
    have huid := NamedLine.spar.inj hl'
    rw [Design.HasSpar, ← huid] at hs'
    obtain rfl := Option.some.inj (hs.symm.trans hs')
    obtain ⟨x', hx', hname'⟩ := exists_mem_of_forall₂ hthrough.found hmem
    obtain rfl := Option.some.inj (hname.symm.trans hname')
    obtain ⟨q, hq, hpq⟩ := exists_mem_of_forall₂ hthrough.placed hx'
    rw [hthrough.points_eq, Except.ok.inj (hp.unique hpq)]
    exact hq

end Boundary

end Query

namespace Structure

/-- A set is bounded at the parameter `eta` by the position with the point `p` on the reference
line `w`, through the plane of the rib there. -/
structure BoundedAt (s : Structure ℝ) (r : RibsDefinition ℝ) (set : RibSet ℝ) (name : String)
    (eta : ℝ) (w : Wire ℝ) (p : Vec ℝ) (plane : Plane ℝ) : Prop where
  /-- The reference line. -/
  line : s.answer (.line set.ribReference) = .ok w
  /-- The point of the position. -/
  position : s.answer (.positionPoint name .wing) = .ok p
  /-- The point at the parameter. -/
  point : s.answer (.linePoint set.ribReference eta) = .ok (w.pointAt eta)
  /-- The plane of the rib through the position. -/
  plane_eq : ∃ dir,
    Query.fresh (Query.ribDirection r.uid set (w.project p) p Vec.zAxis) s.design = .ok dir ∧
      Plane.across? p (dir.cross Vec.zAxis) = some plane
  /-- The line goes through the position. -/
  onLine : p ∈ w.points
  /-- It is taken where it first meets the plane. -/
  firstMet : plane.FirstMet w p eta

/-- **A spar position bounds a set of ribs at that position, unless the spar crosses the plane of
the rib before.**  The first crossing of the reference spar with the plane of the rib through the
position is taken.  It is at the position if the spar is clear of the plane up to there, and no
later than at the position before if it is not. -/
theorem ribs_bounded {s : Structure ℝ} (h : s.Reachable) {r : RibsDefinition ℝ}
    (hr : r ∈ s.design.ribs.items) {set : RibSet ℝ} (hset : r.positioning = .set set)
    {name : String} {eta : ℝ}
    (heta : set.start = .sparPositionUid name ∧ s.answer (.ribs r.uid .etaStart) = .ok eta ∨
      set.stop = .sparPositionUid name ∧ s.answer (.ribs r.uid .etaStop) = .ok eta) :
    ∃ w p plane, s.BoundedAt r set name eta w p plane := by
  have hs := sound_of_reachable h
  have hfound := hs.valid.ribs.get?_eq_some_iff.2 ⟨hr, rfl⟩
  have hmatch := match_self hs
  have hlookups := hmatch.lookupsMatch
  have hself := ribsMatch_self hs hfound
  have hparameter : Query.Yields s.design
      (Query.boundaryParameter r.uid set (.sparPositionUid name)) (.ok eta) := by
    obtain ⟨hstart, hvalue⟩ | ⟨hstop, hvalue⟩ := heta
    · obtain ⟨sp, -, rfl, ha, -⟩ :=
        Query.exists_distributed hlookups hself hset (yields_of_answer_ribs hs hfound hvalue)
      rwa [← hstart]
    · obtain ⟨sp, -, rfl, -, hb, -⟩ :=
        Query.exists_distributed hlookups hself hset (yields_of_answer_ribs hs hfound hvalue)
      rwa [← hstop]
  obtain ⟨w, p, plane, hmeets⟩ :=
    (Query.ensures_positionParameter hlookups hmatch.indexed hself hset).holds hparameter
  have hspaced : w.Spaced :=
    ((Query.ensures_line hlookups hmatch.indexed).holds hmeets.line).spaced
  obtain ⟨x, hname, hp⟩ := hmeets.position
  obtain ⟨dir, hdir, hplane⟩ := hmeets.plane_eq
  refine ⟨w, p, plane, ?_⟩
  constructor
  case line => exact (hmeets.line s.store hs.coherent).1
  case position =>
    have hyields : Query.Yields s.design (Query.positionPoint name .wing) (.ok p) :=
      (Query.yields_position hname).bind_ok (hp.bind_ok (.pure _))
    exact (hyields s.store hs.coherent).1
  case point =>
    have hyields : Query.Yields s.design (Query.linePoint set.ribReference eta) (.ok _) :=
      hmeets.line.bind_ok (.pure _)
    exact (hyields s.store hs.coherent).1
  case plane_eq => exact ⟨dir, hdir.fresh_eq, hplane⟩
  case onLine => exact hmeets.mem_points hlookups hmatch.indexed
  case firstMet =>
    exact Plane.firstMet_of_firstCrossing? hspaced hmeets.crossing
      (Plane.signedDistance_of_across? hplane)

/-- Ribs along a spar up to its last position, with their planes along it as well. -/
noncomputable def alongSet : RibSet ℝ where
  ribReference := .spar "front"
  start := .eta 0
  stop := .sparPositionUid "root"
  ribStart := .leadingEdge
  ribEnd := .trailingEdge
  count := .numberOfRibs 1
  crossing := .cross
  rotation := ⟨0, some .globalY⟩

/-- The ribs of the set. -/
noncomputable def alongRibs : RibsDefinition ℝ := ⟨"ribs", .set alongSet, .plain⟩

/-- The plane along the spar, with both its ends. -/
theorem exists_plane_alongRibs : ∃ dir plane,
    (-Vec.yAxis : Vec ℝ).normalize? tolerance = some dir ∧
      Plane.across? ((WingEnd.inner.sectionOf exactWing).chordPoint 0.3) (dir.cross Vec.zAxis) =
        some plane ∧
      plane.signedDistance ((WingEnd.outer.sectionOf exactWing).chordPoint 0.3) = 0 := by
  have hunit {u : Vec ℝ} (hu : u.normSq = 1) {bound : ℝ} (hbound : bound < 1) :
      u.normalize? bound = some u := by
    have hnorm : u.norm = 1 := Vec.norm_eq zero_le_one (hu.trans (mul_one 1).symm)
    simpa using (Vec.normalize?_smul_eq_some_iff hnorm one_pos).2 ⟨hbound, rfl⟩
  have hdir : (-Vec.yAxis : Vec ℝ).normalize? tolerance = some (-Vec.yAxis) :=
    hunit (by norm_num [Vec.normSq, Vec.dot, Vec.yAxis]) (by norm_num [tolerance])
  have hnormal : ((-Vec.yAxis : Vec ℝ).cross Vec.zAxis).normalize? (tolerance * tolerance) =
      some ((-Vec.yAxis : Vec ℝ).cross Vec.zAxis) :=
    hunit (by norm_num [Vec.normSq, Vec.dot, Vec.cross, Vec.yAxis, Vec.zAxis])
      (by norm_num [tolerance])
  refine ⟨_, _, hdir, Option.map_eq_some_iff.2 ⟨_, hnormal, rfl⟩, ?_⟩
  have hinner : WingEnd.inner.sectionOf exactWing = ⟨"inner", ⟨0, 0, 0⟩, 1, 0.1⟩ := rfl
  have houter : WingEnd.outer.sectionOf exactWing = ⟨"outer", ⟨0, 10, 0⟩, 1, 0.1⟩ := rfl
  rw [hinner, houter]
  norm_num [Plane.signedDistance, Vec.dot, Vec.cross, WingSection.chordPoint,
    WingSection.trailingEdge, Vec.lerp, Vec.yAxis, Vec.zAxis]

/-- The set ends at the first position of the spar, which is at the other end of the wing. -/
theorem ribs_bounded_alongRibs :
    ∃ s, ofDescription exactWing
        ⟨[tipPosition, rootPosition], [inwardSpar], [alongRibs.declaration]⟩ = .ok s ∧
      ∃ w p plane, s.BoundedAt alongRibs alongSet "root" 0 w p plane ∧
        (w.pointAt 0).distance p = 10 := by
  have hvalid : (⟨[tipPosition, rootPosition], [inwardSpar], [alongRibs.declaration]⟩ :
      Description ℝ).Valid := by decide
  obtain ⟨s, hs⟩ := exists_ofDescription exactWing (Description.loadable_iff_valid.2 hvalid)
  have hd := hasInwardSpar_of_ofDescription hs List.mem_cons_self List.mem_cons_self
    (List.mem_cons_of_mem _ List.mem_cons_self)
  have hfound := hasRibs_of_ofDescription hs (r := alongRibs) (List.mem_singleton.2 rfl)
  have hsound := Sound.load hs
  have hline := yields_line_inwardSpar hd
  have hspaced := Wire.spaced_straight tolerance_lt_norm_chordPoint_sub.le
  obtain ⟨dir, plane, hdir, hplane, hzero⟩ := exists_plane_alongRibs
  have hpoint := Query.yields_midplanePoint (e := .inner) (hd.wing ▸ checked_exactWing)
    (p := rootPosition) (.inl rfl)
  rw [hd.wing] at hpoint
  have hon : Query.Yields s.design
      (Query.requireOnSpar "ribs" "root" (.spar "front")) (.ok ()) :=
    (Query.yields_spar hd.spar).bind_ok (.pure _)
  -- the spar starts in the plane along it
  have hcrossing : plane.firstCrossing? (Wire.straight
      ((WingEnd.outer.sectionOf exactWing).chordPoint 0.3)
      ((WingEnd.inner.sectionOf exactWing).chordPoint 0.3)) = some 0 := by
    refine Plane.firstCrossing?_of_near_start ?_
    change |plane.signedDistance ((WingEnd.outer.sectionOf exactWing).chordPoint 0.3)| ≤ tolerance
    rw [hzero, abs_zero]
    exact tolerance_pos.le
  have hend : Query.Yields s.design
      (Query.boundaryParameter "ribs" alongSet (.sparPositionUid "root")) (.ok 0) := by
    refine hon.bind_ok ((Query.yields_position hd.root).bind_ok (hpoint.bind_ok ?_))
    refine hline.bind_ok (.bind_ok (x := dir) ?_ ?_)
    · have hrotate : (Vec.yAxis : Vec ℝ).rotate Vec.zAxis 0 = Vec.yAxis :=
        if_pos (.inr (beq_self_eq_true (0 : ℝ)))
      have hdeclared : Query.Yields s.design (Query.declaredDirection "ribs" alongSet
          ((Wire.straight ((WingEnd.outer.sectionOf exactWing).chordPoint 0.3)
            ((WingEnd.inner.sectionOf exactWing).chordPoint 0.3)).project
              ((WingEnd.inner.sectionOf exactWing).chordPoint 0.3))
          ((WingEnd.inner.sectionOf exactWing).chordPoint 0.3) Vec.zAxis) (.ok Vec.yAxis) :=
        hrotate ▸ .pure _
      exact hdeclared.bind_ok (.require_some hdir)
    · exact (Query.Yields.require_some hplane).bind_ok (.require_some hcrossing)
  have hspread : Query.Yields s.design (Query.spread alongRibs) (.ok ⟨0, 0, 0, 1⟩) :=
    .cached (Store.filledBy_spread hfound)
      (.bind_ok (.pure _) (.bind_ok (.pure _) (hend.bind_ok (.pure _))))
  have hstop : s.answer (.ribs "ribs" .etaStop) = .ok 0 :=
    answer_ribs hsound hfound (q := .etaStop) (hspread.bind_ok (.pure _))
  obtain ⟨w, p, plane, hbounded⟩ := ribs_bounded (.load hs)
    (hsound.valid.ribs.get?_eq_some_iff.1 hfound).1 rfl (.inr ⟨rfl, hstop⟩)
  refine ⟨s, hs, w, p, plane, hbounded, ?_⟩
  obtain rfl := Except.ok.inj (hbounded.line.symm.trans (hline s.store hsound.coherent).1)
  have hp : Query.Yields s.design (Query.positionPoint "root" .wing) (.ok _) :=
    (Query.yields_position hd.root).bind_ok (hpoint.bind_ok (.pure _))
  obtain rfl := Except.ok.inj (hbounded.position.symm.trans (hp s.store hsound.coherent).1)
  rw [Wire.pointAt_start hspaced]
  exact (Vec.distance_comm _ _).trans (norm_chordPoint_sub 0.3)

end Structure

end WingBox
