import WingBox.Proofs.Space.Near
import WingBox.Proofs.Structure.Ensured

/-!
# Lines through the positions of spars

A spar is made of its stations, which are its positions with their points and the directions of the
height.  Neighbouring stations are tested twice, for a direction of the panel between them and for
an edge of the line; `Query.Station.Apart` is both.

The line is put together from pieces, so every point but the first and the last one is met twice.
The second time it is dropped since it is not apart from itself (`Vec.SelfNear`), which holds of
undefined coordinates as well.

* `Query.panelsOf_eq_ok_iff`: stations make a spar exactly if neighbours are apart, with one panel
  between any two of them and their points in its line;
* `Query.exists_panelsOf_error`: otherwise the first two that coincide are refused;
* `Query.yields_panels`, `Query.ensures_stations`: the spar that is built is that of its stations;
* `Query.ensures_line`: a line is drawn through all chords, or through the positions of a spar.
-/

namespace WingBox

open Scalar

/-! ### Points and themselves -/

/-- No point is apart from itself. -/
class Vec.SelfNear (K : Type) [Scalar K] : Prop where
  /-- Not even if its coordinates are infinite or undefined. -/
  not_apart : ∀ p : Vec K, ¬ tolerance ≤ (p - p).norm

instance : Vec.SelfNear ℝ where
  not_apart p := by
    have hzero : (p - p).norm = 0 := Vec.distance_self p
    rw [hzero]
    exact tolerance_pos.not_ge

instance : Vec.SelfNear Float where
  not_apart p := by
    obtain ⟨x, y, z⟩ := p
    have hsub : (⟨x, y, z⟩ - ⟨x, y, z⟩ : Vec Float) = ⟨x - x, y - y, z - z⟩ := rfl
    rw [hsub]
    rcases sub_self_cases x with hx | hx <;> rcases sub_self_cases y with hy | hy <;>
      rcases sub_self_cases z with hz | hz <;> rw [hx, hy, hz] <;> decide +kernel

variable {K : Type} [Scalar K]

theorem Wire.distinctAfter_self [Vec.SelfNear K] (p : Vec K) (ps : List (Vec K)) :
    distinctAfter p (p :: ps) = distinctAfter p ps := by
  rw [distinctAfter, if_neg (Vec.SelfNear.not_apart p)]

namespace Query

/-! ### Lines in pieces -/

section Pieces

variable {w : Wing K}

/-- There are pieces between all points if neighbours are apart. -/
theorem exists_linePoints {ps : List (Vec K)}
    (h : ps.IsChain fun p q => tolerance ≤ (q - p).norm) : ∃ line, linePoints w ps = .ok line := by
  induction h with
  | nil => exact ⟨[], rfl⟩
  | singleton p => exact ⟨[], rfl⟩
  | @cons_cons p q ps hpq _ ih =>
    obtain ⟨v, hv⟩ := Wire.exists_segment? hpq
    obtain ⟨rest, hrest⟩ := ih
    refine ⟨v.points ++ rest, bind_eq_ok_iff.2 ⟨v, Error.require_eq_ok_iff.2 hv, ?_⟩⟩
    rw [hrest]
    rfl

theorem linePoints_cons_cons {p q : Vec K} {ps line : List (Vec K)}
    (h : linePoints w (p :: q :: ps) = .ok line) : tolerance ≤ (q - p).norm ∧
      ∃ rest, linePoints w (q :: ps) = .ok rest ∧ line = p :: q :: rest := by
  obtain ⟨v, hv, h⟩ := bind_eq_ok_iff.1 h
  obtain ⟨rest, hrest, h⟩ := bind_eq_ok_iff.1 h
  obtain ⟨hpoints, hpq⟩ := Wire.points_of_segment? (Error.require_eq_ok_iff.1 hv)
  obtain rfl := Except.ok.inj h
  exact ⟨hpq, rest, hrest, by rw [hpoints]; rfl⟩

theorem isChain_of_linePoints {ps line : List (Vec K)} (h : linePoints w ps = .ok line) :
    ps.IsChain fun p q => tolerance ≤ (q - p).norm := by
  induction ps generalizing line with
  | nil => exact .nil
  | cons p ps ih =>
    cases ps with
    | nil => exact .singleton p
    | cons q ps =>
      obtain ⟨hpq, rest, hrest, -⟩ := linePoints_cons_cons h
      exact .cons_cons hpq (ih hrest)

theorem distinctAfter_linePoints [Vec.SelfNear K] {p : Vec K} {ps line : List (Vec K)}
    (h : linePoints w (p :: ps) = .ok line) : Wire.distinctAfter p line = ps := by
  induction ps generalizing p line with
  | nil =>
    obtain rfl := Except.ok.inj h
    rfl
  | cons q ps ih =>
    obtain ⟨hpq, rest, hrest, rfl⟩ := linePoints_cons_cons h
    rw [Wire.distinctAfter_self, Wire.distinctAfter, if_pos hpq, ih hrest]

/-- Every point but the first and the last one is met twice, and kept once. -/
theorem distinct_linePoints [Vec.SelfNear K] {ps line : List (Vec K)}
    (h : linePoints w ps = .ok line) (hlength : 2 ≤ ps.length) : Wire.distinct line = ps := by
  match ps, hlength with
  | p :: q :: ps, _ =>
    have hafter := distinctAfter_linePoints h
    obtain ⟨-, rest, -, rfl⟩ := linePoints_cons_cons h
    rw [Wire.distinctAfter_self] at hafter
    exact congrArg (p :: ·) hafter

end Pieces

/-! ### Panels between stations -/

namespace Station

/-- The panel between two neighbouring stations. -/
def panel (size : K) (a b : Station K) : Face K :=
  let dir := (b.point - a.point).normalize
  let inner := if a.position.isAtInnerBorder then a.point - size • dir else a.point
  let outer := if b.position.isAtOuterBorder then b.point + size • dir else b.point
  Face.quad (inner + size • a.up) (inner - size • a.up)
    (outer + size • b.up) (outer - size • b.up)

/-- The stations are too near to each other for a panel. -/
def Coincide (a b : Station K) : Prop := (b.point - a.point).norm ≤ tolerance

/-- The stations are far enough from each other for a panel, and for an edge of the line. -/
structure Apart (a b : Station K) : Prop where
  not_coincide : ¬ a.Coincide b
  tolerance_le : tolerance ≤ (b.point - a.point).norm

/-- With exact numbers both tests agree. -/
theorem apart_iff {a b : Station ℝ} : a.Apart b ↔ tolerance < (b.point - a.point).norm :=
  ⟨fun h => not_le.1 h.not_coincide, fun h => ⟨h.not_ge, h.le⟩⟩

theorem isChain_apart_iff {ts : List (Station K)} : ts.IsChain Apart ↔
    ts.IsChain (fun a b => ¬ a.Coincide b) ∧
      (ts.map (·.point)).IsChain fun p q => tolerance ≤ (q - p).norm := by
  rw [List.isChain_map]
  constructor
  · exact fun h => ⟨h.imp fun _ _ h => h.not_coincide, h.imp fun _ _ h => h.tolerance_le⟩
  · rintro ⟨hfar, hline⟩
    induction hfar with
    | nil => exact .nil
    | singleton a => exact .singleton a
    | cons_cons hab _ ih =>
      obtain ⟨hle, hline⟩ := List.isChain_cons_cons.1 hline
      exact .cons_cons ⟨hab, hle⟩ (ih hline)

end Station

section Panels

variable {uid : String} {size : K} {ts : List (Station K)}

/-- There is one panel between any two neighbours if none of them coincide. -/
theorem panelsFrom_eq_ok_iff {i : ℕ} {faces : List (Face K)} :
    panelsFrom uid size i ts = .ok faces ↔ ts.IsChain (fun a b => ¬ a.Coincide b) ∧
      faces = List.zipWith (Station.panel size) ts ts.tail := by
  induction ts generalizing i faces with
  | nil => exact ⟨fun h => ⟨.nil, (Except.ok.inj h).symm⟩, fun h => congrArg _ h.2.symm⟩
  | cons a ts ih =>
    cases ts with
    | nil => exact ⟨fun h => ⟨.singleton a, (Except.ok.inj h).symm⟩, fun h => congrArg _ h.2.symm⟩
    | cons b ts =>
      simp only [panelsFrom, bind_eq_ok_iff, Error.require_eq_ok_iff, Vec.normalize?_eq_some_iff,
        ih, List.isChain_cons_cons]
      constructor
      · rintro ⟨dir, ⟨hfar, rfl⟩, rest, ⟨hrest, rfl⟩, h⟩
        exact ⟨⟨hfar, hrest⟩, (Except.ok.inj h).symm⟩
      · rintro ⟨⟨hfar, hrest⟩, rfl⟩
        exact ⟨_, ⟨hfar, rfl⟩, _, ⟨hrest, rfl⟩, rfl⟩

/-- Otherwise the first two neighbours that coincide are refused. -/
theorem exists_panelsFrom_error (h : ¬ ts.IsChain fun a b => ¬ a.Coincide b) :
    ∃ j a b, ts[j]? = some a ∧ ts[j + 1]? = some b ∧ a.Coincide b ∧
      (ts.take (j + 1)).IsChain (fun a b => ¬ a.Coincide b) ∧
      ∀ i, panelsFrom uid size i ts = .error (.geometry uid (.coincidentPositions (i + j))) := by
  induction ts with
  | nil => exact absurd .nil h
  | cons a ts ih =>
    cases ts with
    | nil => exact absurd (.singleton a) h
    | cons b ts =>
      by_cases hab : a.Coincide b
      · refine ⟨0, a, b, rfl, rfl, hab, .singleton a, fun i => ?_⟩
        have hnone : (b.point - a.point).normalize? tolerance = none := if_pos hab
        rw [panelsFrom, hnone]
        rfl
      · have hrest : ¬ (b :: ts).IsChain fun a b => ¬ a.Coincide b :=
          fun hrest => h (.cons_cons hab hrest)
        obtain ⟨j, a', b', ha', hb', hcoincide, hbefore, herror⟩ := ih hrest
        refine ⟨j + 1, a', b', ha', hb', hcoincide, .cons_cons hab hbefore, fun i => ?_⟩
        have hsome : (b.point - a.point).normalize? tolerance = some _ := if_neg hab
        rw [panelsFrom, hsome, herror, Nat.add_right_comm i 1 j]
        rfl

/-- The panels and the line of a spar with given stations. -/
def panelsOf (s : SparSegment K) (size : K) (w : Wing K) (ts : List (Station K)) :
    Except (Error K) (SparPanels K) := do
  let faces ← panelsFrom s.uid size 1 ts
  let line ← linePoints w (ts.map (·.point))
  let midplaneLine ← Error.require (.geometry s.uid .noSparExtent) (Wire.ofPoints? line)
  return ⟨midplaneLine, .ofFaces faces⟩

variable {s : SparSegment K} {w : Wing K}

/-- **A spar is made of stations that are apart.** -/
theorem panelsOf_eq_ok_iff [Vec.SelfNear K] (htwo : 2 ≤ ts.length) {p : SparPanels K} :
    panelsOf s size w ts = .ok p ↔ ts.IsChain Station.Apart ∧
      p.midplaneLine.points = ts.map (·.point) ∧
      p.cutShape = .ofFaces (List.zipWith (Station.panel size) ts ts.tail) := by
  have hlength : 2 ≤ (ts.map (·.point)).length := by rwa [List.length_map]
  simp only [panelsOf, bind_eq_ok_iff, Error.require_eq_ok_iff, panelsFrom_eq_ok_iff,
    Station.isChain_apart_iff]
  constructor
  · rintro ⟨faces, ⟨hfar, rfl⟩, line, hline, v, hv, h⟩
    obtain rfl := Except.ok.inj h
    refine ⟨⟨hfar, isChain_of_linePoints hline⟩, ?_, rfl⟩
    exact (Wire.points_of_ofPoints? hv).trans (distinct_linePoints hline hlength)
  · rintro ⟨⟨hfar, hline⟩, hpoints, hfaces⟩
    obtain ⟨line, hline⟩ := exists_linePoints (w := w) hline
    have hdistinct := distinct_linePoints hline hlength
    obtain ⟨⟨points, htwo⟩, cutShape⟩ := p
    obtain rfl : points = Wire.distinct line := hpoints.trans hdistinct.symm
    obtain rfl : cutShape = _ := hfaces
    exact ⟨_, ⟨hfar, rfl⟩, line, hline, _, dif_pos htwo, rfl⟩

/-- Otherwise the first two neighbours that coincide are refused. -/
theorem exists_panelsOf_error (h : ¬ ts.IsChain fun a b => ¬ a.Coincide b) :
    ∃ j a b, ts[j]? = some a ∧ ts[j + 1]? = some b ∧ a.Coincide b ∧
      (ts.take (j + 1)).IsChain (fun a b => ¬ a.Coincide b) ∧
      panelsOf s size w ts = .error (.geometry s.uid (.coincidentPositions (j + 1))) := by
  obtain ⟨j, a, b, ha, hb, hab, hbefore, herror⟩ := exists_panelsFrom_error h
  refine ⟨j, a, b, ha, hb, hab, hbefore, ?_⟩
  rw [panelsOf, herror, Nat.add_comm 1 j]
  rfl

end Panels

/-! ### Stations of a design -/

/-- The design has the position of a station, and its point and direction are found. -/
structure Stands (d : Design K) (uid : String) (t : Station K) : Prop where
  found : d.positions.get? uid = some t.position
  placed : Yields d (midplanePoint t.position) (.ok t.point)
  upright : Yields d (upVector t.position t.point) (.ok t.up)

section Stations

variable {d : Design K}

theorem yields_spar {uid : String} {s : SparSegment K} (hs : d.spars.get? uid = some s) :
    Yields d (spar uid) (.ok s) := Yields.read.bind_ok (.require_some hs)

theorem yields_position {uid : String} {p : SparPosition K} (hp : d.positions.get? uid = some p) :
    Yields d (position uid) (.ok p) := Yields.read.bind_ok (.require_some hp)

theorem ensures_spar (uid : String) :
    Ensures d (spar uid) fun s => d.spars.get? uid = some s := by
  refine (Ensures.of_yields .read).bind fun d' hd => .require fun s hs => ?_
  rwa [Except.ok.inj hd]

theorem ensures_position (uid : String) :
    Ensures d (position uid) fun p => d.positions.get? uid = some p := by
  refine (Ensures.of_yields .read).bind fun d' hd => .require fun p hp => ?_
  rwa [Except.ok.inj hd]

omit [Scalar K] in
theorem position_match (p : SparPosition K) : p.Match .same p := ⟨rfl, rfl, rfl⟩

/-- What is found at the positions makes their stations. -/
theorem forall₂_stands {uids : List String} {positions : List (SparPosition K)}
    {points ups : List (Vec K)}
    (hfound : List.Forall₂ (fun uid p => d.positions.get? uid = some p) uids positions)
    (hplaced : List.Forall₂ (fun p v => Yields d (midplanePoint p) (.ok v)) positions points)
    (hupright : List.Forall₂ (fun x up => Yields d (upVector x.1 x.2) (.ok up))
      (positions.zip points) ups) :
    List.Forall₂ (Stands d) uids
        (List.zipWith (fun x up => ⟨x.1, x.2, up⟩) (positions.zip points) ups) ∧
      (List.zipWith (fun x up => (⟨x.1, x.2, up⟩ : Station K)) (positions.zip points) ups).map
        (·.point) = points := by
  induction hfound generalizing points ups with
  | nil =>
    cases hplaced
    exact ⟨.nil, rfl⟩
  | cons hp _ ih =>
    cases hplaced with
    | cons hv hplaced =>
      cases hupright with
      | cons hup hupright =>
        obtain ⟨hstands, hpoints⟩ := ih hplaced hupright
        exact ⟨.cons ⟨hp, hv, hup⟩ hstands, congrArg _ hpoints⟩

variable {s : SparSegment K} {ts : List (Station K)} {r : K}

theorem exists_stands (hstands : List.Forall₂ (Stands d) s.positionUids ts) {t : Station K}
    (ht : t ∈ ts) : ∃ uid, Stands d uid t := by
  obtain ⟨i, hi, rfl⟩ := List.getElem_of_mem ht
  exact ⟨_, hstands.get (hstands.length_eq ▸ hi) hi⟩

/-- The points of stations are those of their positions. -/
theorem forall₂_placed (hstands : List.Forall₂ (Stands d) s.positionUids ts) :
    List.Forall₂ (fun p v => Yields d (midplanePoint p) (.ok v)) (ts.map (·.position))
      (ts.map (·.point)) := by
  refine List.forall₂_map_left_iff.2 (List.forall₂_map_right_iff.2 ?_)
  refine List.forall₂_same.2 fun t ht => ?_
  obtain ⟨uid, h⟩ := exists_stands hstands ht
  exact h.placed

/-- A spar whose stations are found is made of them. -/
theorem yields_panels (hs : d.HasSpar s) (hstands : List.Forall₂ (Stands d) s.positionUids ts)
    (htwo : 2 ≤ ts.length) (hsize : Yields d size (.ok r)) :
    Yields d (panels s) (panelsOf s r d.wing ts) := by
  have hpositions : Yields d (s.positionUids.mapM position) (.ok (ts.map (·.position))) :=
    .mapM (List.forall₂_map_right_iff.2 (hstands.imp fun _ _ h => yields_position h.found))
  have hpoints : Yields d ((ts.map (·.position)).mapM midplanePoint) (.ok (ts.map (·.point))) :=
    .mapM (forall₂_placed hstands)
  have hups : Yields d ((List.zip (ts.map (·.position)) (ts.map (·.point))).mapM
      fun x => upVector x.1 x.2) (.ok (ts.map (·.up))) := by
    rw [List.zip_map']
    refine .mapM (List.forall₂_map_left_iff.2 (List.forall₂_map_right_iff.2 ?_))
    refine List.forall₂_same.2 fun t ht => ?_
    obtain ⟨uid, h⟩ := exists_stands hstands ht
    exact h.upright
  have hstations : List.zipWith (fun x up => (⟨x.1, x.2, up⟩ : Station K))
      (List.zip (ts.map (·.position)) (ts.map (·.point))) (ts.map (·.up)) = ts := by
    rw [List.zip_map', List.zipWith_map, List.zipWith_self, List.map_id']
  have hlength : ¬ (ts.map (·.position)).length < 2 := by rwa [List.length_map, not_lt]
  refine .cached (Store.filledBy_panels hs) (.bind_wing (hpositions.bind_ok ?_))
  rw [if_neg hlength]
  refine hpoints.bind_ok (hups.bind_ok (hsize.bind_ok ?_))
  dsimp only
  rw [hstations]
  refine .ofExcept_bind fun faces => .ofExcept_bind fun line => .require_bind fun v => ?_
  exact .pure _

section Lookups

variable (h : d.LookupsMatch .same d)
include h

omit [Scalar K] in
theorem sparsMatch_self {uid : String} (hs : d.spars.get? uid = some s) :
    d.SparsMatch .same d s s := by
  have hrel := h.spars (show Naming.same.spar uid uid from rfl)
  rw [hs] at hrel
  cases hrel with
  | some hmatch => exact hmatch

/-- A spar that is made has its stations. -/
theorem ensures_stations (hs : d.SparsMatch .same d s s) : Ensures d (panels s) fun p =>
    ∃ ts r, List.Forall₂ (Stands d) s.positionUids ts ∧ 2 ≤ ts.length ∧
      Yields d size (.ok r) ∧ panelsOf s r d.wing ts = .ok p := by
  have hplaced (p : SparPosition K) : Ensures d (midplanePoint p) fun v =>
      Yields d (midplanePoint p) (.ok v) :=
    .of_parallel (parallel_midplanePoint h (position_match p))
  have hupright (x : SparPosition K × Vec K) : Ensures d (upVector x.1 x.2) fun up =>
      Yields d (upVector x.1 x.2) (.ok up) :=
    .of_parallel (parallel_upVector h (position_match x.1) x.2)
  refine .cached (Store.filledBy_panels hs.here) (.bind_wing ?_)
  refine (Ensures.mapM fun uid _ => ensures_position uid).bind fun positions hpositions => ?_
  dsimp only
  split
  next => exact .throw_bind
  next hlength =>
    refine (Ensures.mapM fun p _ => hplaced p).bind fun points hpoints => ?_
    refine (Ensures.mapM fun x _ => hupright x).bind fun ups hups => ?_
    refine (Ensures.of_parallel (parallel_size h)).bind fun r hr => ?_
    obtain ⟨hstands, hmap⟩ := forall₂_stands hpositions hpoints hups
    refine (Ensures.ofExcept fun faces hfaces => hfaces).bind fun faces hfaces => ?_
    refine (Ensures.ofExcept fun line hline => hline).bind fun line hline => ?_
    refine (Ensures.require fun w hw => hw).bind fun w hw => .pure ?_
    refine ⟨_, r, hstands, ?_, hr, ?_⟩
    · rw [← hstands.length_eq, hpositions.length_eq]
      exact Nat.not_lt.1 hlength
    · refine bind_eq_ok_iff.2 ⟨faces, hfaces, bind_eq_ok_iff.2 ⟨line, hmap.symm ▸ hline, ?_⟩⟩
      exact bind_eq_ok_iff.2 ⟨w, Error.require_eq_ok_iff.2 hw, rfl⟩

end Lookups

end Stations

/-! ### Lines -/

/-- The line of a spar is drawn through the points of its positions. -/
structure DrawnThrough (d : Design K) (s : SparSegment K) (w : Wire K)
    (positions : List (SparPosition K)) (points : List (Vec K)) : Prop where
  found : List.Forall₂ (fun uid p => d.positions.get? uid = some p) s.positionUids positions
  two_le_length : 2 ≤ positions.length
  placed : List.Forall₂ (fun p v => Yields d (midplanePoint p) (.ok v)) positions points
  drawn : ∃ line, linePoints d.wing points = .ok line ∧ Wire.ofPoints? line = some w

theorem DrawnThrough.points_eq [Vec.SelfNear K] {d : Design K} {s : SparSegment K} {w : Wire K}
    {positions : List (SparPosition K)} {points : List (Vec K)}
    (h : DrawnThrough d s w positions points) : w.points = points := by
  obtain ⟨line, hline, hw⟩ := h.drawn
  rw [Wire.points_of_ofPoints? hw]
  exact distinct_linePoints hline (h.placed.length_eq ▸ h.two_le_length)

section Lines

variable {d : Design K} (h : d.LookupsMatch .same d)
include h

theorem ensures_panels {s : SparSegment K} (hs : d.SparsMatch .same d s s) :
    Ensures d (panels s) fun p => ∃ positions points,
      DrawnThrough d s p.midplaneLine positions points := by
  refine (ensures_stations h hs).mono fun p hp => ?_
  obtain ⟨ts, r, hstands, htwo, -, hp⟩ := hp
  obtain ⟨faces, -, hp⟩ := bind_eq_ok_iff.1 hp
  obtain ⟨line, hline, hp⟩ := bind_eq_ok_iff.1 hp
  obtain ⟨w, hw, hp⟩ := bind_eq_ok_iff.1 hp
  obtain rfl := Except.ok.inj hp
  refine ⟨ts.map (·.position), ts.map (·.point), ?_, ?_, forall₂_placed hstands, line, hline,
    Error.require_eq_ok_iff.1 hw⟩
  · exact List.forall₂_map_right_iff.2 (hstands.imp fun _ _ h => h.found)
  · rwa [List.length_map]

/-- A line is drawn through points on the chords of all sections, or through those of a spar. -/
inductive LineDrawn (d : Design K) : NamedLine → Wire K → Prop
  | leadingEdge {w : Wire K} (h : Wire.ofPoints? (d.wing.sections.map (·.chordPoint 0)) = some w) :
    LineDrawn d .leadingEdge w
  | trailingEdge {w : Wire K} (h : Wire.ofPoints? (d.wing.sections.map (·.chordPoint 1)) = some w) :
    LineDrawn d .trailingEdge w
  | spar {s : SparSegment K} {w : Wire K} {positions : List (SparPosition K)}
    {points : List (Vec K)} (hs : d.HasSpar s) (h : DrawnThrough d s w positions points) :
    LineDrawn d (.spar s.uid) w

theorem ensures_line (hindexed : d.Indexed) {l : NamedLine} :
    Ensures d (line l) (LineDrawn d l) := by
  cases l with
  | leadingEdge =>
    exact .bind_wing (.ofExcept fun w hw => .leadingEdge (Error.require_eq_ok_iff.1 hw))
  | trailingEdge =>
    exact .bind_wing (.ofExcept fun w hw => .trailingEdge (Error.require_eq_ok_iff.1 hw))
  | spar uid =>
    refine (ensures_spar uid).bind fun s hs => ?_
    have hmatch := sparsMatch_self h hs
    refine (ensures_panels h hmatch).bind fun p hp => .pure ?_
    obtain ⟨positions, points, hdrawn⟩ := hp
    obtain rfl : s.uid = uid := (hindexed.spars.get?_eq_some_iff.1 hs).2
    exact .spar hmatch.here hdrawn

end Lines

end Query

end WingBox
