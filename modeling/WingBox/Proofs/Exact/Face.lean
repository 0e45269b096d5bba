import WingBox.Proofs.Exact.Wire
import WingBox.Proofs.Cut.Halves
import WingBox.Cut.Hit

/-!
# Points of faces with exact numbers

A point counts as one of a face if it is within the tolerance of a facet, `Face.Has`.

* `Triangle.distance_eq_zero`: a point of a facet is at no distance from it;
* `Face.has_of_firstHit?`: where a wire is found to meet a face there is a point of both, to whose
  parameter the wire leads back (`Face.reaches_of_firstHit?`);
* `Face.exists_firstHit?`: a wire that starts on a facet and leaves its plane is found to meet it.
-/

namespace WingBox

open Scalar

theorem Scalar.least_eq (x y : ℝ) : least x y = min x y := by
  unfold least
  grind

/-- The distance to an edge across the span is no less than that in span direction. -/
theorem Edge.abs_sub_le_distance {e : Edge ℝ} {y : ℝ} (hstart : e.start.y = y)
    (hstop : e.stop.y = y) (p : Vec ℝ) : |p.y - y| ≤ e.distance p := by
  have hfoot (q : Vec ℝ) (hq : q.y = y) : |p.y - y| ≤ p.distance q := by
    rw [← hq]
    exact Vec.abs_y_le_norm (p - q)
  unfold distance
  dsimp only
  split
  · exact hfoot _ hstart
  · refine hfoot _ ?_
    simp only [span, Vec.add_y, Vec.smul_y, Vec.sub_y, hstart, hstop]
    ring

namespace Triangle

variable {t : Triangle ℝ} {u : ℝ × ℝ}

theorem facet?_of_ample (h : t.Ample) : t.facet? = some t := if_pos h

theorem ample_of_facet? {p : Triangle ℝ} (h : t.facet? = some p) : p = t ∧ t.Ample := by
  unfold facet? at h
  split at h
  next hample => exact ⟨(Option.some.inj h).symm, hample⟩
  next => cases h

/-- A triangle with some area has a plane. -/
theorem plane?_of_le_area (h : tolerance * tolerance ≤ t.area) :
    t.plane? = some ⟨t.a, t.cross / t.cross.norm⟩ := by
  have harea : t.area = 0.5 * t.cross.norm := rfl
  have hsliver : ¬ t.Sliver := h.not_gt
  have hnorm : ¬ t.cross.norm ≤ tolerance * tolerance := by
    have htolerance := mul_pos tolerance_pos tolerance_pos
    rw [harea] at h
    linarith
  rw [plane?, if_neg hsliver, Plane.across?, Vec.normalize?, if_neg hnorm]
  rfl

theorem plane?_of_ample (h : t.Ample) : t.plane? = some ⟨t.a, t.cross / t.cross.norm⟩ :=
  plane?_of_le_area (le_of_lt h)

/-- The point lies in the plane. -/
theorem dot_cross_point (t : Triangle ℝ) (u : ℝ × ℝ) : (t.point u - t.a).dot t.cross = 0 := by
  simp only [Vec.dot, Vec.cross, cross, point, Vec.sub_x, Vec.sub_y, Vec.sub_z, Vec.add_x,
    Vec.add_y, Vec.add_z, Vec.smul_x, Vec.smul_y, Vec.smul_z]
  ring

theorem signedDistance_point (t : Triangle ℝ) (u : ℝ × ℝ) :
    Plane.signedDistance ⟨t.a, t.cross / t.cross.norm⟩ (t.point u) = 0 := by
  have hdiv : (t.point u - t.a).dot (t.cross / t.cross.norm) =
      (t.point u - t.a).dot t.cross / t.cross.norm := by
    simp only [Vec.dot, Vec.div_x, Vec.div_y, Vec.div_z]
    ring
  rw [Plane.signedDistance, hdiv, dot_cross_point, zero_div]

/-- The coordinates of a point are its heights over the sides. -/
theorem dot_cross_sides (t : Triangle ℝ) (u : ℝ × ℝ) :
    ((t.b - t.a).cross (t.point u - t.a)).dot t.cross = u.2 * t.cross.normSq ∧
      ((t.c - t.b).cross (t.point u - t.b)).dot t.cross = (1 - u.1 - u.2) * t.cross.normSq ∧
      ((t.a - t.c).cross (t.point u - t.c)).dot t.cross = u.1 * t.cross.normSq := by
  simp only [Vec.normSq, Vec.dot, Vec.cross, cross, point, Vec.sub_x, Vec.sub_y, Vec.sub_z,
    Vec.add_x, Vec.add_y, Vec.add_z, Vec.smul_x, Vec.smul_y, Vec.smul_z]
  exact ⟨by ring, by ring, by ring⟩

/-- A point of the triangle lies on the inner side of each of its sides. -/
theorem covers_point (hu : InSimplex u) : t.Covers (t.point u) := by
  obtain ⟨hb, hc, ha⟩ := hu
  have hnormSq := t.cross.normSq_nonneg
  have hslack : -tolerance * t.cross.norm ≤ 0 :=
    mul_nonpos_of_nonpos_of_nonneg (neg_nonpos.2 tolerance_pos.le) t.cross.norm_nonneg
  obtain ⟨hab, hbc, hca⟩ := t.dot_cross_sides u
  refine ⟨hslack.trans ?_, hslack.trans ?_, hslack.trans ?_⟩
  · rw [hab]
    exact mul_nonneg hc hnormSq
  · rw [hbc]
    exact mul_nonneg (by linarith) hnormSq
  · rw [hca]
    exact mul_nonneg hb hnormSq

/-- A point of a facet is at no distance from it. -/
theorem distance_eq_zero (h : tolerance * tolerance ≤ t.area) {q : Vec ℝ} (hq : t.Holds q) :
    t.distance q = 0 := by
  obtain ⟨u, hu, rfl⟩ := hq
  have hfoot : t.point u - (0 : ℝ) • (t.cross / t.cross.norm) = t.point u := by
    rw [zero_smul, sub_zero]
  unfold distance
  rw [plane?_of_le_area h]
  dsimp only
  rw [signedDistance_point, hfoot, if_pos (covers_point hu)]
  exact abs_zero

/-- The vertices of a triangle across the span. -/
theorem forall_vertices_y_iff {y : ℝ} :
    (∀ v ∈ t.vertices, v.y = y) ↔ t.a.y = y ∧ t.b.y = y ∧ t.c.y = y := by
  simp [vertices]

/-- A triangle across the span has the distance in span direction. -/
theorem abs_signedDistance_of_upright (h : t.Ample) {y : ℝ} (ht : ∀ v ∈ t.vertices, v.y = y)
    (p : Vec ℝ) : |Plane.signedDistance ⟨t.a, t.cross / t.cross.norm⟩ p| = |p.y - y| := by
  obtain ⟨ha, hb, hc⟩ := forall_vertices_y_iff.1 ht
  have hx : t.cross.x = 0 := by
    simp only [cross, Vec.cross, Vec.sub_y, Vec.sub_z, ha, hb, hc]
    ring
  have hz : t.cross.z = 0 := by
    simp only [cross, Vec.cross, Vec.sub_x, Vec.sub_y, ha, hb, hc]
    ring
  have hnorm : t.cross.norm = |t.cross.y| := by
    change Real.sqrt _ = _
    rw [Vec.normSq, Vec.dot, hx, hz, ← Real.sqrt_mul_self_eq_abs]
    norm_num
  have hpos : |t.cross.y| ≠ 0 := by
    have hample : tolerance * tolerance < 0.5 * t.cross.norm := h
    have htolerance := mul_pos tolerance_pos tolerance_pos
    rw [hnorm] at hample
    linarith
  have hdot : (p - t.a).dot (t.cross / t.cross.norm) =
      (p.y - y) * (t.cross.y / t.cross.norm) := by
    simp only [Vec.dot, Vec.sub_x, Vec.sub_y, Vec.sub_z, Vec.div_x, Vec.div_y, Vec.div_z, hx, hz,
      ha]
    ring
  rw [Plane.signedDistance, hdot, abs_mul, hnorm, abs_div, abs_abs, div_self hpos, mul_one]

/-- The distance from the edges is that from one of them. -/
theorem edgeDistance_eq (t : Triangle ℝ) (p : Vec ℝ) :
    t.edgeDistance p = min (min (Edge.distance ⟨t.a, t.b⟩ p) (Edge.distance ⟨t.b, t.c⟩ p))
      (Edge.distance ⟨t.c, t.a⟩ p) := by
  simp only [edgeDistance, least_eq]
  rfl

/-- So no point is nearer to it, not even to its sides. -/
theorem abs_sub_le_distance (h : t.Ample) {y : ℝ} (ht : ∀ v ∈ t.vertices, v.y = y) (p : Vec ℝ) :
    |p.y - y| ≤ t.distance p := by
  obtain ⟨ha, hb, hc⟩ := forall_vertices_y_iff.1 ht
  unfold distance
  rw [plane?_of_ample h]
  dsimp only
  split
  · exact (abs_signedDistance_of_upright h ht p).ge
  · rw [edgeDistance_eq]
    refine le_min (le_min ?_ ?_) ?_
    · exact Edge.abs_sub_le_distance (e := ⟨t.a, t.b⟩) ha hb p
    · exact Edge.abs_sub_le_distance (e := ⟨t.b, t.c⟩) hb hc p
    · exact Edge.abs_sub_le_distance (e := ⟨t.c, t.a⟩) hc ha p

end Triangle

/-! ### Points of faces -/

/-- The first element at which a key is least is one of the list. -/
theorem Scalar.mem_of_minBy? {K α : Type} [Scalar K] {key : α → K} {xs : List α} {x : α}
    (h : minBy? key xs = some x) : x ∈ xs := by
  cases xs with
  | nil => cases h
  | cons y ys =>
    obtain rfl := Option.some.inj h
    clear h
    induction ys generalizing y with
    | nil => exact List.mem_singleton_self y
    | cons z zs ih =>
      rw [List.foldl_cons]
      split
      · exact List.mem_cons_of_mem _ (ih z)
      · rcases List.mem_cons.1 (ih y) with hy | hzs
        · rw [hy]
          exact List.mem_cons_self
        · exact List.mem_cons_of_mem _ (List.mem_cons_of_mem _ hzs)

/-- A list that is not empty has an element with the least key. -/
theorem Scalar.exists_minBy? {α : Type} (key : α → ℝ) {xs : List α} (h : xs ≠ []) :
    ∃ y ∈ xs, minBy? key xs = some y ∧ ∀ x ∈ xs, key y ≤ key x := by
  match xs with
  | [] => exact absurd rfl h
  | x :: xs =>
    -- the best element of a beginning and a rest is the best one of the whole
    suffices hfold : ∀ b, ∃ y ∈ b :: xs,
        xs.foldl (fun best y => if totalLT (key y) (key best) then y else best) b = y ∧
          ∀ x ∈ b :: xs, key y ≤ key x by
      obtain ⟨y, hy, hmin, hall⟩ := hfold x
      exact ⟨y, hy, congrArg some hmin, hall⟩
    clear h
    induction xs with
    | nil =>
      intro b
      refine ⟨b, List.mem_singleton_self b, rfl, fun x hx => ?_⟩
      rw [List.mem_singleton.1 hx]
    | cons z zs ih =>
      intro b
      have hlt : totalLT (key z) (key b) = true ↔ key z < key b := by
        change (!decide (key b ≤ key z)) = true ↔ _
        rw [Bool.not_eq_true', decide_eq_false_iff_not, not_le]
      rw [List.foldl_cons]
      split
      next hz =>
        obtain ⟨y, hy, hmin, hall⟩ := ih z
        refine ⟨y, List.mem_cons_of_mem _ hy, hmin, List.forall_mem_cons.2 ⟨?_, hall⟩⟩
        exact (hall z List.mem_cons_self).trans (hlt.1 hz).le
      next hz =>
        obtain ⟨y, hy, hmin, hall⟩ := ih b
        obtain ⟨hyb, hyzs⟩ := List.forall_mem_cons.1 hall
        refine ⟨y, ?_, hmin, List.forall_mem_cons.2 ⟨hyb, List.forall_mem_cons.2 ⟨?_, hyzs⟩⟩⟩
        · rcases List.mem_cons.1 hy with rfl | hy
          · exact List.mem_cons_self
          · exact List.mem_cons_of_mem _ (List.mem_cons_of_mem _ hy)
        · exact hyb.trans (not_lt.1 fun hzb => hz (hlt.2 hzb))

/-- A fold that keeps the smaller key finds the least one. -/
theorem Scalar.foldl_least_eq_some_iff {α : Type} (key : α → ℝ) {step : Option ℝ → α → Option ℝ}
    (hnone : ∀ x, step none x = some (key x))
    (hsome : ∀ b x, step (some b) x = some (least b (key x))) {xs : List α} {init : Option ℝ}
    {d : ℝ} : xs.foldl step init = some d ↔ (init = some d ∨ ∃ x ∈ xs, key x = d) ∧
      (∀ b, init = some b → d ≤ b) ∧ ∀ x ∈ xs, d ≤ key x := by
  induction xs generalizing init with
  | nil => simp +contextual
  | cons x xs ih =>
    rw [List.foldl_cons, ih]
    cases init with
    | none => simp [hnone]
    | some b =>
      simp only [hsome, least_eq, Option.some.injEq, List.mem_cons]
      grind

/-- An edge pierces a triangle at one of its own points, which is within the tolerance. -/
theorem Edge.of_pierce? {e : Edge ℝ} {t : Triangle ℝ} {s : ℝ} (h : e.pierce? t = some s) :
    0 ≤ s ∧ s ≤ 1 ∧ t.distance (e.pointAt s) ≤ tolerance := by
  obtain ⟨plane, -, h⟩ := Option.bind_eq_some_iff.1 h
  dsimp only at h
  split at h
  · cases h
  split at h
  · cases h
  split at h
  next hdistance =>
    obtain rfl := Option.some.inj h
    exact ⟨(clamp_mem _).1, (clamp_mem _).2, hdistance⟩
  next => cases h

/-- An edge that starts in a facet and leaves its plane pierces it. -/
theorem Edge.exists_pierce? {e : Edge ℝ} {t : Triangle ℝ} (h : t.Ample) (hstart : t.Holds e.start)
    (hstop : crossingGap ≤ |Plane.signedDistance ⟨t.a, t.cross / t.cross.norm⟩ e.stop|) :
    ∃ s, e.pierce? t = some s := by
  have hzero : Plane.signedDistance ⟨t.a, t.cross / t.cross.norm⟩ e.start = 0 := by
    obtain ⟨u, -, hu⟩ := hstart
    rw [hu, Triangle.signedDistance_point]
  refine ⟨0, ?_⟩
  have hpos := tolerance_pos
  have hclamp : clamp 0 1 (0 : ℝ) = 0 := clamp_of_mem le_rfl zero_le_one
  have hdistance : t.distance (e.pointAt 0) ≤ tolerance := by
    rw [Wire.pointAt_zero, Triangle.distance_eq_zero (le_of_lt h) hstart]
    exact hpos.le
  unfold pierce?
  rw [Triangle.plane?_of_ample h]
  change (if _ then _ else _) = _
  dsimp only
  rw [hzero, if_neg (fun hout => hout.elim (fun hin => hin.1.not_gt hpos) fun hin =>
      hin.1.not_gt (neg_neg_of_pos hpos)), zero_sub, zero_div, hclamp, if_pos hdistance]
  refine if_neg (not_lt.2 ?_)
  change crossingGap ≤ |-_|
  rwa [abs_neg]

namespace Face

variable {f : Face ℝ} {w : Wire ℝ} {p q : Vec ℝ}

/-- The point is within the tolerance of a facet. -/
def Has (f : Face ℝ) (q : Vec ℝ) : Prop := ∃ t ∈ f.facets, t.distance q ≤ tolerance

/-- The distance of a face is that of its nearest facet. -/
theorem distance?_eq_some_iff {d : ℝ} : f.distance? q = some d ↔
    (∃ t ∈ f.facets, t.distance q = d) ∧ ∀ t ∈ f.facets, d ≤ t.distance q := by
  refine (foldl_least_eq_some_iff (·.distance q) (fun _ => rfl) fun _ _ => rfl).trans ?_
  have hinfinity : (infinity? : Option ℝ) = none := rfl
  simp [hinfinity]

/-- So the points that count as points of a face are those within the tolerance of it. -/
theorem has_iff_distance? : f.Has q ↔ ∃ d, f.distance? q = some d ∧ d ≤ tolerance := by
  constructor
  · rintro ⟨t, ht, hle⟩
    obtain ⟨u, hu, -, hleast⟩ := exists_minBy? (·.distance q) (List.ne_nil_of_mem ht)
    exact ⟨_, distance?_eq_some_iff.2 ⟨⟨u, hu, rfl⟩, hleast⟩, (hleast t ht).trans hle⟩
  · rintro ⟨_, hd, hle⟩
    obtain ⟨⟨t, ht, rfl⟩, -⟩ := distance?_eq_some_iff.1 hd
    exact ⟨t, ht, hle⟩

/-- The point is within some distance of one that counts as a point of the face. -/
def Reaches (f : Face ℝ) (p : Vec ℝ) (gap : ℝ) : Prop := ∃ q, f.Has q ∧ p.distance q ≤ gap

/-- A face across the span has no points away from its plane. -/
theorem Reaches.abs_y_sub_le {y gap : ℝ} (h : f.Reaches p gap)
    (hf : ∀ t ∈ f.facets, t.Ample ∧ ∀ v ∈ t.vertices, v.y = y) : |p.y - y| ≤ gap + tolerance := by
  obtain ⟨q, ⟨t, ht, htq⟩, hpq⟩ := h
  obtain ⟨hample, hupright⟩ := hf t ht
  calc |p.y - y| ≤ |p.y - q.y| + |q.y - y| := abs_sub_le _ _ _
    _ ≤ gap + tolerance := add_le_add ((Vec.abs_y_le_norm (p - q)).trans hpq)
      ((Triangle.abs_sub_le_distance hample hupright q).trans htq)

theorem has_of_holds {t : Triangle ℝ} (ht : t ∈ f.facets) (hample : t.Ample) (hq : t.Holds q) :
    f.Has q :=
  ⟨t, ht, (Triangle.distance_eq_zero (le_of_lt hample) hq).trans_le tolerance_pos.le⟩

/-- What is found on an edge is where it pierces a facet. -/
theorem exists_pierce?_of_hit? {e : Edge ℝ} (h : f.hit? e = some q) :
    ∃ t ∈ f.facets, ∃ s, e.pierce? t = some s ∧ q = e.pointAt s := by
  obtain ⟨s, hs, rfl⟩ := Option.map_eq_some_iff.1 h
  obtain ⟨t, ht, hpierce⟩ := List.mem_filterMap.1 (mem_of_minBy? hs)
  exact ⟨t, ht, s, hpierce, rfl⟩

/-- An edge that pierces a facet is found to meet the face, there or before. -/
theorem exists_hit?_of_pierce? {e : Edge ℝ} {t : Triangle ℝ} (ht : t ∈ f.facets) {s : ℝ}
    (hs : e.pierce? t = some s) : ∃ r, f.hit? e = some (e.pointAt r) ∧ 0 ≤ r ∧ r ≤ s := by
  have hmem : s ∈ f.facets.filterMap e.pierce? := List.mem_filterMap.2 ⟨t, ht, hs⟩
  obtain ⟨r, hr, hmin, hleast⟩ := exists_minBy? id (List.ne_nil_of_mem hmem)
  obtain ⟨u, -, hpierce⟩ := List.mem_filterMap.1 hr
  exact ⟨r, by rw [hit?, hmin, Option.map_some], (Edge.of_pierce? hpierce).1, hleast s hmem⟩

/-- Where a wire is found to meet a face an edge pierces a facet. -/
theorem exists_pierce?_of_firstHit? (h : f.firstHit? w = some q) :
    ∃ e ∈ w.edges, ∃ t ∈ f.facets, ∃ s, e.pierce? t = some s ∧ q = e.pointAt s := by
  obtain ⟨e, he, hhit⟩ := List.exists_of_findSome?_eq_some h
  exact ⟨e, he, exists_pierce?_of_hit? hhit⟩

/-- Where a wire is found to meet a face there is a point of both. -/
theorem has_of_firstHit? (h : f.firstHit? w = some q) :
    f.Has q ∧ ∃ e ∈ w.edges, ∃ s, 0 ≤ s ∧ s ≤ 1 ∧ q = e.pointAt s := by
  obtain ⟨e, he, t, ht, s, hpierce, rfl⟩ := exists_pierce?_of_firstHit? h
  obtain ⟨hnonneg, hle, hdistance⟩ := Edge.of_pierce? hpierce
  exact ⟨⟨t, ht, hdistance⟩, e, he, s, hnonneg, hle, rfl⟩

/-- A wire meets a face whose facet its first edge pierces. -/
theorem exists_firstHit? {e : Edge ℝ} {es : List (Edge ℝ)} (hw : w.edges = e :: es)
    {t : Triangle ℝ} (ht : t ∈ f.facets) {s : ℝ} (hs : e.pierce? t = some s) :
    ∃ q, f.firstHit? w = some q := by
  obtain ⟨r, hhit, -⟩ := exists_hit?_of_pierce? ht hs
  exact ⟨e.pointAt r, by rw [firstHit?, hw, List.findSome?_cons, hhit]⟩

/-- The parameter of such a point leads back close to it. -/
theorem reaches_of_firstHit? (hw : w.Spaced) (h : f.firstHit? w = some q) :
    f.Reaches (w.pointAt (w.project q)) Wire.projectionGap := by
  obtain ⟨hq, e, he, s, hnonneg, hle, rfl⟩ := has_of_firstHit? h
  exact ⟨_, hq, hw.distance_project_le he hnonneg hle⟩

theorem Has.reaches (h : f.Has p) {gap : ℝ} (hgap : 0 ≤ gap) : f.Reaches p gap :=
  ⟨p, h, (Vec.distance_self p).trans_le hgap⟩

theorem Reaches.trans {gap : ℝ} (h : f.Reaches q gap) (p : Vec ℝ) :
    f.Reaches p (p.distance q + gap) := by
  obtain ⟨x, hx, hle⟩ := h
  exact ⟨x, hx, (Vec.distance_triangle p q x).trans (add_le_add_right hle _)⟩

theorem Reaches.mono {gap gap' : ℝ} (h : f.Reaches p gap) (hle : gap ≤ gap') :
    f.Reaches p gap' := by
  obtain ⟨x, hx, hgap⟩ := h
  exact ⟨x, hx, hgap.trans hle⟩

end Face

end WingBox
