import WingBox.Proofs.Exact.Real
import WingBox.Proofs.Cut.Pieces

/-!
# Parts of triangles

With exact numbers a cut divides a triangle: the two polygons are a corner and the rest, or the two
sides of a line through a vertex (`Triangle.parted_of_cut?`), whatever was snapped to the plane.

`Triangle.PartOf` is a triangle inside another one that faces the same way, and a `Dissection` is
a list of such parts that make up all of it, in the sense of the vectors across.

* `Triangle.Parted.dissection`: the triangles fanned out over the two polygons are a dissection;
* `Triangle.Dissection.flatMap`: parts can be dissected again;
* `Triangle.Dissection.sum_area`: the areas of a dissection sum up to the area.
-/

namespace WingBox

open Scalar

/-! ### Coordinates in a triangle -/

/-- Coordinates of a point of a triangle along the sides that meet in the first vertex. -/
def InSimplex (u : ℝ × ℝ) : Prop := 0 ≤ u.1 ∧ 0 ≤ u.2 ∧ u.1 + u.2 ≤ 1

/-- A parameter of a point strictly between two others. -/
def Inner (s : ℝ) : Prop := 0 < s ∧ s < 1

theorem Inner.one_sub {s : ℝ} (h : Inner s) : Inner (1 - s) :=
  ⟨sub_pos.2 h.2, sub_lt_self 1 h.1⟩

/-- A share of a share, and what is left of the first one. -/
theorem Inner.products {s r : ℝ} (hs : Inner s) (hr : Inner r) :
    0 ≤ s * r ∧ 0 ≤ s * (1 - r) :=
  ⟨mul_nonneg hs.1.le hr.1.le, mul_nonneg hs.1.le hr.one_sub.1.le⟩

/-! The vertices and points of the sides. -/

namespace InSimplex

variable {s : ℝ}

theorem a : InSimplex (0, 0) := by norm_num [InSimplex]

theorem b : InSimplex (1, 0) := by norm_num [InSimplex]

theorem c : InSimplex (0, 1) := by norm_num [InSimplex]

theorem ab (h : Inner s) : InSimplex (s, 0) := ⟨h.1.le, le_rfl, by simpa using h.2.le⟩

theorem bc (h : Inner s) : InSimplex (1 - s, s) := ⟨h.one_sub.1.le, h.1.le, by simp⟩

theorem ca (h : Inner s) : InSimplex (0, 1 - s) := ⟨le_rfl, h.one_sub.1.le, by simpa using h.1.le⟩

end InSimplex

/-- A triangle given by coordinates of its vertices in another one. -/
structure Inset where
  /-- Coordinates of the first vertex. -/
  a : ℝ × ℝ
  /-- Coordinates of the second vertex. -/
  b : ℝ × ℝ
  /-- Coordinates of the third vertex. -/
  c : ℝ × ℝ

namespace Inset

/-- The share of the triangle that the inset has, negative if it faces the other way. -/
noncomputable def share (p : Inset) : ℝ :=
  (p.b.1 - p.a.1) * (p.c.2 - p.a.2) - (p.b.2 - p.a.2) * (p.c.1 - p.a.1)

/-- The inset lies in the triangle and faces the same way. -/
structure Proper (p : Inset) : Prop where
  a : InSimplex p.a
  b : InSimplex p.b
  c : InSimplex p.c
  share : 0 ≤ p.share

end Inset

namespace Triangle

variable {t p q : Triangle ℝ}

/-- The point with the coordinates. -/
noncomputable def point (t : Triangle ℝ) (u : ℝ × ℝ) : Vec ℝ :=
  t.a + u.1 • (t.b - t.a) + u.2 • (t.c - t.a)

/-- The triangle that an inset is. -/
noncomputable def inset (t : Triangle ℝ) (p : Inset) : Triangle ℝ :=
  ⟨t.point p.a, t.point p.b, t.point p.c⟩

theorem a_eq_point (t : Triangle ℝ) : t.a = t.point (0, 0) := by
  unfold point
  module

theorem b_eq_point (t : Triangle ℝ) : t.b = t.point (1, 0) := by
  unfold point
  module

theorem c_eq_point (t : Triangle ℝ) : t.c = t.point (0, 1) := by
  unfold point
  module

theorem lerp_a_b (t : Triangle ℝ) (s : ℝ) : Vec.lerp t.a t.b s = t.point (s, 0) := by
  unfold point Vec.lerp
  module

theorem lerp_b_c (t : Triangle ℝ) (s : ℝ) : Vec.lerp t.b t.c s = t.point (1 - s, s) := by
  unfold point Vec.lerp
  module

theorem lerp_c_a (t : Triangle ℝ) (s : ℝ) : Vec.lerp t.c t.a s = t.point (0, 1 - s) := by
  unfold point Vec.lerp
  module

theorem cross_inset (t : Triangle ℝ) (p : Inset) : (t.inset p).cross = p.share • t.cross := by
  ext <;> simp [inset, Inset.share, point, cross, Vec.cross] <;> ring

/-! ### Parts -/

/-- The point lies in the triangle. -/
def Holds (t : Triangle ℝ) (x : Vec ℝ) : Prop := ∃ u, InSimplex u ∧ x = t.point u

/-- The triangle lies in another one and faces the same way. -/
structure PartOf (p t : Triangle ℝ) : Prop where
  /-- The vertices lie in the other triangle. -/
  vertices : ∀ x ∈ p.vertices, t.Holds x
  /-- The vector across is a multiple of that of the other triangle. -/
  cross : ∃ k : ℝ, 0 ≤ k ∧ p.cross = k • t.cross

theorem partOf_inset {p : Inset} (h : p.Proper) : (t.inset p).PartOf t where
  vertices := by
    simp only [vertices, inset, List.forall_mem_cons]
    exact ⟨⟨_, h.a, rfl⟩, ⟨_, h.b, rfl⟩, ⟨_, h.c, rfl⟩, List.forall_mem_nil _⟩
  cross := ⟨_, h.share, cross_inset t p⟩

theorem PartOf.refl (t : Triangle ℝ) : t.PartOf t where
  vertices := by
    simp only [Triangle.vertices, List.forall_mem_cons]
    exact ⟨⟨_, .a, t.a_eq_point⟩, ⟨_, .b, t.b_eq_point⟩, ⟨_, .c, t.c_eq_point⟩,
      List.forall_mem_nil _⟩
  cross := ⟨1, zero_le_one, (one_smul ℝ _).symm⟩

/-- A triangle whose vertices are points of another one lies in it. -/
theorem holds_of_vertices (h : ∀ v ∈ p.vertices, t.Holds v) {x : Vec ℝ} (hx : p.Holds x) :
    t.Holds x := by
  simp only [vertices, List.forall_mem_cons] at h
  obtain ⟨⟨u, hu, ha⟩, ⟨v, hv, hb⟩, ⟨w, hw, hc⟩, -⟩ := h
  obtain ⟨r, hr, rfl⟩ := hx
  obtain ⟨hr₁, hr₂, hr₃⟩ := hr
  have hr₀ : 0 ≤ 1 - r.1 - r.2 := by linarith
  -- its coordinates are the means of those of the vertices
  refine ⟨(1 - r.1 - r.2) • u + r.1 • v + r.2 • w, ?_, ?_⟩
  · obtain ⟨hu₁, hu₂, hu₃⟩ := hu
    obtain ⟨hv₁, hv₂, hv₃⟩ := hv
    obtain ⟨hw₁, hw₂, hw₃⟩ := hw
    simp only [InSimplex, Prod.fst_add, Prod.snd_add, Prod.smul_fst, Prod.smul_snd, smul_eq_mul]
    refine ⟨by positivity, by positivity, ?_⟩
    nlinarith
  · simp only [point, ha, hb, hc, Prod.fst_add, Prod.snd_add, Prod.smul_fst, Prod.smul_snd,
      smul_eq_mul]
    module

/-- A point of a part is a point of the triangle. -/
theorem PartOf.holds (h : p.PartOf t) {x : Vec ℝ} (hx : p.Holds x) : t.Holds x :=
  holds_of_vertices h.vertices hx

theorem PartOf.trans (h : p.PartOf q) (h' : q.PartOf t) : p.PartOf t where
  vertices x hx := h'.holds (h.vertices x hx)
  cross := by
    obtain ⟨k, hk, hp⟩ := h.cross
    obtain ⟨l, hl, hq⟩ := h'.cross
    exact ⟨k * l, mul_nonneg hk hl, by rw [hp, hq, mul_smul]⟩

/-! ### Dissections -/

/-- Triangles that make up another one. -/
structure Dissection (t : Triangle ℝ) (ts : List (Triangle ℝ)) : Prop where
  /-- All of them are parts. -/
  parts : ∀ p ∈ ts, p.PartOf t
  /-- Their vectors across sum up to that of the triangle. -/
  cross : (ts.map Triangle.cross).sum = t.cross

namespace Dissection

variable {ts us : List (Triangle ℝ)}

theorem perm (h : t.Dissection ts) (hperm : us.Perm ts) : t.Dissection us where
  parts p hp := h.parts p (hperm.mem_iff.1 hp)
  cross := by rw [(hperm.map Triangle.cross).sum_eq, h.cross]

theorem singleton (t : Triangle ℝ) : t.Dissection [t] where
  parts p hp := by
    obtain rfl := List.mem_singleton.1 hp
    exact .refl p
  cross := by simp

/-- Insets whose shares sum up to one. -/
theorem of_insets (ps : List Inset) (hps : ∀ p ∈ ps, p.Proper)
    (hsum : (ps.map Inset.share).sum = 1) : t.Dissection (ps.map t.inset) where
  parts := List.forall_mem_map.2 fun p hp => partOf_inset (hps p hp)
  cross := by
    have hcross : (ps.map t.inset).map Triangle.cross =
        (ps.map Inset.share).map fun k => k • t.cross := by
      rw [List.map_map, List.map_map]
      exact List.map_congr_left fun p _ => t.cross_inset p
    rw [hcross, ← List.sum_smul, hsum, one_smul]

/-- Parts can be dissected again. -/
theorem flatMap {f : Triangle ℝ → List (Triangle ℝ)} (h : t.Dissection (ts ++ us))
    (hf : ∀ p ∈ ts, p.Dissection (f p)) : t.Dissection (ts.flatMap f ++ us) where
  parts p hp := by
    rcases List.mem_append.1 hp with hp | hp
    · obtain ⟨q, hq, hp⟩ := List.mem_flatMap.1 hp
      exact ((hf q hq).parts p hp).trans (h.parts q (List.mem_append_left _ hq))
    · exact h.parts p (List.mem_append_right _ hp)
  cross := by
    rw [← h.cross, List.map_append, List.sum_append, List.map_append, List.sum_append]
    refine congrArg (· + _) ?_
    clear h
    induction ts with
    | nil => rfl
    | cons q ts ih =>
      rw [List.forall_mem_cons] at hf
      simp only [List.flatMap_cons, List.map_append, List.sum_append, List.map_cons,
        List.sum_cons, ih hf.2, hf.1.cross]

end Dissection

/-- The vectors across parts add up to a multiple of that of the triangle, and their areas to the
same multiple of its area. -/
theorem sum_of_parts {ts : List (Triangle ℝ)} (h : ∀ p ∈ ts, p.PartOf t) : ∃ k : ℝ, 0 ≤ k ∧
    (ts.map Triangle.cross).sum = k • t.cross ∧ (ts.map area).sum = k * t.area := by
  induction ts with
  | nil => exact ⟨0, le_rfl, by simp, by simp⟩
  | cons p ts ih =>
    rw [List.forall_mem_cons] at h
    obtain ⟨k, hk, hcross, harea⟩ := ih h.2
    obtain ⟨l, hl, hp⟩ := h.1.cross
    refine ⟨l + k, add_nonneg hl hk, ?_, ?_⟩
    · rw [List.map_cons, List.sum_cons, hcross, hp, add_smul]
    · rw [List.map_cons, List.sum_cons, harea, area, area, hp, Vec.norm_smul, abs_of_nonneg hl]
      ring

/-- The areas of a dissection sum up to the area. -/
theorem Dissection.sum_area {ts : List (Triangle ℝ)} (h : t.Dissection ts) :
    (ts.map area).sum = t.area := by
  obtain ⟨k, hk, hcross, harea⟩ := sum_of_parts h.parts
  rw [h.cross] at hcross
  calc (ts.map area).sum = 0.5 * (k • t.cross).norm := by
        rw [harea, Vec.norm_smul, abs_of_nonneg hk, area]
        ring
    _ = t.area := by rw [← hcross, area]

/-! ### Cuts -/

/-- The polygons on the two sides of a line through a triangle: a corner and the rest, or the two
sides of a line through a vertex. -/
inductive Parted (t : Triangle ℝ) : List (Vec ℝ) → List (Vec ℝ) → Prop
  | cornerA {s r : ℝ} (hs : Inner s) (hr : Inner r) :
    Parted t [t.a, Vec.lerp t.a t.b s, Vec.lerp t.c t.a r]
      [Vec.lerp t.a t.b s, t.b, t.c, Vec.lerp t.c t.a r]
  | cornerB {s r : ℝ} (hs : Inner s) (hr : Inner r) :
    Parted t [Vec.lerp t.a t.b s, t.b, Vec.lerp t.b t.c r]
      [t.a, Vec.lerp t.a t.b s, Vec.lerp t.b t.c r, t.c]
  | cornerC {s r : ℝ} (hs : Inner s) (hr : Inner r) :
    Parted t [Vec.lerp t.b t.c s, t.c, Vec.lerp t.c t.a r]
      [t.a, t.b, Vec.lerp t.b t.c s, Vec.lerp t.c t.a r]
  | throughA {s : ℝ} (hs : Inner s) :
    Parted t [t.a, t.b, Vec.lerp t.b t.c s] [t.a, Vec.lerp t.b t.c s, t.c]
  | throughB {s : ℝ} (hs : Inner s) :
    Parted t [t.a, t.b, Vec.lerp t.c t.a s] [t.b, t.c, Vec.lerp t.c t.a s]
  | throughC {s : ℝ} (hs : Inner s) :
    Parted t [t.a, Vec.lerp t.a t.b s, t.c] [Vec.lerp t.a t.b s, t.b, t.c]
  /-- Either polygon may be the upper one. -/
  | swap {ps qs : List (Vec ℝ)} (h : Parted t ps qs) : Parted t qs ps

/-- The triangles fanned out over the two polygons make up the triangle. -/
theorem Parted.dissection {ps qs : List (Vec ℝ)} (h : t.Parted ps qs) :
    t.Dissection (wholeFan ps ++ wholeFan qs) := by
  induction h with
  | @cornerA s r hs hr =>
    obtain ⟨hsr, hsr'⟩ := hs.products hr
    rw [lerp_a_b, lerp_c_a, a_eq_point, b_eq_point, c_eq_point]
    refine .of_insets [⟨(0, 0), (s, 0), (0, 1 - r)⟩, ⟨(s, 0), (1, 0), (0, 1)⟩,
      ⟨(s, 0), (0, 1), (0, 1 - r)⟩] ?_ (by simp [Inset.share])
    simp only [List.forall_mem_cons]
    exact ⟨⟨.a, .ab hs, .ca hr, by unfold Inset.share; linarith⟩,
      ⟨.ab hs, .b, .c, by unfold Inset.share; linarith [hs.2]⟩,
      ⟨.ab hs, .c, .ca hr, by unfold Inset.share; linarith⟩, List.forall_mem_nil _⟩
  | @cornerB s r hs hr =>
    obtain ⟨hsr, hsr'⟩ := hr.products hs
    rw [lerp_a_b, lerp_b_c, a_eq_point, b_eq_point, c_eq_point]
    refine .of_insets [⟨(s, 0), (1, 0), (1 - r, r)⟩, ⟨(0, 0), (s, 0), (1 - r, r)⟩,
      ⟨(0, 0), (1 - r, r), (0, 1)⟩] ?_ (by simp [Inset.share]; ring)
    simp only [List.forall_mem_cons]
    exact ⟨⟨.ab hs, .b, .bc hr, by unfold Inset.share; linarith⟩,
      ⟨.a, .ab hs, .bc hr, by unfold Inset.share; linarith⟩,
      ⟨.a, .bc hr, .c, by unfold Inset.share; linarith [hr.2]⟩, List.forall_mem_nil _⟩
  | @cornerC s r hs hr =>
    obtain ⟨hsr, hsr'⟩ := hs.one_sub.products hr
    rw [lerp_b_c, lerp_c_a, a_eq_point, b_eq_point, c_eq_point]
    refine .of_insets [⟨(1 - s, s), (0, 1), (0, 1 - r)⟩, ⟨(0, 0), (1, 0), (1 - s, s)⟩,
      ⟨(0, 0), (1 - s, s), (0, 1 - r)⟩] ?_ (by simp [Inset.share]; ring)
    simp only [List.forall_mem_cons]
    exact ⟨⟨.bc hs, .c, .ca hr, by unfold Inset.share; linarith⟩,
      ⟨.a, .b, .bc hs, by unfold Inset.share; linarith [hs.1]⟩,
      ⟨.a, .bc hs, .ca hr, by unfold Inset.share; linarith⟩, List.forall_mem_nil _⟩
  | @throughA s hs =>
    rw [lerp_b_c, a_eq_point, b_eq_point, c_eq_point]
    refine .of_insets [⟨(0, 0), (1, 0), (1 - s, s)⟩, ⟨(0, 0), (1 - s, s), (0, 1)⟩] ?_
      (by simp [Inset.share])
    simp only [List.forall_mem_cons]
    exact ⟨⟨.a, .b, .bc hs, by unfold Inset.share; linarith [hs.1]⟩,
      ⟨.a, .bc hs, .c, by unfold Inset.share; linarith [hs.2]⟩, List.forall_mem_nil _⟩
  | @throughB s hs =>
    rw [lerp_c_a, a_eq_point, b_eq_point, c_eq_point]
    refine .of_insets [⟨(0, 0), (1, 0), (0, 1 - s)⟩, ⟨(1, 0), (0, 1), (0, 1 - s)⟩] ?_
      (by simp [Inset.share])
    simp only [List.forall_mem_cons]
    exact ⟨⟨.a, .b, .ca hs, by unfold Inset.share; linarith [hs.2]⟩,
      ⟨.b, .c, .ca hs, by unfold Inset.share; linarith [hs.1]⟩, List.forall_mem_nil _⟩
  | @throughC s hs =>
    rw [lerp_a_b, a_eq_point, b_eq_point, c_eq_point]
    refine .of_insets [⟨(0, 0), (s, 0), (0, 1)⟩, ⟨(s, 0), (1, 0), (0, 1)⟩] ?_
      (by simp [Inset.share])
    simp only [List.forall_mem_cons]
    exact ⟨⟨.a, .ab hs, .c, by unfold Inset.share; linarith [hs.1]⟩,
      ⟨.ab hs, .b, .c, by unfold Inset.share; linarith [hs.2]⟩, List.forall_mem_nil _⟩
  | swap h ih => exact ih.perm List.perm_append_comm

/-- Where a value stands to zero, in all comparisons. -/
theorem sign_cases (x : ℝ) :
    (x < 0 ∧ ¬ 0 < x ∧ x ≤ 0 ∧ ¬ 0 ≤ x ∧ x ≠ 0) ∨ x = 0 ∨
      (¬ x < 0 ∧ 0 < x ∧ ¬ x ≤ 0 ∧ 0 ≤ x ∧ x ≠ 0) := by
  rcases lt_trichotomy x 0 with h | h | h
  · exact .inl ⟨h, h.not_gt, h.le, h.not_ge, h.ne⟩
  · exact .inr (.inl h)
  · exact .inr (.inr ⟨h.not_gt, h, h.not_ge, h.le, h.ne'⟩)

/-- Between values of opposite signs lies a zero. -/
theorem inner_of_mul_neg {x y : ℝ} (h : x * y < 0) : Inner (x / (x - y)) := by
  rcases mul_neg_iff.1 h with ⟨hx, hy⟩ | ⟨hx, hy⟩
  · have hxy : 0 < x - y := by linarith
    exact ⟨div_pos hx hxy, (div_lt_one hxy).2 (by linarith)⟩
  · have hxy : x - y < 0 := by linarith
    exact ⟨div_pos_of_neg_of_neg hx hxy, (div_lt_one_of_neg hxy).2 (by linarith)⟩

/-- A triangle that is cut is parted. -/
theorem parted_of_cut? {plane : Plane ℝ} {h : Halves ℝ} (hcut : t.cut? plane = some h) :
    t.Parted (t.upper plane) (t.lower plane) := by
  obtain ⟨-, -, hcontacts, hupper, hlower⟩ := halves_of_cut? hcut
  simp only [upper, lower, sides] at hcontacts hupper hlower ⊢
  generalize plane.snappedDistance t.a = x, plane.snappedDistance t.b = y,
    plane.snappedDistance t.c = z at hcontacts hupper hlower ⊢
  have hxy := inner_of_mul_neg (x := x) (y := y)
  have hyz := inner_of_mul_neg (x := y) (y := z)
  have hzx := inner_of_mul_neg (x := z) (y := x)
  -- the signs of the vertices decide which sides are crossed; most patterns leave too few points
  rcases sign_cases x with hx | hx | hx <;> rcases sign_cases y with hy | hy | hy <;>
    rcases sign_cases z with hz | hz | hz <;>
    simp [Side.startIf, Side.crossing, Side.contacts, mul_neg_iff, hx, hy, hz]
      at hcontacts hupper hlower hxy hyz hzx ⊢
  · exact .cornerC hyz hzx
  · exact .swap (.throughB hzx)
  · exact .cornerB hxy hyz
  · exact .swap (.throughC hxy)
  · exact .swap (.cornerA hxy hzx)
  · exact .swap (.throughA hyz)
  · exact .throughA hyz
  · exact .cornerA hxy hzx
  · exact .throughC hxy
  · exact .swap (.cornerB hxy hyz)
  · exact .throughB hzx
  · exact .swap (.cornerC hyz hzx)

end Triangle

end WingBox
