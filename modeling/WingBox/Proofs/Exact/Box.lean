import WingBox.Proofs.Exact.Real
import WingBox.Surface.Shape

/-!
# Boxes with exact numbers

The box around points is the smallest box that contains them: it lies within another box if and
only if this one contains the points (`Box.within_including_iff`, `Box.within_of_ofPoints?`).
Boxes that overlap still do if both are replaced by larger ones.
-/

namespace WingBox

open Scalar

namespace Vec

variable (a b : Vec ℝ)

@[simp] theorem inf_x : (a.inf b).x = min a.x b.x := by unfold inf; grind

@[simp] theorem inf_y : (a.inf b).y = min a.y b.y := by unfold inf; grind

@[simp] theorem inf_z : (a.inf b).z = min a.z b.z := by unfold inf; grind

@[simp] theorem sup_x : (a.sup b).x = max a.x b.x := by unfold sup; grind

@[simp] theorem sup_y : (a.sup b).y = max a.y b.y := by unfold sup; grind

@[simp] theorem sup_z : (a.sup b).z = max a.z b.z := by unfold sup; grind

end Vec

namespace Box

variable {a a' b b' c : Box ℝ} {p : Vec ℝ}

/-- The box lies in another one. -/
def Within (a b : Box ℝ) : Prop :=
  (b.lo.x ≤ a.lo.x ∧ a.hi.x ≤ b.hi.x) ∧ (b.lo.y ≤ a.lo.y ∧ a.hi.y ≤ b.hi.y) ∧
    (b.lo.z ≤ a.lo.z ∧ a.hi.z ≤ b.hi.z)

theorem Within.refl (b : Box ℝ) : b.Within b := ⟨⟨le_rfl, le_rfl⟩, ⟨le_rfl, le_rfl⟩, le_rfl, le_rfl⟩

theorem within_point_iff : (point p).Within b ↔ b.Contains p := Iff.rfl

/-- Growing a box to reach a point is growing it as little as possible. -/
theorem within_including_iff : (b.including p).Within c ↔ b.Within c ∧ c.Contains p := by
  simp only [Within, Contains, including, Vec.inf_x, Vec.inf_y, Vec.inf_z, Vec.sup_x, Vec.sup_y,
    Vec.sup_z, le_min_iff, max_le_iff]
  tauto

theorem within_foldl_including_iff {ps : List (Vec ℝ)} :
    (ps.foldl including b).Within c ↔ b.Within c ∧ ∀ p ∈ ps, c.Contains p := by
  induction ps generalizing b with
  | nil => simp
  | cons p ps ih => rw [List.foldl_cons, ih, within_including_iff, List.forall_mem_cons, and_assoc]

/-- The box around points lies in every box that contains them. -/
theorem within_of_ofPoints? {ps : List (Vec ℝ)} (h : ofPoints? ps = some b) :
    b.Within c ↔ ∀ p ∈ ps, c.Contains p := by
  cases ps with
  | nil => cases h
  | cons p ps =>
    obtain rfl := Option.some.inj h
    rw [within_foldl_including_iff, within_point_iff, List.forall_mem_cons]

/-- The box around points contains them. -/
theorem contains_of_ofPoints? {ps : List (Vec ℝ)} (h : ofPoints? ps = some b) (hp : p ∈ ps) :
    b.Contains p :=
  (within_of_ofPoints? h).1 (.refl b) p hp

/-- Points of a box are no farther apart than its corners. -/
theorem Contains.distance_le {q : Vec ℝ} (hp : b.Contains p) (hq : b.Contains q) :
    p.distance q ≤ b.diagonal := by
  have hside {lo hi x y : ℝ} (hx : lo ≤ x ∧ x ≤ hi) (hy : lo ≤ y ∧ y ≤ hi) :
      (x - y) * (x - y) ≤ (hi - lo) * (hi - lo) :=
    mul_self_le_mul_self_of_le_of_neg_le (by linarith) (by linarith)
  obtain ⟨hpx, hpy, hpz⟩ := hp
  obtain ⟨hqx, hqy, hqz⟩ := hq
  exact Real.sqrt_le_sqrt (add_le_add (add_le_add (hside hpx hqx) (hside hpy hqy)) (hside hpz hqz))

theorem Within.enlarged (h : a.Within b) (g : ℝ) : (a.enlarged g).Within (b.enlarged g) := by
  simp only [Within, Box.enlarged, Vec.sub_x, Vec.sub_y, Vec.sub_z, Vec.add_x, Vec.add_y, Vec.add_z,
    sub_le_sub_iff_right, add_le_add_iff_right]
  exact h

theorem Overlaps.mono (h : a.Overlaps b) (ha : a.Within a') (hb : b.Within b') :
    a'.Overlaps b' := by
  unfold Overlaps Within at *
  refine ⟨⟨?_, ?_⟩, ⟨?_, ?_⟩, ?_, ?_⟩ <;> linarith

/-- Boxes that overlap when one of them is enlarged do so when both are enlarged no less. -/
theorem Overlaps.enlarged {e g : ℝ} (h : (a.enlarged e).Overlaps b) (heg : e ≤ g) (hg : 0 ≤ g) :
    (b.enlarged g).Overlaps (a.enlarged g) := by
  unfold Overlaps at *
  simp only [Box.enlarged, Vec.sub_x, Vec.sub_y, Vec.sub_z, Vec.add_x, Vec.add_y, Vec.add_z] at *
  refine ⟨⟨?_, ?_⟩, ⟨?_, ?_⟩, ?_, ?_⟩ <;> linarith

end Box

/-- The box around a triangle lies in every box that contains the vertices. -/
theorem Triangle.box_within_iff {t : Triangle ℝ} {b : Box ℝ} :
    t.box.Within b ↔ ∀ p ∈ t.vertices, b.Contains p := by
  simp only [box, Box.within_including_iff, Box.within_point_iff, vertices, List.forall_mem_cons,
    and_assoc]
  simp

/-- A triangle in a box has no larger an area than the square of the diagonal, halved. -/
theorem Triangle.norm_cross_le {t : Triangle ℝ} {b : Box ℝ} (h : t.box.Within b) :
    t.cross.norm ≤ b.diagonal * b.diagonal := by
  obtain ⟨ha, hb, hc, -⟩ := by simpa only [vertices, List.forall_mem_cons] using box_within_iff.1 h
  exact (Vec.norm_cross_le _ _).trans
    (mul_le_mul (hb.distance_le ha) (hc.distance_le ha) (Vec.norm_nonneg _) (Vec.norm_nonneg _))

/-! ### Boxes of shapes -/

namespace Shape

variable {s : Shape ℝ} {t : Triangle ℝ}

/-- The triangle lies in the box around the shape. -/
def Encloses (s : Shape ℝ) (t : Triangle ℝ) : Prop := ∃ b, s.box? = some b ∧ t.box.Within b

theorem vertices_subset (ht : t ∈ s.triangles) : ∀ p ∈ t.vertices, p ∈ s.vertices := by
  intro p hp
  obtain ⟨f, hf, ht⟩ := List.mem_flatMap.1 ht
  exact List.mem_append_left _ (List.mem_flatMap.2 ⟨f, hf, List.mem_flatMap.2 ⟨t, ht, hp⟩⟩)

/-- The box around a shape has the corners of its facets. -/
theorem contains_of_mem {b : Box ℝ} (hb : s.box? = some b) (ht : t ∈ s.triangles) {p : Vec ℝ}
    (hp : p ∈ t.vertices) : b.Contains p :=
  Box.contains_of_ofPoints? hb (vertices_subset ht p hp)

/-- A shape with a facet has a box, and the facet lies in it. -/
theorem encloses_of_mem (ht : t ∈ s.triangles) : s.Encloses t := by
  have hbox : ∃ b, s.box? = some b := by
    unfold box?
    cases hs : s.vertices with
    | nil => exact absurd (hs ▸ vertices_subset ht t.a List.mem_cons_self) List.not_mem_nil
    | cons p ps => exact ⟨_, rfl⟩
  obtain ⟨b, hb⟩ := hbox
  exact ⟨b, hb, Triangle.box_within_iff.2 fun _ hp => contains_of_mem hb ht hp⟩

end Shape

end WingBox
