import WingBox.Proofs.Exact.Arclength
import WingBox.Proofs.Space.Near

/-!
# Changes of wires

A wire that is made of points has no two neighbours near to each other (`Wire.Proper`).  To run it
the other way and to close it keeps this so, but a transformation may bring neighbours together, and
no point is dropped then.

* `Wire.isChain_apply_iff`, `Wire.isChain_run_iff`: what holds of all neighbours is kept by one
  change, and by a run of changes, if it holds of points that are not near and none is moved;
* `Wire.isChain_run_append_iff`: after a transformation it depends on the images of the neighbours;
* `Wire.Divisible`: no curve query divides by zero, which is so as long as neighbours are different
  points (`Wire.divisible_iff`);
* `Wire.run_proper`: what a run of changes does to both.
-/

namespace WingBox

open Scalar

namespace Wire

variable {K : Type} [Scalar K]

/-! ### Changes -/

/-- A change of a wire. -/
inductive Change (K : Type) where
  /-- The wire is run the other way. -/
  | reversed
  /-- The wire is closed. -/
  | closed
  /-- The wire is put elsewhere. -/
  | transformed (m : Transform K)

/-- The wire after a change. -/
def Change.apply (w : Wire K) : Change K → Wire K
  | reversed => w.reversed
  | closed => w.closed
  | transformed m => w.transformed m

/-- The wire after some changes, one after the other. -/
def run (w : Wire K) (cs : List (Change K)) : Wire K := cs.foldl Change.apply w

/-! ### Neighbours -/

section Neighbours

variable {R : Vec K → Vec K → Prop} {w : Wire K} {c : Change K} {cs : List (Change K)}

omit [Scalar K] in
theorem isChain_reversed_iff (hsymm : ∀ p q, R p q → R q p) :
    w.reversed.points.IsChain R ↔ w.points.IsChain R := by
  rw [reversed, List.isChain_reverse]
  exact ⟨List.IsChain.imp fun p q => hsymm q p, List.IsChain.imp hsymm⟩

theorem isChain_transformed_iff (m : Transform K) :
    (w.transformed m).points.IsChain R ↔
      w.points.IsChain fun p q => R (m.apply p) (m.apply q) := List.isChain_map _

variable (hsymm : ∀ p q, R p q → R q p) (hapart : ∀ p q, ¬ p.Near q → R p q)
include hsymm hapart

/-- The edge that closes a wire has its ends apart, for else the wire would be closed. -/
theorem isChain_closed_iff : w.closed.points.IsChain R ↔ w.points.IsChain R := by
  by_cases hclosed : w.Closed
  · rw [closed, if_pos hclosed]
  rw [points_closed hclosed, List.isChain_append]
  refine ⟨And.left, fun h => ⟨h, .singleton _, fun p hp q hq => ?_⟩⟩
  obtain rfl : w.start = q := Option.some.inj hq
  obtain rfl : w.stop = p :=
    Option.some.inj ((List.getLast?_eq_some_getLast w.points_ne_nil).symm.trans hp)
  by_cases htwo : 2 < w.points.length
  · exact hsymm _ _ (hapart _ _ fun hnear => hclosed ⟨htwo, hnear⟩)
  · -- the only edge is run back
    have hlength := w.two_le_length
    obtain ⟨a, b, hpoints⟩ := List.length_eq_two.1 (by omega : w.points.length = 2)
    rw [start_of_points hpoints, stop_of_points (show w.points = [a] ++ [b] from hpoints)]
    rw [hpoints] at h
    exact hsymm a b (List.isChain_cons_cons.1 h).1

theorem isChain_apply_iff (hc : ∀ m, c ≠ .transformed m) :
    (c.apply w).points.IsChain R ↔ w.points.IsChain R := by
  cases c with
  | reversed => exact isChain_reversed_iff hsymm
  | closed => exact isChain_closed_iff hsymm hapart
  | transformed m => exact absurd rfl (hc m)

/-- As long as no point is moved nothing changes for the neighbours. -/
theorem isChain_run_iff (hcs : ∀ m, Change.transformed m ∉ cs) :
    (w.run cs).points.IsChain R ↔ w.points.IsChain R := by
  induction cs generalizing w with
  | nil => exact Iff.rfl
  | cons c cs ih =>
    have hc : ∀ m, c ≠ .transformed m := fun m hm => hcs m (hm ▸ List.mem_cons_self)
    have hrest : ∀ m, Change.transformed m ∉ cs := fun m hm => hcs m (List.mem_cons_of_mem c hm)
    exact (ih hrest).trans (isChain_apply_iff hsymm hapart hc)

/-- The last transformation decides. -/
theorem isChain_run_append_iff {before after : List (Change K)} {m : Transform K}
    (hafter : ∀ m', Change.transformed m' ∉ after) :
    (w.run (before ++ .transformed m :: after)).points.IsChain R ↔
      (w.run before).points.IsChain fun p q => R (m.apply p) (m.apply q) := by
  have hrun : w.run (before ++ .transformed m :: after) =
      ((w.run before).transformed m).run after := List.foldl_append ..
  rw [hrun, isChain_run_iff hsymm hapart hafter, isChain_transformed_iff]

/-- Transformations that keep a relation of points keep it for the neighbours. -/
theorem isChain_run (hkeep : ∀ m, Change.transformed m ∈ cs →
    ∀ p q, R p q → R (m.apply p) (m.apply q)) (h : w.points.IsChain R) :
    (w.run cs).points.IsChain R := by
  induction cs generalizing w with
  | nil => exact h
  | cons c cs ih =>
    refine ih (fun m hm => hkeep m (List.mem_cons_of_mem c hm)) ?_
    cases c with
    | reversed => exact (isChain_reversed_iff hsymm).2 h
    | closed => exact (isChain_closed_iff hsymm hapart).2 h
    | transformed m => exact (isChain_transformed_iff m).2 (h.imp (hkeep m List.mem_cons_self))

end Neighbours

/-! ### Proper wires -/

/-- No two neighbours are near to each other. -/
def Proper (w : Wire K) : Prop := w.points.IsChain fun p q => ¬ p.Near q

instance (w : Wire K) : Decidable w.Proper :=
  inferInstanceAs (Decidable (w.points.IsChain fun p q => ¬ p.Near q))

theorem proper_of_ofPoints? [Vec.Measured K] {ps : List (Vec K)} {w : Wire K}
    (h : ofPoints? ps = some w) : w.Proper := by
  unfold Proper
  rw [points_of_ofPoints? h]
  cases ps with
  | nil => exact .nil
  | cons p ps => exact (isChain_distinctAfter p ps).imp fun _ _ => Vec.not_near_of_le

theorem not_near_symm [Vec.Measured K] (p q : Vec K) (h : ¬ p.Near q) : ¬ q.Near p :=
  mt Vec.Near.symm h

/-- A wire stays proper if no transformation brings points near to each other. -/
theorem Proper.run [Vec.Measured K] {w : Wire K} (h : w.Proper) {cs : List (Change K)}
    (hkeep : ∀ m, Change.transformed m ∈ cs →
      ∀ p q, ¬ p.Near q → ¬ (m.apply p).Near (m.apply q)) : (w.run cs).Proper :=
  isChain_run not_near_symm (fun _ _ => id) hkeep h

/-- After the last transformation it is proper if the images of its neighbours are not near. -/
theorem proper_run_append_iff [Vec.Measured K] {w : Wire K} {before after : List (Change K)}
    {m : Transform K} (hafter : ∀ m', Change.transformed m' ∉ after) :
    (w.run (before ++ .transformed m :: after)).Proper ↔
      (w.run before).points.IsChain fun p q => ¬ (m.apply p).Near (m.apply q) :=
  isChain_run_append_iff not_near_symm (fun _ _ => id) hafter

/-! ### Divisors -/

/-- What curve queries divide by is not zero: the whole length for parameters, also that of a
projection, the length of an edge for a tangent, and its square for the foot of a point.  Where the
point at a parameter is found, the divisor is looked at first (`Wire.pointAt`). -/
structure Divisible (w : Wire ℝ) : Prop where
  length : w.length ≠ 0
  tangent : ∀ t, (w.locate t).edge.span.norm ≠ 0
  foot : ∀ e ∈ w.edges, e.span.normSq ≠ 0

theorem locate_mem_edges (w : Wire ℝ) (t : ℝ) : (w.locate t).edge ∈ w.edges := by
  refine mem_of_mem_spansFrom (b := 0) ?_
  unfold locate
  cases hfind : w.spans.find? fun r => w.arclength t < r.hi with
  | none => exact List.getLast_mem w.spans_ne_nil
  | some r => exact List.mem_of_find?_eq_some hfind

theorem normSq_pos_of_ne {p q : Vec ℝ} (h : p ≠ q) : 0 < (q - p).normSq := by
  refine Vec.norm_pos_iff.1 ((Vec.norm_nonneg _).lt_of_ne' fun hzero => h ?_)
  exact (sub_eq_zero.1 (Vec.eq_zero_of_norm hzero)).symm

/-- Edges between different points have some length. -/
theorem forall_length_pos {w : Wire ℝ} (h : w.points.IsChain (· ≠ ·)) :
    ∀ e ∈ w.edges, 0 < e.length := fun e he =>
  Vec.norm_pos_iff.2 (normSq_pos_of_ne (forall_mem_zipWith_tail_iff.2 h e he))

/-- Nothing is divided by zero as long as neighbours are different points. -/
theorem divisible_iff {w : Wire ℝ} : w.Divisible ↔ w.points.IsChain (· ≠ ·) := by
  constructor
  · refine fun h => forall_mem_zipWith_tail_iff.1 fun e he heq => h.foot e he ?_
    rw [Edge.span, heq, sub_self]
    simp [Vec.normSq, Vec.dot]
  · intro h
    have hpos := forall_length_pos h
    exact ⟨(length_pos hpos).ne', fun t => (hpos _ (w.locate_mem_edges t)).ne',
      fun e he => (Vec.norm_pos_iff.1 (hpos e he)).ne'⟩

theorem ne_of_not_near (p q : Vec ℝ) (h : ¬ p.Near q) : p ≠ q := by
  rintro rfl
  exact h p.finite.near_self

/-- A proper wire has some length, and nothing is divided by zero on it. -/
theorem Proper.divisible {w : Wire ℝ} (h : w.Proper) : 0 < w.length ∧ w.Divisible :=
  have hne := h.imp ne_of_not_near
  ⟨length_pos (forall_length_pos hne), divisible_iff.2 hne⟩

/-- **Transformations decide whether a wire stays proper.**  A wire that is made of points has two
points at least after any changes.  It is proper as long as no transformation brings points near to
each other that were not, and after the last transformation if and only if the images of its
neighbours are not near to each other.  With exact numbers a proper wire has some length, and
nothing is divided by zero on it; this is so as long as no transformation brings points together,
and after the last one if and only if the images of the neighbours are different. -/
theorem run_proper [Vec.Measured K] {ps : List (Vec K)} {w : Wire K} (hw : ofPoints? ps = some w)
    (cs : List (Change K)) :
    (2 ≤ (w.run cs).points.length ∧
      ((∀ m : Transform K, .transformed m ∈ cs →
        ∀ p q, ¬ p.Near q → ¬ (m.apply p).Near (m.apply q)) → (w.run cs).Proper) ∧
      ∀ before (m : Transform K) after, cs = before ++ .transformed m :: after →
        (∀ m', Change.transformed m' ∉ after) →
          ((w.run cs).Proper ↔
            (w.run before).points.IsChain fun p q => ¬ (m.apply p).Near (m.apply q))) ∧
    ∀ {ps : List (Vec ℝ)} {w : Wire ℝ}, ofPoints? ps = some w → ∀ cs : List (Change ℝ),
      ((w.run cs).Proper → 0 < (w.run cs).length ∧ (w.run cs).Divisible) ∧
      ((∀ m, Change.transformed m ∈ cs → Function.Injective m.apply) → (w.run cs).Divisible) ∧
      ∀ before m after, cs = before ++ .transformed m :: after →
        (∀ m', Change.transformed m' ∉ after) →
          ((w.run cs).Divisible ↔
            (w.run before).points.IsChain fun p q => m.apply p ≠ m.apply q) := by
  constructor
  · refine ⟨(w.run cs).two_le_length, (proper_of_ofPoints? hw).run, ?_⟩
    rintro before m after rfl hafter
    exact proper_run_append_iff hafter
  · intro ps w hw cs
    have hne : w.points.IsChain (· ≠ ·) := (proper_of_ofPoints? hw).imp ne_of_not_near
    have hsymm : ∀ p q : Vec ℝ, p ≠ q → q ≠ p := fun _ _ => Ne.symm
    refine ⟨Proper.divisible, fun hinjective => ?_, ?_⟩
    · refine divisible_iff.2 (isChain_run hsymm ne_of_not_near ?_ hne)
      exact fun m hm p q => (hinjective m hm).ne
    · rintro before m after rfl hafter
      rw [divisible_iff]
      exact isChain_run_append_iff hsymm ne_of_not_near hafter

/-- The transformation that flattens the span. -/
def flatten : Transform K := ⟨⟨.xAxis, 0⟩, ⟨0, 0⟩, ⟨.zAxis, 0⟩, ⟨0, 1⟩⟩

theorem flatten_apply (p : Vec ℝ) : flatten.apply p = ⟨p.x, 0, p.z⟩ := by
  have hweight : flatten.weight.eval p = 1 := by norm_num [flatten, AffineForm.eval, Vec.dot]
  unfold Transform.apply
  dsimp only
  rw [hweight, if_neg (by norm_num)]
  ext <;> norm_num [flatten, AffineForm.eval, Vec.dot, Vec.xAxis, Vec.zAxis]

/-- A bend stays proper when it is run the other way and closed, but not when its long leg is
flattened. -/
theorem run_proper_bend : ∃ w, ofPoints? bend = some w ∧ (w.run [.reversed, .closed]).Proper ∧
    ¬ (w.run [.reversed, .transformed flatten]).Proper ∧
      ¬ (w.run [.reversed, .transformed flatten]).Divisible := by
  obtain ⟨w, hw, hpoints, -⟩ := exists_wire_bend
  obtain ⟨⟨-, hkept, -⟩, -⟩ := run_proper hw [.reversed, .closed]
  obtain ⟨⟨-, -, hlast⟩, hexact⟩ := run_proper hw [.reversed, .transformed flatten]
  obtain ⟨-, -, hlastExact⟩ := hexact hw [.reversed, .transformed flatten]
  have hproper := hlast [.reversed] flatten [] rfl nofun
  have hdivisible := hlastExact [.reversed] flatten [] rfl nofun
  have hend : flatten.apply (⟨1, 3.0, 0⟩ : Vec ℝ) = flatten.apply ⟨1, 0, 0⟩ := by
    rw [flatten_apply, flatten_apply]
  have hreversed : (w.run [.reversed]).points = [⟨1, 3.0, 0⟩, ⟨1, 0, 0⟩, ⟨0, 0, 0⟩] :=
    congrArg List.reverse hpoints
  rw [hreversed, List.isChain_cons_cons, hend] at hproper hdivisible
  refine ⟨w, hw, hkept (by simp), fun h => (hproper.1 h).1 ?_, fun h => (hdivisible.1 h).1 rfl⟩
  exact (Vec.finite _).near_self

/-- A line that runs straight out at its end has no direction there once it is flattened. -/
example : let w : Wire Float := ⟨[⟨1.2, 0, 0⟩, ⟨0.6, 5, 0⟩, ⟨0.6, 10, 0⟩], by decide⟩
    w.Proper ∧ ¬ (w.transformed flatten).Proper ∧
      ((w.transformed flatten).tangentAt 1).x.isNaN = true := by
  decide +kernel

end Wire

end WingBox
