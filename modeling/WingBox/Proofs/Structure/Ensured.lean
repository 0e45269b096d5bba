import WingBox.Proofs.Structure.RibIndex

/-!
# What queries ensure

A query that answers has found what it needs on the way.  `Query.Ensures d q P` says that what `q`
answers about `d`, if it answers, has the property `P`.  There is one rule for each way in which
queries are put together.

* `Query.Ensures.bind`, `Query.Ensures.mapM`: what is found on the way holds for what comes after;
* `Query.ensures_cut`: a rib of a set that is cut is the one that stands at its own parameter.
-/

namespace WingBox

open Scalar

namespace Query

/-! ### What is ensured -/

section Ensures

variable {K : Type} [Scalar K] {α β : Type} {d : Design K}

theorem Yields.bind_wing {f : Wing K → Query K β} {x : Except (Error K) β}
    (h : Yields d (f d.wing) x) : Yields d (wing >>= f) x :=
  .bind_ok (Yields.read.bind_ok (.pure _)) h

theorem Yields.ofExcept_ok {x : Except (Error K) α} {v : α} (h : x = .ok v) :
    Yields d (Query.ofExcept x) (.ok v) := h ▸ .ofExcept x

theorem Yields.require_some {e : Error K} {o : Option α} {v : α} (h : o = some v) :
    Yields d (Query.require e o) (.ok v) := by
  rw [h]
  exact .pure v

/-- What needs no store is done one after another. -/
theorem Yields.ofExcept_bind {x : Except (Error K) α} {f : α → Query K β}
    {g : α → Except (Error K) β} (h : ∀ v, Yields d (f v) (g v)) :
    Yields d (Query.ofExcept x >>= f) (x >>= g) := by
  cases x with
  | error e => exact Yields.bind_error (.ofExcept (.error e))
  | ok v => exact Yields.bind_ok (.ofExcept (.ok v)) (h v)

theorem Yields.require_bind {e : Error K} {o : Option α} {f : α → Query K β}
    {g : α → Except (Error K) β} (h : ∀ v, Yields d (f v) (g v)) :
    Yields d (Query.require e o >>= f) (Error.require e o >>= g) := by
  cases o with
  | none => exact Yields.bind_error (.throw e)
  | some v => exact Yields.bind_ok (.pure v) (h v)

theorem Yields.mapM {f : α → Query K β} {xs : List α} {ys : List β}
    (h : List.Forall₂ (fun x y => Yields d (f x) (.ok y)) xs ys) :
    Yields d (xs.mapM f) (.ok ys) := by
  induction h with
  | nil => exact .pure []
  | cons hxy _ ih =>
    rw [List.mapM_cons]
    exact hxy.bind_ok (ih.bind_ok (.pure _))

/-- What is done for every element has values if each element has one. -/
theorem Yields.exists_mapM {f : α → Query K β} {xs : List α}
    (h : ∀ x ∈ xs, ∃ y, Yields d (f x) (.ok y)) : ∃ ys, Yields d (xs.mapM f) (.ok ys) := by
  induction xs with
  | nil => exact ⟨[], .pure []⟩
  | cons x xs ih =>
    obtain ⟨⟨y, hy⟩, hrest⟩ := List.forall_mem_cons.1 h
    obtain ⟨ys, hys⟩ := ih hrest
    refine ⟨y :: ys, ?_⟩
    rw [List.mapM_cons]
    exact hy.bind_ok (hys.bind_ok (.pure _))

/-- The query yields a value with the property, or an error. -/
def Ensures (d : Design K) (q : Query K α) (P : α → Prop) : Prop :=
  ∃ x, Yields d q x ∧ ∀ v, x = .ok v → P v

namespace Ensures

variable {P : α → Prop} {Q : β → Prop} {q : Query K α}

theorem holds (h : Ensures d q P) {v : α} (hv : Yields d q (.ok v)) : P v := by
  obtain ⟨x, hx, hP⟩ := h
  exact hP v (hx.unique hv)

theorem of_yields {x : Except (Error K) α} (h : Yields d q x) : Ensures d q (x = .ok ·) :=
  ⟨x, h, fun _ hv => hv⟩

theorem mono {P' : α → Prop} (h : Ensures d q P) (hP : ∀ v, P v → P' v) : Ensures d q P' := by
  obtain ⟨x, hx, hv⟩ := h
  exact ⟨x, hx, fun v hxv => hP v (hv v hxv)⟩

/-- What is answered is what the query yields. -/
theorem and_yields (h : Ensures d q P) : Ensures d q fun v => Yields d q (.ok v) ∧ P v := by
  obtain ⟨x, hx, hP⟩ := h
  refine ⟨x, hx, fun v hv => ⟨?_, hP v hv⟩⟩
  rwa [hv] at hx

theorem of_parallel {N : Naming} {d' : Design K} {R : α → β → Prop} {q' : Query K β}
    (h : Parallel N d d' R q q') : Ensures d q fun v => Yields d q (.ok v) := by
  obtain ⟨x, hx⟩ := h.exists_yields
  exact (of_yields hx).and_yields.mono fun _ hv => hv.1

theorem pure {v : α} (h : P v) : Ensures d (pure v) P :=
  ⟨_, .pure v, fun _ hw => Except.ok.inj hw ▸ h⟩

theorem ofExcept {x : Except (Error K) α} (h : ∀ v, x = .ok v → P v) :
    Ensures d (ofExcept x) P := ⟨x, .ofExcept x, h⟩

theorem require {e : Error K} {o : Option α} (h : ∀ v, o = some v → P v) :
    Ensures d (require e o) P := by
  cases o with
  | some v => exact .pure (h v rfl)
  | none => exact ⟨_, .throw e, nofun⟩

theorem bind {f : α → Query K β} (h : Ensures d q P) (hf : ∀ v, P v → Ensures d (f v) Q) :
    Ensures d (q >>= f) Q := by
  obtain ⟨v | v, hv, hP⟩ := h
  · exact ⟨_, hv.bind_error, nofun⟩
  · obtain ⟨x, hx, hQ⟩ := hf v (hP v rfl)
    exact ⟨x, hv.bind_ok hx, hQ⟩

theorem mapM {R : α → β → Prop} {f : α → Query K β} {xs : List α}
    (h : ∀ x ∈ xs, Ensures d (f x) (R x)) : Ensures d (xs.mapM f) (List.Forall₂ R xs) := by
  induction xs with
  | nil => exact .pure .nil
  | cons x xs ih =>
    rw [List.mapM_cons]
    refine (h x List.mem_cons_self).bind fun y hy => ?_
    refine (ih fun z hz => h z (List.mem_cons_of_mem x hz)).bind fun ys hys => ?_
    exact .pure (.cons hy hys)

/-- What would come after a refusal does not matter. -/
theorem throw_bind {e : Error K} {f : α → Query K β} :
    Ensures d (MonadExcept.throw e >>= f) Q := ⟨_, Yields.bind_error (.throw e), nofun⟩

theorem cached {n : CacheName} {build : Query K (n.Value K)} {P : n.Value K → Prop}
    (hn : Store.FilledBy d n build) (h : Ensures d build P) :
    Ensures d (Query.cached n build) P := by
  obtain ⟨x, hx, hv⟩ := h
  exact ⟨x, hx.cached hn, hv⟩

/-- The rule of `bind` for a query that starts by looking at the wing. -/
theorem bind_wing {f : Wing K → Query K β} (h : Ensures d (f d.wing) Q) :
    Ensures d (wing >>= f) Q := by
  obtain ⟨x, hx, hQ⟩ := h
  exact ⟨x, hx.bind_wing, hQ⟩

end Ensures

end Ensures

/-! ### Ribs between edges -/

section Edges

variable {K : Type} [Scalar K] {d : Design K}

/-- A section face is not trimmed between edges. -/
theorem trimSection_eq {uid : String} {positioning : RibPlacement K}
    (hstart : positioning.ribStart.sparUid? = none) (hend : positioning.ribEnd.sparUid? = none)
    (face : Face K) (chordPoint : K → Query K (Vec K)) :
    trimSection uid positioning face chordPoint = pure face := by
  unfold trimSection
  rw [hstart, hend]
  rfl

/-- An oversized face between edges is ruled between its two sides. -/
theorem yields_cutFace {r : K} (hsize : Yields d size (.ok r)) {uid : String}
    {p dir startUp stopUp : Vec K} {ribStart ribEnd : NamedLine}
    (hstart : ribStart.sparUid? = none) (hend : ribEnd.sparUid? = none) {w v : Wire K} {f : Face K}
    (hw : Wire.segment? (p - r • dir + r • startUp) (p - r • dir - r • startUp) = some w)
    (hv : Wire.segment? (p + r • dir - r • stopUp) (p + r • dir + r • stopUp) = some v)
    (hf : Face.ruledAlong startUp w v = .ok f) :
    Yields d (cutFace uid p dir startUp stopUp ribStart ribEnd) (.ok f) := by
  have hface : (Error.ofShapeFault uid (Face.ruledAlong startUp w v) : Except (Error K) (Face K)) =
      .ok f := by
    rw [hf]
    rfl
  refine hsize.bind_ok ((Yields.require_some hw).bind_ok ((Yields.require_some hv).bind_ok ?_))
  refine (Yields.ofExcept_ok hface).bind_ok ?_
  rw [hstart, hend]
  exact .pure f

end Edges

/-! ### Ribs at their parameters -/

section Ribs

variable {K : Type} [Scalar K]

/-- The rib number `i` of a set, counted from zero. -/
def setRib (r : RibsDefinition K) (set : RibSet K) (sp : RibSpread K) (i : Nat) :
    Query K (RibCut K) :=
  let eta := sp.etaStart + sp.offset * (i : K)
  let isAtEnd : Bool := abs (sp.etaStop - eta) ≤ tolerance
  setCut r set eta (atBoundary set SetBoundary.elementUid? (i == 0) isAtEnd)
    (atBoundary set SetBoundary.sparPositionUid? (i == 0) isAtEnd).isSome

variable {d : Design K} (h : d.LookupsMatch .same d) {r : RibsDefinition K}
  (hr : d.RibsMatch .same d r r)
include h hr

theorem ensures_setCutsFrom {set : RibSet K} (hset : set.Match .same set) (sp : RibSpread K)
    (n i : Nat) : Ensures d (setCutsFrom r set sp n i) fun cs =>
      ∀ j (hj : j < cs.length), Yields d (setRib r set sp (i + j)) (.ok cs[j]) := by
  induction n generalizing i with
  | zero => exact .pure nofun
  | succ n ih =>
    have hrib : Ensures d (setRib r set sp i) fun cut => Yields d (setRib r set sp i) (.ok cut) :=
      .of_parallel (parallel_setCut h hr hset _ _ _)
    refine hrib.bind fun cut hcut => (ih (i + 1)).bind fun cs hcs => .pure fun j hj => ?_
    cases j with
    | zero => exact hcut
    | succ j =>
      have hnext := hcs j (Nat.lt_of_succ_lt_succ hj)
      rwa [Nat.add_right_comm i 1 j] at hnext

variable {set : RibSet K} (hset : r.positioning = .set set)
include hset

omit [Scalar K] h in
theorem set_match : set.Match .same set := by
  have hp := hr.toMatch.positioning
  rw [hset] at hp
  cases hp with
  | set h => exact h

theorem ensures_cuts : Ensures d (cuts r) fun cs => ∀ sp, Yields d (spread r) (.ok sp) →
    ∀ j (hj : j < cs.length), Yields d (setRib r set sp j) (.ok cs[j]) := by
  refine .cached (Store.filledBy_cuts hr.here) ?_
  unfold buildCuts
  rw [hset]
  refine (Ensures.of_parallel (parallel_spread h hr)).bind fun sp hsp => ?_
  refine (ensures_setCutsFrom h hr (set_match hr hset) sp _ 0).mono fun cs hcs sp' hsp' j hj => ?_
  have hrib := hcs j hj
  rw [Nat.zero_add] at hrib
  exact Except.ok.inj (hsp.unique hsp') ▸ hrib

/-- A rib that is cut is the one that stands at its parameter. -/
theorem ensures_cut (n : Nat) : Ensures d (Ribs.cut r (n + 1)) fun cut =>
    ∀ sp, Yields d (spread r) (.ok sp) → Yields d (setRib r set sp n) (.ok cut) := by
  have hplace : Ensures d (Ribs.place r (n + 1)) (· = n) := by
    refine (Ensures.of_parallel (parallel_ribCount h hr)).bind fun c _ => .ofExcept fun i hi => ?_
    by_cases hn : n < c
    · rw [checkIndex_of_lt hn] at hi
      exact (Except.ok.inj hi).symm
    · rw [checkIndex_of_outside (.inr (by omega))] at hi
      cases hi
  refine hplace.bind fun i hi => (ensures_cuts h hr hset).bind fun cs hcs => ?_
  subst hi
  refine .require fun cut hcut sp hsp => ?_
  obtain ⟨hlt, rfl⟩ := List.getElem?_eq_some_iff.1 hcut
  exact hcs sp hsp i hlt

end Ribs

end Query

end WingBox
