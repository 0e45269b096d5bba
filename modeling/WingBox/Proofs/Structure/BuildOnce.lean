import WingBox.Proofs.Structure.Refusal
import WingBox.Proofs.Structure.Run

/-!
# Builders of caches run once

A cache does not guard against its builder asking for it again, and the builders of spars and ribs
ask for each other: split faces of a spar need all ribs, these may be cut at spars, and so on.  That
no builder is entered while it runs rests on the ranks of the caches, which every question respects
(`Query.question_planned`).

`Structure.trace` is what happens to the caches while a question is answered, as the run itself
records it.  `Structure.Lived` is the life of a structure with the traces of all its answers, cut
into eras at the invalidations.  What a cache holds stays until the era ends, the surfaces of the
wing stay for ever (`Structure.Lived.kept`).  So `Structure.builders_run_once`: in an answer no
builder is entered twice, and in an era none after it has succeeded.
-/

namespace WingBox

variable {K : Type} [Scalar K] {α : Type}

namespace Query

/-! ### Questions have plans -/

omit [Scalar K] in
theorem positionAt_planned {k : ℕ} (s : SparSegment K) (index : Nat) :
    Planned (fun _ => True) k (Spar.positionAt s index) := by
  have hindex := checkIndex_errorIs (K := K) (P := fun _ => True) fun _ _ _ => trivial
  exact (Planned.ofExcept (hindex _ _ _)).bind fun _ => (Planned.require trivial _).bind fun uid =>
    (position_planned uid).any

theorem sparQuestion_planned (q : SparQuestion K α) (s : SparSegment K) :
    Planned (fun _ => True) 6 (q.query s) := by
  cases q with
  | geometry frame =>
    exact ((sparGeometry_planned s).bind fun shape => shapeIn_planned frame shape).any
  | divided frame =>
    exact ((sparDivided_planned s).bind fun shape => shapeIn_planned frame shape).any
  | cutShape frame => exact ((panels_planned s).bind fun _ => shapeIn_planned frame _).any
  | caps side frame =>
    refine .ite ((sparCaps_planned s).any.bind fun caps => ?_) (.throw trivial)
    exact (Planned.require trivial _).bind fun shape => (shapeIn_planned frame shape).any
  | midplaneLine frame => exact ((panels_planned s).bind fun _ => wireIn_planned frame _).any
  | point | direction | length => exact ((panels_planned s).bind fun _ => .pure _).any
  | midplanePointAt index frame =>
    refine (positionAt_planned s index).bind fun p => ?_
    exact ((midplanePoint_planned p).bind fun point => pointIn_planned frame point).any
  | etaXsiAt index =>
    refine (positionAt_planned s index).bind fun p => ?_
    cases p.eta? with
    | some eta => exact .pure _
    | none =>
      exact (wing_planned.bind fun w => (midplanePoint_planned p).bind fun _ => .pure _).any

theorem place_planned {k : ℕ} (r : RibsDefinition K) (n : Nat) :
    Planned (fun _ => True) (k + 3) (Ribs.place r n) :=
  (ribCount_planned r).any.bind fun _ => .ofExcept (checkIndex_errorIs (fun _ _ _ => trivial) _ _ _)

theorem cut_planned (r : RibsDefinition K) (n : Nat) :
    Planned (fun _ => True) 6 (Ribs.cut r n) :=
  (place_planned r n).bind fun _ => (cuts_planned r).any.bind fun _ => .require trivial _

theorem ribsQuestion_planned (q : RibsQuestion K α) (r : RibsDefinition K) :
    Planned (fun _ => True) 6 (q.query r) := by
  cases q with
  | count => exact (ribCount_planned r).any
  | geometry frame =>
    exact ((ribsGeometry_planned r).bind fun shape => shapeIn_planned frame shape).any
  | face n frame =>
    refine (place_planned r n).bind fun i => (ribsGeometry_planned r).any.bind fun shape => ?_
    exact (Planned.require trivial _).bind fun f => (faceIn_planned frame f).any
  | divided frame =>
    exact ((ribsDivided_planned r).bind fun shape => shapeIn_planned frame shape).any
  | caps side frame =>
    refine .ite ((ribsCaps_planned r).any.bind fun caps => ?_) (.throw trivial)
    exact (Planned.require trivial _).bind fun shape => (shapeIn_planned frame shape).any
  | cut n => exact cut_planned r n
  | midplanePoints n frame =>
    refine (cut_planned r n).bind fun c => ?_
    exact ((pointIn_planned frame c.start).bind fun _ => (pointIn_planned frame c.stop).bind
      fun _ => .pure _).any
  | etaStart | etaStop | etaOffset => exact ((spread_planned r).bind fun _ => .pure _).any

/-- **Every question has a plan**, in which builders ask caches of lower ranks only. -/
theorem question_planned (q : Question K α) : Planned (fun _ => True) 6 q.query := by
  have hindex := fun (_ : Counted) (_ _ : Nat) => trivial
  cases q with
  | spar uid q => exact (spar_planned uid).any.bind fun s => sparQuestion_planned q s
  | sparAt index q => exact (sparAt_planned hindex index).bind fun s => sparQuestion_planned q s
  | ribs uid q => exact (ribs_planned uid).any.bind fun r => ribsQuestion_planned q r
  | ribsAt index q => exact (ribsAt_planned hindex index).bind fun r => ribsQuestion_planned q r
  | positionPoint uid frame =>
    exact ((position_planned uid).bind fun p => (midplanePoint_planned p).bind fun point =>
      pointIn_planned frame point).any
  | positionUp uid =>
    exact ((position_planned uid).bind fun p => (midplanePoint_planned p).bind fun point =>
      upVector_planned p point).any
  | line l => exact (line_planned l).any
  | lineLength l => exact (lineLength_planned l).any
  | linePoint l eta => exact (linePoint_planned l eta).any
  | lineDirection l p => exact (lineDirection_planned l p).any
  | wingGeometry => exact wingGeometry_planned.any
  | elementFace uid => exact (elementFace_planned uid).any

end Query

/-! ### Lives of structures -/

namespace Structure

/-- What happens to the caches while the structure answers a question. -/
def trace (s : Structure K) (q : Question K α) : List Event := q.query.trace s.design s.store

/-- The trace of an answer, and what is kept in the end. -/
theorem records (s : Structure K) (q : Question K α) :
    Records 6 s.store (∃ x, s.answer q = .ok x) (s.asked q).store (s.trace q) :=
  (Query.question_planned q).elim fun p => p.records s.design s.store

/-- A structure that is loaded and then mutated, invalidated and asked at will, with the traces of
the answers.  Those since the last invalidation are the present era, those between two
invalidations one of the past eras. -/
inductive Lived : Structure K → List (List Event) → List Event → Prop
  /-- It is loaded from a description. -/
  | load {wing : Wing K} {desc : Description K} {s : Structure K}
    (h : ofDescription wing desc = .ok s) : Lived s [] []
  /-- It goes through a mutation, which ends the era. -/
  | mutate {s t : Structure K} {past : List (List Event)} {present : List Event}
    (h : Lived s past present) {m : Mutation K} (hm : s.mutate m = (.ok (), t)) :
    Lived t (past ++ [present]) []
  /-- A mutation is refused. -/
  | refuse {s t : Structure K} {past : List (List Event)} {present : List Event}
    (h : Lived s past present) {m : Mutation K} {e : Error K} (hm : s.mutate m = (.error e, t)) :
    Lived t past present
  /-- It is invalidated. -/
  | invalidate {s : Structure K} {past : List (List Event)} {present : List Event}
    (h : Lived s past present) : Lived s.invalidated (past ++ [present]) []
  /-- It is asked, and may have no answer. -/
  | ask {s : Structure K} {past : List (List Event)} {present : List Event}
    (h : Lived s past present) {α : Type} (q : Question K α) :
    Lived (s.asked q) past (present ++ s.trace q)

variable {s t : Structure K} {past : List (List Event)} {present : List Event}

/-- Every structure that can be reached has a life. -/
theorem Reachable.exists_lived (h : s.Reachable) : ∃ past present, s.Lived past present := by
  induction h with
  | load h => exact ⟨_, _, .load h⟩
  | @mutate s _ m ih =>
    obtain ⟨past, present, hlived⟩ := ih
    rcases hm : s.mutate m with ⟨e | ⟨⟩, t⟩
    · exact ⟨_, _, hlived.refuse hm⟩
    · exact ⟨_, _, hlived.mutate hm⟩
  | invalidate _ ih =>
    obtain ⟨past, present, hlived⟩ := ih
    exact ⟨_, _, hlived.invalidate⟩
  | ask _ q ih =>
    obtain ⟨past, present, hlived⟩ := ih
    exact ⟨_, _, hlived.ask q⟩

theorem Lived.reachable (h : s.Lived past present) : s.Reachable := by
  induction h with
  | load h => exact .load h
  | @mutate s t _ _ _ m hm ih =>
    have hmutated := ih.mutate m
    rwa [hm] at hmutated
  | @refuse s t _ _ _ m e hm ih =>
    have hmutated := ih.mutate m
    rwa [hm] at hmutated
  | invalidate _ ih => exact ih.invalidate
  | ask _ q ih => exact ih.ask q

/-- A mutation that succeeds keeps the surfaces of the wing, one that is refused keeps all. -/
theorem Sound.store_mutate (h : s.Sound) (m : Mutation K) :
    (∃ d, s.mutate m = (.ok (), ⟨d, s.store.invalidated⟩)) ∨ ∃ e, s.mutate m = (.error e, s) := by
  have hm := refines_mutation h.valid m
  unfold Structure.mutate
  generalize m.edit.outcome s = out, m.effect s.design.description = eff at hm
  cases hm with
  | refused e => exact .inr ⟨e, rfl⟩
  | done => exact .inl ⟨_, rfl⟩

/-- What is built in the present era is kept, and no era builds again what it has built. -/
structure Kept (s : Structure K) (past : List (List Event)) (present : List Event) : Prop where
  /-- The caches that were built in the present era are filled. -/
  full : ∀ n, .built n ∈ present → n.Full s.store
  /-- The cache of the wing is filled if it was ever built. -/
  wing : .built .wing ∈ past.flatten ++ present → CacheName.wing.Full s.store
  /-- In no era a builder is entered after it has succeeded. -/
  eras : ∀ era ∈ past ++ [present], ∀ n, era.Pairwise (Event.NotAgain n)
  /-- The builder of the wing is never entered after it has succeeded. -/
  once : (past.flatten ++ present).Pairwise (Event.NotAgain .wing)

namespace Kept

variable (h : s.Kept past present)
include h

omit [Scalar K] in
/-- The era ends.  All that has to be kept is the cache of the wing. -/
theorem endEra (hwing : t.store.wing = s.store.wing) : t.Kept (past ++ [present]) [] := by
  have hlog : (past ++ [present]).flatten ++ [] = past.flatten ++ present := by simp
  refine { full := ?_, wing := ?_, eras := ?_, once := ?_ }
  · exact fun n hn => absurd hn List.not_mem_nil
  · rw [hlog]
    intro hbuilt
    change t.store.wing.isValid = true
    rw [hwing]
    exact h.wing hbuilt
  · intro era hera n
    rcases List.mem_append.1 hera with hera | hera
    · exact h.eras era hera n
    · rw [List.mem_singleton.1 hera]
      exact .nil
  · rw [hlog]
    exact h.once

omit [Scalar K] in
/-- The era goes on with one more answer. -/
theorem append {trace : List Event} {k : ℕ} {done : Prop}
    (htrace : Records k s.store done t.store trace) : t.Kept past (present ++ trace) := by
  refine { full := ?_, wing := ?_, eras := ?_, once := ?_ }
  · intro n hn
    exact (htrace.full_iff n).2 ((List.mem_append.1 hn).imp_left (h.full n))
  · intro hn
    rw [← List.append_assoc] at hn
    exact (htrace.full_iff .wing).2 ((List.mem_append.1 hn).imp_left h.wing)
  · intro era hera n
    rcases List.mem_append.1 hera with hera | hera
    · exact h.eras era (List.mem_append_left _ hera) n
    · have hpresent := h.eras present (List.mem_append_right _ (List.mem_singleton_self _)) n
      rw [List.mem_singleton.1 hera]
      exact htrace.pairwise_append hpresent (h.full n)
  · rw [← List.append_assoc]
    exact htrace.pairwise_append h.once h.wing

end Kept

/-- Invariant of lives. -/
theorem Lived.kept (h : s.Lived past present) : s.Kept past present := by
  induction h with
  | load h =>
    refine { full := ?_, wing := ?_, eras := ?_, once := .nil }
    · exact fun n hn => absurd hn List.not_mem_nil
    · exact fun hn => absurd hn List.not_mem_nil
    · intro era hera n
      rw [List.mem_singleton.1 hera]
      exact .nil
  | @mutate s t _ _ hs m hm ih =>
    obtain ⟨d, heq⟩ | ⟨e, heq⟩ := (sound_of_reachable hs.reachable).store_mutate m
    · cases heq.symm.trans hm
      exact ih.endEra rfl
    · cases heq.symm.trans hm
  | @refuse s t _ _ hs m e hm ih =>
    obtain ⟨d, heq⟩ | ⟨e', heq⟩ := (sound_of_reachable hs.reachable).store_mutate m
    · cases heq.symm.trans hm
    · cases heq.symm.trans hm
      exact ih
  | invalidate _ ih => exact ih.endEra rfl
  | @ask s _ _ _ _ q ih => exact ih.append (s.records q)

/-- **Builders of caches run once.**  Whatever a structure was asked and however its parts refer to
each other: while it answers a question only empty caches are built, no builder is entered twice,
and until one succeeds only those of caches of a lower rank are entered, so it is not entered while
it runs; and the caches that are filled in the end are those that were filled before and those that
were built.  Over the life of the structure no builder is entered again after it has succeeded,
unless the structure was invalidated in between, and then not that of the wing. -/
theorem builders_run_once (h : s.Reachable) :
    (∀ {α : Type} (q : Question K α) (n : CacheName),
      (∀ after, .entered n :: after <:+ s.trace q →
        ∀ m, .entered m ∈ Event.untilBuilt n after → m.rank < n.rank) ∧
      (.entered n ∈ s.trace q → ¬ n.Full s.store) ∧ (s.trace q).count (.entered n) ≤ 1 ∧
      (n.Full (s.asked q).store ↔ n.Full s.store ∨ .built n ∈ s.trace q)) ∧
    (∃ past present, s.Lived past present) ∧ ∀ past present, s.Lived past present →
      (∀ era ∈ past ++ [present], ∀ n, era.Pairwise (Event.NotAgain n)) ∧
      (past.flatten ++ present).Pairwise (Event.NotAgain .wing) := by
  refine ⟨fun q n => ?_, h.exists_lived,
    fun past present hlived => ⟨hlived.kept.eras, hlived.kept.once⟩⟩
  have hrecords := s.records q
  exact ⟨hrecords.nested n, hrecords.empty n, hrecords.once n, hrecords.full_iff n⟩

omit [Scalar K] in
/-- The builder of a cache that is empty is entered. -/
theorem entered_mem_trace_cached {n : CacheName} {build : Query K (n.Value K)} {d : Design K}
    {s : Store K} (h : ¬ n.Full s) : .entered n ∈ (Query.cached n build).trace d s := by
  have hnone : (n.slot.read s).value? = none := Option.not_isSome_iff_eq_none.1 h
  rw [Query.trace_cached, hnone, Query.trace_traced]
  exact List.mem_cons_self

/-- The split faces of a spar are built if they are not kept. -/
theorem entered_divided_mem_trace {uid : String} {spar : SparSegment K} (frame : Frame)
    (hspar : s.design.spars.get? uid = some spar)
    (hempty : ¬ (CacheName.spar .divided spar.uid).Full s.store) :
    .entered (.spar .divided spar.uid) ∈ s.trace (.spar uid (.divided frame)) := by
  have hfound : (Query.spar uid).answer s.design s.store = (.ok spar, s.store) := by
    change (Query.require _ (s.design.spars.get? uid)).answer _ _ = _
    rw [hspar]
    rfl
  change _ ∈ (Query.spar uid >>= fun x => _).trace s.design s.store
  rw [Query.trace_bind, hfound]
  refine List.mem_append_right _ ?_
  change _ ∈ (Query.sparDivided spar >>= fun x => _).trace s.design s.store
  rw [Query.trace_bind]
  exact List.mem_append_left _ (entered_mem_trace_cached hempty)

/-- After a spar was split by ribs that refer to it, these ribs are split by the spar. -/
theorem builders_run_once_crossed :
    ∃ s, ofDescription straightWing sparWithRibs = .ok s ∧
      let spar : Question Float _ := .spar "front" (.divided .wing)
      let ribs : Question Float _ := .ribs "ribs" (.divided .wing)
      (s.trace spar).count (.entered (.spar .divided "front")) = 1 ∧
      (∀ n, ((s.asked spar).trace ribs).count (.entered n) ≤ 1) ∧
      ∀ n, (s.trace spar ++ (s.asked spar).trace ribs).Pairwise (Event.NotAgain n) := by
  obtain ⟨s, hs⟩ := exists_ofDescription straightWing loadable_sparWithRibs
  obtain ⟨hvalid, -, hdesc, hstore⟩ := ofDescription_ok hs
  have hspars : s.design.spars.items = [⟨"front", ["root", "tip"], .plain⟩] :=
    congrArg Description.sparSegments hdesc
  have hspar := hvalid.spars.get?_eq_some_iff.2 ⟨hspars ▸ List.mem_singleton_self _, rfl⟩
  obtain ⟨hfirst, -, -⟩ := builders_run_once (.load hs)
  have hsplit := (Reachable.load hs).ask (.spar "front" (.divided .wing))
  obtain ⟨hthen, -, -⟩ := builders_run_once hsplit
  obtain ⟨-, -, heras⟩ := builders_run_once (hsplit.ask (.ribs "ribs" (.divided .wing)))
  have hempty : ¬ (CacheName.spar .divided "front").Full s.store := by
    rw [hstore]
    exact CacheName.not_full_empty _
  have hentered := List.count_pos_iff.2 (entered_divided_mem_trace .wing hspar hempty)
  refine ⟨s, hs, Nat.le_antisymm (hfirst _ _).2.2.1 hentered, fun n => (hthen _ n).2.2.1, ?_⟩
  exact (heras [] _ (((Lived.load hs).ask _).ask _)).1 _ (List.mem_singleton_self _)

end Structure

end WingBox
