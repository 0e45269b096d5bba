import WingBox.Proofs.Structure.Answer
import WingBox.Proofs.Structure.CacheName

/-!
# Plans of queries

A `Query.Plan` tells how a query is put together: what it is refused for, which caches it asks, and
how the builders of these are put together in turn.  The caches have a rank below a bound, and a
builder asks only caches of a rank below that of its own cache, so no plan leads back to a cache
that is being built.

What the trace of a query with a plan looks like (`Query.Plan.records`):

* until the builder of a cache succeeds only builders of caches of a lower rank are entered, and
  none after it has succeeded; so no builder is entered twice (`Records.once`);
* the caches that are filled in the end are those that were filled before and those that were built.

A query is `Query.Planned` if it has a plan, for which there is one rule for each way in which
queries are put together; then it is refused for nothing else (`Query.Planned.fails`).
-/

namespace WingBox

variable {K : Type} {α β : Type}

/-! ### Refusals -/

/-- The outcome is a value, or an error with the property. -/
def ErrorIs (P : Error K → Prop) : Except (Error K) α → Prop
  | .ok _ => True
  | .error e => P e

namespace ErrorIs

variable {P : Error K → Prop}

theorem bind {r : Except (Error K) α} {f : α → Except (Error K) β} (h : ErrorIs P r)
    (hf : ∀ x, ErrorIs P (f x)) : ErrorIs P (r >>= f) := by
  cases r with
  | ok x => exact hf x
  | error e => exact h

theorem require {e : Error K} (h : P e) (o : Option α) : ErrorIs P (Error.require e o) := by
  cases o with
  | some x => trivial
  | none => exact h

theorem ofShapeFault {uid : String} (h : ∀ fault, P (.geometry uid (.shape fault)))
    (r : Except ShapeFault α) : ErrorIs P (Error.ofShapeFault uid r) := by
  cases r with
  | ok x => trivial
  | error fault => exact h fault

theorem mapM {f : α → Except (Error K) β} (h : ∀ x, ErrorIs P (f x)) (xs : List α) :
    ErrorIs P (xs.mapM f) := by
  induction xs with
  | nil => trivial
  | cons x xs ih =>
    rw [List.mapM_cons]
    exact (h x).bind fun _ => ih.bind fun _ => trivial

end ErrorIs

/-! ### Traces -/

namespace Event

variable {n : CacheName} {events events' : List Event}

/-- If the builder of a cache succeeds in the first event it is not entered in the second one. -/
def NotAgain (n : CacheName) (e e' : Event) : Prop := e = .built n → e' ≠ .entered n

/-- What happens until the builder of a cache succeeds. -/
def untilBuilt (n : CacheName) (events : List Event) : List Event := events.takeWhile (· ≠ .built n)

theorem mem_of_mem_untilBuilt {e : Event} (h : e ∈ untilBuilt n events) : e ∈ events :=
  (List.takeWhile_sublist _).subset h

theorem untilBuilt_append (h : .built n ∈ events) :
    untilBuilt n (events ++ events') = untilBuilt n events := by
  induction events with
  | nil => cases h
  | cons e events ih =>
    by_cases he : e = .built n
    · simp [untilBuilt, he]
    · have hmem : .built n ∈ events := (List.mem_cons.1 h).resolve_left fun heq => he heq.symm
      simpa [untilBuilt, he] using ih hmem

/-- A builder that is not entered after it has succeeded is only entered before. -/
theorem entered_mem_untilBuilt (h : events.Pairwise (NotAgain n)) (hn : .entered n ∈ events) :
    .entered n ∈ untilBuilt n events := by
  induction h with
  | nil => cases hn
  | @cons e events hnot _ ih =>
    have he : e ≠ .built n := by
      rintro rfl
      rcases List.mem_cons.1 hn with heq | hn
      · cases heq
      · exact hnot _ hn rfl rfl
    rw [untilBuilt, List.takeWhile_cons_of_pos (by simpa using he), List.mem_cons]
    exact (List.mem_cons.1 hn).imp_right ih

end Event

/-- What follows an element of two lists in a row. -/
theorem cons_suffix_append {e : α} {after l l' : List α} (h : e :: after <:+ l ++ l') :
    (∃ rest, after = rest ++ l' ∧ e :: rest <:+ l) ∨ e :: after <:+ l' := by
  induction l with
  | nil => exact .inr h
  | cons x l ih =>
    rw [List.cons_append, List.suffix_cons_iff] at h
    rcases h with heq | h
    · obtain ⟨rfl, rfl⟩ := List.cons.inj heq
      exact .inl ⟨l, rfl, List.suffix_rfl⟩
    · exact (ih h).imp_left fun ⟨rest, hrest, hl⟩ => ⟨rest, hrest, hl.trans (List.suffix_cons x l)⟩

/-- The trace of an answer that starts with the store `s` and ends with `t`, where the caches that
are asked have a rank below `k` and `done` says that the query is not refused. -/
structure Records (k : ℕ) (s : Store K) (done : Prop) (t : Store K) (trace : List Event) :
    Prop where
  /-- Only builders of caches below the bound are entered, -/
  rank_lt : ∀ n, .entered n ∈ trace → n.rank < k
  /-- of caches that are empty. -/
  empty : ∀ n, .entered n ∈ trace → ¬ n.Full s
  /-- If the query is not refused no builder was. -/
  built : done → ∀ n after, .entered n :: after <:+ trace → .built n ∈ after
  /-- A cache is filled in the end if it was before, or is built. -/
  full_iff : ∀ n, n.Full t ↔ n.Full s ∨ .built n ∈ trace
  /-- Until a builder succeeds only builders of caches of a lower rank are entered, -/
  nested : ∀ n after, .entered n :: after <:+ trace →
    ∀ m, .entered m ∈ Event.untilBuilt n after → m.rank < n.rank
  /-- and it is not entered after it has succeeded. -/
  notAgain : ∀ n, trace.Pairwise (Event.NotAgain n)

namespace Records

variable {k : ℕ} {s t u : Store K} {done : Prop} {trace trace' : List Event} {n : CacheName}

/-- No builder is entered twice. -/
theorem once (h : Records k s done t trace) (n : CacheName) : trace.count (.entered n) ≤ 1 := by
  suffices hsuffix : ∀ after, after <:+ trace → after.count (.entered n) ≤ 1 from
    hsuffix trace List.suffix_rfl
  intro after hafter
  induction after with
  | nil => exact Nat.zero_le 1
  | cons e after ih =>
    by_cases he : e = .entered n
    · subst he
      -- it is not entered while it runs, and not after it has succeeded
      have hagain := (List.pairwise_cons.1 ((h.notAgain n).sublist hafter.sublist)).2
      have hnot : .entered n ∉ after := fun hmem =>
        Nat.lt_irrefl _ (h.nested n after hafter n (Event.entered_mem_untilBuilt hagain hmem))
      have hcount := List.count_eq_zero.2 hnot
      exact Nat.le_of_eq (by rw [List.count_cons_self, hcount])
    · rw [List.count_cons_of_ne he]
      exact ih ((List.suffix_cons e after).trans hafter)

/-- Nothing happens. -/
theorem nil : Records k s done s [] where
  rank_lt _ hn := absurd hn List.not_mem_nil
  empty _ hn := absurd hn List.not_mem_nil
  built _ _ _ hn := absurd (List.suffix_nil.1 hn) (List.cons_ne_nil _ _)
  full_iff n := by simp
  nested _ _ hn := absurd (List.suffix_nil.1 hn) (List.cons_ne_nil _ _)
  notAgain _ := .nil

theorem congr {done' : Prop} (h : Records k s done t trace) (hdone : done ↔ done') :
    Records k s done' t trace := by
  rwa [← propext hdone]

/-- What was built before and is kept is not built again. -/
theorem pairwise_append (h : Records k s done t trace) {old : List Event}
    (hold : old.Pairwise (Event.NotAgain n)) (hfull : .built n ∈ old → n.Full s) :
    (old ++ trace).Pairwise (Event.NotAgain n) := by
  refine List.pairwise_append.2 ⟨hold, h.notAgain n, ?_⟩
  rintro _ he _ he' rfl rfl
  exact h.empty n he' (hfull he)

/-- One query after another. -/
theorem append (h : Records k s True t trace) (h' : Records k t done u trace') :
    Records k s done u (trace ++ trace') where
  rank_lt n hn := (List.mem_append.1 hn).elim (h.rank_lt n) (h'.rank_lt n)
  empty n hn hs := by
    rcases List.mem_append.1 hn with hn | hn
    · exact h.empty n hn hs
    · exact h'.empty n hn ((h.full_iff n).2 (.inl hs))
  built hdone n after hn := by
    obtain ⟨rest, rfl, hrest⟩ | hn := cons_suffix_append hn
    · exact List.mem_append_left _ (h.built trivial n rest hrest)
    · exact h'.built hdone n after hn
  full_iff n := by rw [h'.full_iff, h.full_iff, List.mem_append, or_assoc]
  nested n after hn m hm := by
    obtain ⟨rest, rfl, hrest⟩ | hn := cons_suffix_append hn
    · -- the builder has succeeded before the second query starts
      rw [Event.untilBuilt_append (h.built trivial n rest hrest)] at hm
      exact h.nested n rest hrest m hm
    · exact h'.nested n after hn m hm
  notAgain n :=
    h'.pairwise_append (h.notAgain n) fun hbuilt => (h.full_iff n).2 (.inr hbuilt)

/-- A builder that is refused. -/
theorem entered (h : Records n.rank s done t trace) (hn : n.rank < k) (hs : ¬ n.Full s) :
    Records k s False t (.entered n :: trace) where
  rank_lt m hm := by
    rcases List.mem_cons.1 hm with heq | hm
    · obtain rfl := Event.entered.inj heq
      exact hn
    · exact Nat.lt_trans (h.rank_lt m hm) hn
  empty m hm := by
    rcases List.mem_cons.1 hm with heq | hm
    · obtain rfl := Event.entered.inj heq
      exact hs
    · exact h.empty m hm
  built := False.elim
  full_iff m := by simp [h.full_iff]
  nested m after hm l hl := by
    rcases List.suffix_cons_iff.1 hm with heq | hm
    · -- its builder asks for caches of lower rank only
      obtain ⟨hmn, rfl⟩ := List.cons.inj heq
      obtain rfl := Event.entered.inj hmn
      exact h.rank_lt l (Event.mem_of_mem_untilBuilt hl)
    · exact h.nested m after hm l hl
  notAgain m := List.pairwise_cons.2 ⟨fun _ _ => Event.noConfusion, h.notAgain m⟩

/-- A builder that succeeds. -/
theorem filled (h : Records n.rank s True t trace) (hn : n.rank < k) (hs : ¬ n.Full s)
    (v : n.Value K) :
    Records k s True (n.slot.write (.full v) t) (.entered n :: (trace ++ [.built n])) := by
  have hentered := h.entered hn hs
  -- what is entered is entered before the last event
  have hlast {m : CacheName} {after : List Event}
      (hm : .entered m :: after <:+ (.entered n :: trace) ++ [.built n]) :
      ∃ rest, after = rest ++ [.built n] ∧
        ((m = n ∧ rest = trace) ∨ .entered m :: rest <:+ trace) := by
    obtain ⟨rest, rfl, hrest⟩ | hm := cons_suffix_append hm
    · exact ⟨rest, rfl, by simpa using List.suffix_cons_iff.1 hrest⟩
    · cases List.mem_singleton.1 (hm.subset List.mem_cons_self)
  rw [← List.cons_append]
  refine { rank_lt := ?_, empty := ?_, built := ?_, full_iff := ?_, nested := ?_, notAgain := ?_ }
  · intro m hm
    exact hentered.rank_lt m (by simpa using hm)
  · intro m hm
    exact hentered.empty m (by simpa using hm)
  · intro _ m after hm
    obtain ⟨rest, rfl, ⟨rfl, -⟩ | hrest⟩ := hlast hm
    · exact List.mem_append_right _ (List.mem_singleton_self _)
    · exact List.mem_append_left _ (h.built trivial m rest hrest)
  · intro m
    rw [n.full_write_iff, hentered.full_iff, List.mem_append, List.mem_singleton,
      Event.built.injEq, or_comm, or_assoc]
  · intro m after hm l hl
    obtain ⟨rest, rfl, ⟨rfl, rfl⟩ | hrest⟩ := hlast hm
    · have hmem := Event.mem_of_mem_untilBuilt hl
      exact h.rank_lt l (by simpa using hmem)
    · rw [Event.untilBuilt_append (h.built trivial m rest hrest)] at hl
      exact h.nested m rest hrest l hl
  · intro m
    refine List.pairwise_append.2 ⟨hentered.notAgain m, List.pairwise_singleton _ _, ?_⟩
    intro e _ e' he' _ heq
    rw [List.mem_singleton.1 he'] at heq
    cases heq

end Records

namespace Query

/-! ### Plans -/

/-- How a query is put together that is refused for errors with the property only, and asks caches
of a rank below the bound only. -/
inductive Plan (P : Error K → Prop) : ℕ → {α : Type} → Query K α → Type 1
  /-- A value. -/
  | pure {k : ℕ} {α : Type} (x : α) : Plan P k (Pure.pure x)
  /-- A refusal. -/
  | throw {k : ℕ} {α : Type} {e : Error K} (h : P e) : Plan P k (MonadExcept.throw e : Query K α)
  /-- A look at the design. -/
  | read {k : ℕ} : Plan P k MonadReader.read
  /-- A query, and another one that depends on the answer. -/
  | bind {k : ℕ} {α β : Type} {q : Query K α} {f : α → Query K β} (p : Plan P k q)
    (pf : ∀ x, Plan P k (f x)) : Plan P k (q >>= f)
  /-- A cache, whose builder asks caches of lower ranks. -/
  | request {k : ℕ} (n : CacheName) {build : Query K (n.Value K)} (h : n.rank < k)
    (p : Plan P n.rank build) : Plan P k (cached n build)

namespace Plan

variable {P P' : Error K → Prop} {k : ℕ} {q : Query K α}

/-- Errors may be forgotten. -/
def mono (hP : ∀ e, P e → P' e) : {k : ℕ} → {α : Type} → {q : Query K α} → Plan P k q → Plan P' k q
  | _, _, _, pure x => pure x
  | _, _, _, throw h => throw (hP _ h)
  | _, _, _, read => read
  | _, _, _, bind p pf => bind (p.mono hP) fun x => (pf x).mono hP
  | _, _, _, request n h p => request n h (p.mono hP)

theorem not_exists_ok (e : Error K) : ¬ ∃ x : α, Except.error e = .ok x := by
  rintro ⟨x, hx⟩
  cases hx

/-- **What the trace of a query looks like.** -/
theorem records (p : Plan P k q) (d : Design K) (s : Store K) :
    Records k s (∃ x, (q.answer d s).1 = .ok x) (q.answer d s).2 (q.trace d s) := by
  induction p generalizing s with
  | pure x => exact .nil
  | throw h => exact .nil
  | read => exact .nil
  | @bind k α β q f p pf ih ihf =>
    have hp := ih s
    rw [answer_bind, trace_bind]
    rcases hanswer : q.answer d s with ⟨x | x, t⟩
    · rw [hanswer] at hp
      rw [List.append_nil]
      exact hp.congr (iff_of_false (not_exists_ok x) (not_exists_ok x))
    · rw [hanswer] at hp
      exact (hp.congr (iff_true_intro ⟨x, rfl⟩)).append (ihf x t)
  | @request k n build hn p ih =>
    have hp := ih s
    rw [answer_cached, trace_cached, trace_traced]
    cases hv : (n.slot.read s).value? with
    | some v => exact .nil
    | none =>
      have hs : ¬ n.Full s := Option.not_isSome_iff_eq_none.2 hv
      dsimp only
      rcases hanswer : build.answer d s with ⟨x | v, t⟩
      · rw [hanswer] at hp
        rw [List.append_nil]
        exact (hp.entered hn hs).congr (iff_of_false not_false (not_exists_ok x))
      · rw [hanswer] at hp
        exact ((hp.congr (iff_true_intro ⟨v, rfl⟩)).filled hn hs v).congr
          (iff_true_intro ⟨v, rfl⟩).symm

end Plan

/-! ### Queries that have a plan -/

/-- Whatever the design is and whatever the store holds, the query ends in no other error than one
with the property. -/
def Fails (P : Error K → Prop) (q : Query K α) : Prop := ∀ d s, ErrorIs P (q.answer d s).1

theorem Plan.fails {P : Error K → Prop} {k : ℕ} {q : Query K α} (p : Plan P k q) : Fails P q := by
  intro d s
  induction p generalizing s with
  | pure x => trivial
  | throw h => exact h
  | read => trivial
  | @bind k α β q f p pf ih ihf =>
    have hq := ih s
    rw [answer_bind]
    rcases hanswer : q.answer d s with ⟨x | x, t⟩
    · rw [hanswer] at hq
      exact hq
    · exact ihf x t
  | @request k n build hn p ih =>
    have hbuild := ih s
    rw [answer_cached]
    cases (n.slot.read s).value? with
    | some v => trivial
    | none =>
      rcases hanswer : build.answer d s with ⟨x | x, t⟩
      · rw [hanswer] at hbuild
        exact hbuild
      · trivial

/-- The query has a plan. -/
def Planned (P : Error K → Prop) (k : ℕ) (q : Query K α) : Prop := Nonempty (Plan P k q)

namespace Planned

variable {P P' : Error K → Prop} {k : ℕ} {q : Query K α}

theorem fails (h : Planned P k q) : Fails P q := h.elim fun p => p.fails

theorem mono (h : Planned P k q) (hP : ∀ e, P e → P' e) : Planned P' k q := h.map fun p => p.mono hP

/-- What the query is refused for may be forgotten. -/
theorem any (h : Planned P k q) : Planned (fun _ => True) k q := h.mono fun _ _ => trivial

theorem pure (x : α) : Planned P k (pure x) := ⟨.pure x⟩

theorem throw {e : Error K} (h : P e) : Planned P k (throw e : Query K α) := ⟨.throw h⟩

theorem read : Planned P k (MonadReader.read : Query K (Design K)) := ⟨.read⟩

theorem bind {f : α → Query K β} (h : Planned P k q) (hf : ∀ x, Planned P k (f x)) :
    Planned P k (q >>= f) := h.map fun p => p.bind fun x => (hf x).some

/-- What would come after a refusal does not matter. -/
theorem throw_bind {e : Error K} (h : P e) {f : α → Query K β} :
    Planned P k (MonadExcept.throw e >>= f) := ⟨.throw h⟩

theorem ofExcept {r : Except (Error K) α} (h : ErrorIs P r) : Planned P k (ofExcept r) := by
  cases r with
  | ok x => exact pure x
  | error e => exact throw h

theorem require {e : Error K} (h : P e) (o : Option α) : Planned P k (require e o) := by
  cases o with
  | some x => exact pure x
  | none => exact throw h

theorem ite {p : Prop} [Decidable p] {q q' : Query K α} (h : Planned P k q)
    (h' : Planned P k q') : Planned P k (if p then q else q') := by
  split
  · exact h
  · exact h'

theorem mapM {f : α → Query K β} (h : ∀ x, Planned P k (f x)) (xs : List α) :
    Planned P k (xs.mapM f) := by
  induction xs with
  | nil => exact pure []
  | cons x xs ih =>
    rw [List.mapM_cons]
    exact (h x).bind fun _ => ih.bind fun _ => pure _

/-- A cache is asked for under every bound above its rank, if its builder asks for lower ones. -/
theorem request (n : CacheName) {build : Query K (n.Value K)} (h : Planned P n.rank build) :
    Planned P (k + (n.rank + 1)) (cached n build) :=
  h.map fun p => p.request n (Nat.lt_add_left k (Nat.lt_succ_self _))

end Planned

end Query

end WingBox
