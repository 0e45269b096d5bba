import WingBox.Proofs.Container.Registry
import WingBox.Proofs.Definition.Match
import WingBox.Structure.Ribs

/-!
# Answers that do not depend on the store

`Query.answer` is what a query answers about a design from a store, with the store it leaves
behind.  A store is `Store.Coherent` with a design when every cache in it holds what its builder
gives from an empty store.

* `Query.Yields d q r`: from every coherent store, `q` answers `r` and leaves the store coherent.
  So it does not matter what was asked before, or what is kept.
* `Query.Parallel N d d' R q q'`: `q` about `d` and `q'` about `d'` yield outcomes that match under
  the naming `N`, with values related by `R`.

There is one rule for each way in which queries are put together.  The rule for caches,
`Query.Parallel.cached`, says that they answer as their builders do.
-/

namespace WingBox

variable {K : Type} {α β γ δ : Type}

namespace Query

/-! ### Answers -/

/-- What a query answers, and the store it leaves behind. -/
def answer (q : Query K α) (d : Design K) (s : Store K) : Except (Error K) α × Store K :=
  ((q.run d).run.run s).value

/-- What happens to the caches while a query is answered. -/
def trace (q : Query K α) (d : Design K) (s : Store K) : List Event := ((q.run d).run.run s).events

/-- What a query answers when nothing is computed. -/
def fresh (q : Query K α) (d : Design K) : Except (Error K) α := (q.answer d .empty).1

variable {d : Design K} {s : Store K}

@[simp] theorem answer_pure (x : α) : (pure x : Query K α).answer d s = (.ok x, s) := rfl

@[simp] theorem answer_getThe : (getThe (Store K) : Query K _).answer d s = (.ok s, s) := rfl

@[simp] theorem answer_modifyThe (f : Store K → Store K) :
    (modifyThe (Store K) f : Query K _).answer d s = (.ok ⟨⟩, f s) := rfl

@[simp] theorem answer_leave (e : Event) : (leave e : Query K _).answer d s = (.ok ⟨⟩, s) := rfl

theorem answer_bind (q : Query K α) (f : α → Query K β) :
    (q >>= f).answer d s = match q.answer d s with
      | (.ok x, t) => (f x).answer d t
      | (.error e, t) => (.error e, t) := by
  simp only [answer, ReaderT.run_bind, ExceptT.run_bind, StateT.run_bind, Traced.value_bind]
  rcases ((q.run d).run.run s : Traced Event (Except (Error K) α × Store K)) with
    ⟨⟨_ | _, _⟩, _⟩ <;> rfl

/-- Events are not seen in the answer. -/
theorem answer_traced (n : CacheName) (build : Query K (n.Value K)) :
    (traced n build).answer d s = build.answer d s := by
  simp only [traced, answer_bind, answer_leave, answer_pure]
  rcases build.answer d s with ⟨_ | _, _⟩ <;> rfl

/-- A cache answers with its value, or as its builder does. -/
theorem answer_cached (n : CacheName) (build : Query K (n.Value K)) :
    (cached n build).answer d s = match (n.slot.read s).value? with
      | some v => (.ok v, s)
      | none => match build.answer d s with
        | (.ok v, t) => (.ok v, n.slot.write (.full v) t)
        | (.error e, t) => (.error e, t) := by
  simp only [cached, Slot.getOrBuild, answer_bind, answer_getThe]
  cases (n.slot.read s).value? with
  | some v => rfl
  | none =>
    simp only [answer_bind, answer_traced, answer_modifyThe, answer_pure]
    rcases build.answer d s with ⟨_ | _, _⟩ <;> rfl

/-! ### Traces -/

@[simp] theorem trace_pure (x : α) : (pure x : Query K α).trace d s = [] := rfl

@[simp] theorem trace_getThe : (getThe (Store K) : Query K _).trace d s = [] := rfl

@[simp] theorem trace_modifyThe (f : Store K → Store K) :
    (modifyThe (Store K) f : Query K _).trace d s = [] := rfl

@[simp] theorem trace_leave (e : Event) : (leave e : Query K _).trace d s = [e] := rfl

theorem trace_bind (q : Query K α) (f : α → Query K β) :
    (q >>= f).trace d s = q.trace d s ++ match q.answer d s with
      | (.ok x, t) => (f x).trace d t
      | (.error _, _) => [] := by
  simp only [trace, answer, ReaderT.run_bind, ExceptT.run_bind, StateT.run_bind, Traced.events_bind]
  rcases ((q.run d).run.run s : Traced Event (Except (Error K) α × Store K)) with
    ⟨⟨_ | _, _⟩, _⟩ <;> rfl

theorem trace_traced (n : CacheName) (build : Query K (n.Value K)) :
    (traced n build).trace d s = .entered n :: (build.trace d s ++ match (build.answer d s).1 with
      | .ok _ => [.built n]
      | .error _ => []) := by
  simp only [traced, trace_bind, trace_leave, answer_leave, trace_pure]
  rcases build.answer d s with ⟨_ | _, _⟩ <;> rfl

/-- The builder of a cache leaves events if the cache is empty. -/
theorem trace_cached (n : CacheName) (build : Query K (n.Value K)) :
    (cached n build).trace d s = match (n.slot.read s).value? with
      | some _ => []
      | none => (traced n build).trace d s := by
  simp only [cached, Slot.getOrBuild, trace_bind, answer_getThe]
  cases (n.slot.read s).value? with
  | some v => rfl
  | none =>
    simp only [trace_bind, trace_modifyThe, trace_pure, answer_modifyThe, List.nil_append]
    rcases (traced n build).answer d s with ⟨_ | _, _⟩ <;> exact List.append_nil _

end Query

/-! ### Coherent stores -/

/-- The value of a cache, if there is one, is what its builder gives from an empty store. -/
def Cache.Holds (c : Cache α) (d : Design K) (build : Query K α) : Prop :=
  ∀ v, c.value? = some v → build.fresh d = .ok v

theorem Cache.holds_empty {d : Design K} {build : Query K α} :
    (Cache.empty : Cache α).Holds d build := by
  intro v hv
  cases hv

theorem Cache.holds_full {d : Design K} {build : Query K α} {v : α} (h : build.fresh d = .ok v) :
    (Cache.full v).Holds d build := by
  intro w hw
  cases hw
  exact h

/-- Every part of a design is found by its own name. -/
structure Design.Indexed (d : Design K) : Prop where
  /-- The spar positions. -/
  positions : d.positions.Indexed
  /-- The spars. -/
  spars : d.spars.Indexed
  /-- The ribs. -/
  ribs : d.ribs.Indexed

/-- The spar is the one of its name in the design. -/
def Design.HasSpar (d : Design K) (s : SparSegment K) : Prop := d.spars.get? s.uid = some s

/-- The ribs are those of their name in the design. -/
def Design.HasRibs (d : Design K) (r : RibsDefinition K) : Prop := d.ribs.get? r.uid = some r

variable [Scalar K]

/-- Every stage of a spar that is computed is what its builder gives. -/
structure SparSlots.Coherent (d : Design K) (s : SparSegment K) (c : SparSlots K) : Prop where
  /-- The oversized form. -/
  panels : c.panels.Holds d (Query.buildPanels s)
  /-- The trimmed faces. -/
  geometry : c.geometry.Holds d (Query.buildSparGeometry s)
  /-- The split faces. -/
  divided : c.divided.Holds d (Query.buildSparDivided s)
  /-- The edges along the skins. -/
  caps : c.caps.Holds d (Query.buildSparCaps s)

/-- Every stage of ribs that is computed is what its builder gives. -/
structure RibsSlots.Coherent (d : Design K) (r : RibsDefinition K) (c : RibsSlots K) : Prop where
  /-- The distribution. -/
  spread : c.spread.Holds d (Query.buildSpread r)
  /-- The ribs before they are trimmed. -/
  cuts : c.cuts.Holds d (Query.buildCuts r)
  /-- The trimmed faces. -/
  geometry : c.geometry.Holds d (Query.buildRibsGeometry r)
  /-- The split faces. -/
  divided : c.divided.Holds d (Query.buildRibsDivided r)
  /-- The edges along the skins. -/
  caps : c.caps.Holds d (Query.buildRibsCaps r)

namespace Store

/-- Everything that is computed is what its builder gives. -/
structure Coherent (d : Design K) (s : Store K) : Prop where
  /-- The surfaces of the wing. -/
  wing : s.wing.Holds d (Query.ofExcept d.wing.geometry)
  /-- The stages of every spar. -/
  spars : ∀ spar, d.HasSpar spar → (s.spar spar.uid).Coherent d spar
  /-- The stages of all ribs. -/
  ribs : ∀ r, d.HasRibs r → (s.ribsOf r.uid).Coherent d r

variable {d : Design K} {s : Store K}

/-- Dropping the geometry of all spars and ribs leaves nothing that could be wrong about them. -/
theorem coherent_invalidated (h : s.wing.Holds d (Query.ofExcept d.wing.geometry)) :
    s.invalidated.Coherent d where
  wing := h
  spars spar _ := by
    have hempty : s.invalidated.spar spar.uid = .empty := Std.HashMap.getD_empty
    rw [hempty]
    exact ⟨Cache.holds_empty, Cache.holds_empty, Cache.holds_empty, Cache.holds_empty⟩
  ribs r _ := by
    have hempty : s.invalidated.ribsOf r.uid = .empty := Std.HashMap.getD_empty
    rw [hempty]
    exact ⟨Cache.holds_empty, Cache.holds_empty, Cache.holds_empty, Cache.holds_empty,
      Cache.holds_empty⟩

theorem coherent_empty : (empty : Store K).Coherent d :=
  coherent_invalidated (s := .empty) Cache.holds_empty

/-- A cache is filled by a builder: what a coherent store has there is the builder's, and what the
builder gives may be put there. -/
structure FilledBy (d : Design K) (n : CacheName) (build : Query K (n.Value K)) : Prop where
  /-- What is there comes from the builder. -/
  holds : ∀ s, s.Coherent d → (n.slot.read s).Holds d build
  /-- What comes from the builder may be put there. -/
  write : ∀ s v, s.Coherent d → build.fresh d = .ok v → (n.slot.write (.full v) s).Coherent d

theorem filledBy_wing : FilledBy d .wing (Query.ofExcept d.wing.geometry) where
  holds _ h := h.wing
  write _ _ h hv := { wing := Cache.holds_full hv, spars := h.spars, ribs := h.ribs }

/-- A stage of a spar is filled by a builder if that is so for the stages of this spar alone. -/
theorem filledBy_spar {spar : SparSegment K} (hspar : d.HasSpar spar) {stage : SparStage}
    {build : Query K (stage.Value K)}
    (holds : ∀ c, SparSlots.Coherent d spar c → (stage.slot.read c).Holds d build)
    (write : ∀ c v, SparSlots.Coherent d spar c → build.fresh d = .ok v →
      SparSlots.Coherent d spar (stage.slot.write (.full v) c)) :
    FilledBy d (.spar stage spar.uid) build where
  holds s h := holds _ (h.spars spar hspar)
  write s v h hv := by
    change ((sparSlot spar.uid stage.slot).write (.full v) s).Coherent d
    refine { wing := h.wing, spars := fun other hother => ?_, ribs := h.ribs }
    by_cases he : spar.uid = other.uid
    · -- the spar of this name in the design is this spar, for which `write` speaks
      have hsame : other = spar := by
        rw [Design.HasSpar, ← he, hspar] at hother
        exact (Option.some.inj hother).symm
      subst hsame
      rw [spar_write_self]
      exact write _ v (h.spars _ hspar) hv
    · -- the stages of other spars are not touched
      rw [spar_write_of_ne _ _ _ he]
      exact h.spars other hother

/-- A stage of ribs is filled by a builder if that is so for the stages of these ribs alone. -/
theorem filledBy_ribs {r : RibsDefinition K} (hr : d.HasRibs r) {stage : RibsStage}
    {build : Query K (stage.Value K)}
    (holds : ∀ c, RibsSlots.Coherent d r c → (stage.slot.read c).Holds d build)
    (write : ∀ c v, RibsSlots.Coherent d r c → build.fresh d = .ok v →
      RibsSlots.Coherent d r (stage.slot.write (.full v) c)) :
    FilledBy d (.ribs stage r.uid) build where
  holds s h := holds _ (h.ribs r hr)
  write s v h hv := by
    change ((ribsSlot r.uid stage.slot).write (.full v) s).Coherent d
    refine { wing := h.wing, spars := h.spars, ribs := fun other hother => ?_ }
    by_cases he : r.uid = other.uid
    · -- the ribs of this name in the design are these ribs, for which `write` speaks
      have hsame : other = r := by
        rw [Design.HasRibs, ← he, hr] at hother
        exact (Option.some.inj hother).symm
      subst hsame
      rw [ribsOf_write_self]
      exact write _ v (h.ribs _ hr) hv
    · -- the stages of other ribs are not touched
      rw [ribsOf_write_of_ne _ _ _ he]
      exact h.ribs other hother

section Stages

variable {spar : SparSegment K} (hspar : d.HasSpar spar)
include hspar

theorem filledBy_panels :
    FilledBy d (.spar .panels spar.uid) (Query.buildPanels spar) :=
  filledBy_spar hspar (fun _ h => h.panels)
    fun _ _ h hv => { h with panels := Cache.holds_full hv }

theorem filledBy_sparGeometry :
    FilledBy d (.spar .geometry spar.uid) (Query.buildSparGeometry spar) :=
  filledBy_spar hspar (fun _ h => h.geometry)
    fun _ _ h hv => { h with geometry := Cache.holds_full hv }

theorem filledBy_sparDivided :
    FilledBy d (.spar .divided spar.uid) (Query.buildSparDivided spar) :=
  filledBy_spar hspar (fun _ h => h.divided)
    fun _ _ h hv => { h with divided := Cache.holds_full hv }

theorem filledBy_sparCaps :
    FilledBy d (.spar .caps spar.uid) (Query.buildSparCaps spar) :=
  filledBy_spar hspar (fun _ h => h.caps) fun _ _ h hv => { h with caps := Cache.holds_full hv }

end Stages

section Stages

variable {r : RibsDefinition K} (hr : d.HasRibs r)
include hr

theorem filledBy_spread : FilledBy d (.ribs .spread r.uid) (Query.buildSpread r) :=
  filledBy_ribs hr (fun _ h => h.spread) fun _ _ h hv =>
    { h with spread := Cache.holds_full hv }

theorem filledBy_cuts : FilledBy d (.ribs .cuts r.uid) (Query.buildCuts r) :=
  filledBy_ribs hr (fun _ h => h.cuts) fun _ _ h hv => { h with cuts := Cache.holds_full hv }

theorem filledBy_ribsGeometry :
    FilledBy d (.ribs .geometry r.uid) (Query.buildRibsGeometry r) :=
  filledBy_ribs hr (fun _ h => h.geometry)
    fun _ _ h hv => { h with geometry := Cache.holds_full hv }

theorem filledBy_ribsDivided :
    FilledBy d (.ribs .divided r.uid) (Query.buildRibsDivided r) :=
  filledBy_ribs hr (fun _ h => h.divided)
    fun _ _ h hv => { h with divided := Cache.holds_full hv }

theorem filledBy_ribsCaps :
    FilledBy d (.ribs .caps r.uid) (Query.buildRibsCaps r) :=
  filledBy_ribs hr (fun _ h => h.caps) fun _ _ h hv => { h with caps := Cache.holds_full hv }

end Stages

end Store

namespace Query

/-! ### Answers from coherent stores -/

/-- From every coherent store the query answers `r`, and leaves the store coherent. -/
def Yields (d : Design K) (q : Query K α) (r : Except (Error K) α) : Prop :=
  ∀ s : Store K, s.Coherent d → (q.answer d s).1 = r ∧ (q.answer d s).2.Coherent d

namespace Yields

variable {d : Design K}

/-- The answer is the one from the empty store. -/
theorem fresh_eq {q : Query K α} {r : Except (Error K) α} (h : Yields d q r) : q.fresh d = r :=
  (h _ Store.coherent_empty).1

theorem pure (x : α) : Yields d (pure x) (.ok x) := fun _ hs => ⟨rfl, hs⟩

theorem throw (e : Error K) : Yields d (throw e : Query K α) (.error e) := fun _ hs => ⟨rfl, hs⟩

theorem read : Yields d read (.ok d) := fun _ hs => ⟨rfl, hs⟩

theorem bind_ok {q : Query K α} {x : α} {f : α → Query K β} {r : Except (Error K) β}
    (h : Yields d q (.ok x)) (hf : Yields d (f x) r) : Yields d (q >>= f) r := by
  intro s hs
  obtain ⟨hx, ht⟩ := h s hs
  rw [answer_bind, ← Prod.eta (q.answer d s), hx]
  exact hf _ ht

theorem bind_error {q : Query K α} {e : Error K} {f : α → Query K β} (h : Yields d q (.error e)) :
    Yields d (q >>= f) (.error e) := by
  intro s hs
  obtain ⟨he, ht⟩ := h s hs
  rw [answer_bind, ← Prod.eta (q.answer d s), he]
  exact ⟨rfl, ht⟩

/-- A cache yields what its builder yields, whether it is filled or not. -/
theorem cached {n : CacheName} {build : Query K (n.Value K)} {r : Except (Error K) (n.Value K)}
    (hn : Store.FilledBy d n build) (h : Yields d build r) : Yields d (cached n build) r := by
  intro s hs
  rw [answer_cached]
  cases hv : (n.slot.read s).value? with
  | some v =>
    -- a filled cache holds what the builder gives, and nothing is written
    have hfresh := hn.holds s hs v hv
    rw [h.fresh_eq] at hfresh
    exact ⟨hfresh.symm, hs⟩
  | none =>
    -- an empty cache is filled with what has just been built, if it could be built
    obtain ⟨hr, ht⟩ := h s hs
    simp only
    rw [← Prod.eta (build.answer d s), hr]
    cases r with
    | ok v => exact ⟨rfl, hn.write _ v ht h.fresh_eq⟩
    | error e => exact ⟨rfl, ht⟩

end Yields

/-! ### Two queries side by side -/

/-- Two queries about two designs yield outcomes that match. -/
def Parallel (N : Naming) (d d' : Design K) (R : α → β → Prop) (q : Query K α) (q' : Query K β) :
    Prop :=
  ∃ r r', Yields d q r ∧ Yields d' q' r' ∧ OutcomesMatch N R r r'

namespace Parallel

variable {N : Naming} {d d' : Design K} {R : α → β → Prop} {S : γ → δ → Prop}

theorem pure {x : α} {y : β} (h : R x y) : Parallel N d d' R (pure x) (pure y) :=
  ⟨_, _, .pure x, .pure y, .ok h⟩

theorem throw {e e' : Error K} (h : e.Match N e') : Parallel N d d' R (throw e) (throw e') :=
  ⟨_, _, .throw e, .throw e', .error h⟩

/-- What would come after a refusal does not matter. -/
theorem throw_bind {e e' : Error K} (h : e.Match N e') {f : α → Query K γ} {f' : β → Query K δ} :
    Parallel N d d' S (MonadExcept.throw e >>= f) (MonadExcept.throw e' >>= f') :=
  ⟨_, _, Yields.bind_error (.throw e), Yields.bind_error (.throw e'), .error h⟩

theorem read : Parallel N d d' (fun x y => x = d ∧ y = d') read read :=
  ⟨_, _, .read, .read, .ok ⟨rfl, rfl⟩⟩

theorem mono {q : Query K α} {q' : Query K β} {R' : α → β → Prop} (h : Parallel N d d' R q q')
    (hR : ∀ x y, R x y → R' x y) : Parallel N d d' R' q q' := by
  obtain ⟨r, r', hq, hq', hr⟩ := h
  refine ⟨r, r', hq, hq', ?_⟩
  cases hr with
  | ok hxy => exact .ok (hR _ _ hxy)
  | error he => exact .error he

theorem bind {q : Query K α} {q' : Query K β} {f : α → Query K γ} {f' : β → Query K δ}
    (h : Parallel N d d' R q q') (hf : ∀ x y, R x y → Parallel N d d' S (f x) (f' y)) :
    Parallel N d d' S (q >>= f) (q' >>= f') := by
  obtain ⟨r, r', hq, hq', hr⟩ := h
  cases hr with
  | ok hxy =>
    obtain ⟨t, t', hf, hf', ht⟩ := hf _ _ hxy
    exact ⟨t, t', hq.bind_ok hf, hq'.bind_ok hf', ht⟩
  | error he => exact ⟨_, _, hq.bind_error, hq'.bind_error, .error he⟩

/-- The rule of `bind` for a first step with the same value on both sides. -/
theorem bind_eq {q q' : Query K α} {f : α → Query K γ} {f' : α → Query K δ}
    (h : Parallel N d d' Eq q q') (hf : ∀ x, Parallel N d d' S (f x) (f' x)) :
    Parallel N d d' S (q >>= f) (q' >>= f') :=
  h.bind fun x _ hxy => hxy ▸ hf x

/-- The rule of `bind` for a query that starts by reading the design. -/
theorem bind_read {f : Design K → Query K α} {f' : Design K → Query K β}
    (h : Parallel N d d' R (f d) (f' d')) :
    Parallel N d d' R (MonadReader.read >>= f) (MonadReader.read >>= f') := by
  refine read.bind fun x x' hx => ?_
  rw [hx.1, hx.2]
  exact h

theorem ofExcept {r : Except (Error K) α} {r' : Except (Error K) β} (h : OutcomesMatch N R r r') :
    Parallel N d d' R (ofExcept r) (ofExcept r') := by
  cases h with
  | ok h => exact .pure h
  | error h => exact .throw h

theorem require {e e' : Error K} (he : e.Match N e') {o : Option α} {o' : Option β}
    (h : Option.Rel R o o') : Parallel N d d' R (require e o) (require e' o') := by
  cases h with
  | some h => exact .pure h
  | none => exact .throw he

/-- The rule of `require` for the same value on both sides. -/
theorem require_eq {e e' : Error K} (he : e.Match N e') (o : Option α) :
    Parallel N d d' Eq (Query.require e o) (Query.require e' o) := by
  cases o with
  | some x => exact .pure rfl
  | none => exact .throw he

theorem ite {p : Prop} [Decidable p] {q t : Query K α} {q' t' : Query K β}
    (h : Parallel N d d' R q q') (ht : Parallel N d d' R t t') :
    Parallel N d d' R (if p then q else t) (if p then q' else t') := by
  split
  · exact h
  · exact ht

theorem mapM {xs : List α} {ys : List β} {f : α → Query K γ} {g : β → Query K δ}
    (h : List.Forall₂ R xs ys) (hfg : ∀ x y, R x y → Parallel N d d' S (f x) (g y)) :
    Parallel N d d' (List.Forall₂ S) (xs.mapM f) (ys.mapM g) := by
  induction h with
  | nil => exact .pure .nil
  | cons hxy _ ih =>
    simp only [List.mapM_cons]
    refine (hfg _ _ hxy).bind fun x y hxy => ih.bind fun xs ys hxs => ?_
    exact .pure (.cons hxy hxs)

/-- The rule for caches. -/
theorem cached {n n' : CacheName} {build : Query K (n.Value K)} {build' : Query K (n'.Value K)}
    {R : n.Value K → n'.Value K → Prop} (hn : Store.FilledBy d n build)
    (hn' : Store.FilledBy d' n' build') (h : Parallel N d d' R build build') :
    Parallel N d d' R (cached n build) (cached n' build') := by
  obtain ⟨r, r', hq, hq', hr⟩ := h
  exact ⟨r, r', hq.cached hn, hq'.cached hn', hr⟩

/-- The rule for a cache on one side only. -/
theorem cached_left {n : CacheName} {build : Query K (n.Value K)} {q : Query K β}
    {R : n.Value K → β → Prop} (hn : Store.FilledBy d n build) (h : Parallel N d d' R build q) :
    Parallel N d d' R (Query.cached n build) q := by
  obtain ⟨r, r', hbuild, hq, hr⟩ := h
  exact ⟨r, r', hbuild.cached hn, hq, hr⟩

/-- What is answered about the two designs, from coherent stores. -/
theorem answers {q : Query K α} {q' : Query K β} (h : Parallel N d d' R q q') {s s' : Store K}
    (hs : s.Coherent d) (hs' : s'.Coherent d') :
    OutcomesMatch N R (q.answer d s).1 (q'.answer d' s').1 := by
  obtain ⟨r, r', hq, hq', hr⟩ := h
  rw [(hq s hs).1, (hq' s' hs').1]
  exact hr

theorem coherent {q : Query K α} {q' : Query K β} (h : Parallel N d d' R q q') {s : Store K}
    (hs : s.Coherent d) : (q.answer d s).2.Coherent d := by
  obtain ⟨r, r', hq, -, -⟩ := h
  exact (hq s hs).2

end Parallel

end Query

end WingBox
