import WingBox.Proofs.Structure.Ensured

/-!
# Distributions of ribs

A set of ribs is distributed between the parameters of its two ends.  There are three ways to do
it, `Query.Distributed`: a single rib, a number of ribs with equal steps, and ribs a distance apart
on the reference line.

* `Query.ensures_distributed`: the ribs of a set are distributed in one of these ways, between the
  parameters of its ends;
* `Query.Distributed.count_eq_zero_iff`: there is no rib at all only where the count of ribs that
  fit between the ends runs over.
-/

namespace WingBox

open Scalar

namespace Query

section Distribution

variable {K : Type} [Scalar K] {d : Design K}

/-- The ways in which the ribs of a set are distributed between two parameters. -/
inductive Distributed (d : Design K) (set : RibSet K) (a b : K) : RibSpread K → Prop
  /-- A single rib. -/
  | single {n : UInt32} (hcount : set.count = .numberOfRibs n) (hn : n ≤ 1) :
    Distributed d set a b ⟨a, b, 0, 1⟩
  /-- A number of ribs, with equal steps from the first one to the last one. -/
  | counted {n : UInt32} (hcount : set.count = .numberOfRibs n) (hn : ¬ n ≤ 1) :
    Distributed d set a b ⟨a, b, abs (b - a) / ((n.toNat - 1 : Nat) : K), n.toUInt64⟩
  /-- As many ribs as fit a distance apart on the reference line. -/
  | spaced {distance length : K} (hcount : set.count = .spacing distance)
    (hlength : Yields d (lineLength set.ribReference) (.ok length)) :
    Distributed d set a b ⟨a, b, distance / length, ribsApart distance length (abs (b - a))⟩

namespace Distributed

variable {set : RibSet K} {a b : K} {sp : RibSpread K}

theorem etaStart_eq (h : Distributed d set a b sp) : sp.etaStart = a := by
  cases h <;> rfl

theorem etaStop_eq (h : Distributed d set a b sp) : sp.etaStop = b := by
  cases h <;> rfl

/-- A set without ribs is one whose ribs fit too often to be counted. -/
theorem count_eq_zero_iff (h : Distributed d set a b sp) (husable : set.count.Usable) :
    sp.count = 0 ↔ ∃ distance length, set.count = .spacing distance ∧
      Yields d (lineLength set.ribReference) (.ok length) ∧ ¬ abs (b - a) ≤ tolerance ∧
      floorCount ((length * abs (b - a) + tolerance) / distance) + 1 = 0 := by
  constructor
  · intro hzero
    cases h with
    | single _ _ => exact absurd hzero (by decide : (1 : UInt64) ≠ 0)
    | @counted n hcount _ =>
      rw [hcount] at husable
      have hn : n ≠ 0 := husable
      have hzero : n.toUInt64 = (0 : UInt32).toUInt64 := hzero
      exact absurd (UInt32.toUInt64_inj.1 hzero) hn
    | @spaced distance length hcount hlength =>
      have hzero : ribsApart distance length (abs (b - a)) = 0 := hzero
      unfold ribsApart at hzero
      split at hzero
      · exact absurd hzero (by decide)
      next hlong => exact ⟨distance, length, hcount, hlength, hlong, hzero⟩
  · rintro ⟨distance, length, hcount, hlength, hlong, hzero⟩
    cases h with
    | single hn _ | counted hn _ => cases hcount.symm.trans hn
    | spaced hn hlength' =>
      obtain rfl := RibCount.spacing.inj (hcount.symm.trans hn)
      obtain rfl := Except.ok.inj (hlength.unique hlength')
      exact (if_neg hlong).trans hzero

end Distributed

/-- The ribs of a set are counted by their distribution. -/
theorem ribCount_eq {r : RibsDefinition K} {set : RibSet K} (hset : r.positioning = .set set) :
    ribCount r = do return (← spread r).count.toNat := by
  unfold ribCount
  rw [hset]

theorem yields_lineLength_leadingEdge {v : Wire K} (h : d.wing.chordwiseLine 0 = .ok v) :
    Yields d (lineLength .leadingEdge) (.ok v.length) :=
  (Yields.bind_wing (.ofExcept_ok h)).bind_ok (.pure _)

/-- Ribs a distance apart are spread between the parameters that are given. -/
theorem yields_spread_spacing {r : RibsDefinition K} {set : RibSet K} {a b distance length : K}
    (hr : d.HasRibs r) (hset : r.positioning = .set set) (hstart : set.start = .eta a)
    (hstop : set.stop = .eta b) (hcount : set.count = .spacing distance)
    (hlength : Yields d (lineLength set.ribReference) (.ok length)) :
    Yields d (spread r)
      (.ok ⟨a, b, distance / length, ribsApart distance length (abs (b - a))⟩) := by
  refine .cached (Store.filledBy_spread hr) ?_
  unfold buildSpread
  rw [RibsDefinition.set, hset]
  refine (Yields.pure set).bind_ok ?_
  rw [hstart, hstop, hcount]
  exact .bind_ok (.pure _) (.bind_ok (.pure _) (hlength.bind_ok (.pure _)))

variable (h : d.LookupsMatch .same d) {r : RibsDefinition K} (hr : d.RibsMatch .same d r r)
  {set : RibSet K} (hset : r.positioning = .set set)
include h hr hset

omit hset in
/-- What is told about a distribution is told about one that there is. -/
theorem exists_spread_of_ok {α : Type} {f : RibSpread K → α} {v : α}
    (hv : Yields d (do return f (← spread r)) (.ok v)) :
    ∃ sp, Yields d (spread r) (.ok sp) ∧ f sp = v := by
  obtain ⟨x | sp, hsp⟩ := (parallel_spread h hr).exists_yields
  · cases hv.unique hsp.bind_error
  · exact ⟨sp, hsp, (Except.ok.inj (hv.unique (hsp.bind_ok (.pure _)))).symm⟩

/-- Ribs of a set that are counted are distributed. -/
theorem exists_spread {c : ℕ} (hcount : Yields d (ribCount r) (.ok c)) :
    ∃ sp, Yields d (spread r) (.ok sp) ∧ sp.count.toNat = c :=
  exists_spread_of_ok h hr (ribCount_eq hset ▸ hcount)

/-- The ribs of a set are distributed between the parameters of its ends. -/
theorem ensures_distributed : Ensures d (spread r) fun sp =>
    ∃ a b, Yields d (boundaryParameter r.uid set set.start) (.ok a) ∧
      Yields d (boundaryParameter r.uid set set.stop) (.ok b) ∧ Distributed d set a b sp := by
  have hx : Naming.same.Owner r.uid r.uid := .ribs hr.toMatch.uid
  have hmatch := set_match hr hset
  have hok : r.set = .ok set := by rw [RibsDefinition.set, hset]
  refine .cached (Store.filledBy_spread hr.here) ?_
  unfold buildSpread
  rw [hok]
  refine (Ensures.of_yields (Yields.pure set)).bind fun set' hset' => ?_
  obtain rfl := Except.ok.inj hset'
  have hstart := Ensures.of_parallel (parallel_boundaryParameter h hx hmatch hmatch.start)
  have hstop := Ensures.of_parallel (parallel_boundaryParameter h hx hmatch hmatch.stop)
  refine hstart.bind fun a ha => hstop.bind fun b hb => ?_
  cases hcount : set.count with
  | numberOfRibs n =>
    dsimp only
    split
    next hone => exact .pure ⟨a, b, ha, hb, .single hcount hone⟩
    next hmany => exact .pure ⟨a, b, ha, hb, .counted hcount hmany⟩
  | spacing distance =>
    refine (Ensures.of_parallel (parallel_lineLength h hmatch.ribReference)).bind
      fun length hlength => .pure ⟨a, b, ha, hb, .spaced hcount hlength⟩

/-- What is told about the distribution of a set is told about one between the parameters of its
ends. -/
theorem exists_distributed {α : Type} {f : RibSpread K → α} {v : α}
    (hv : Yields d (do return f (← spread r)) (.ok v)) :
    ∃ sp, Yields d (spread r) (.ok sp) ∧ f sp = v ∧
      Yields d (boundaryParameter r.uid set set.start) (.ok sp.etaStart) ∧
      Yields d (boundaryParameter r.uid set set.stop) (.ok sp.etaStop) ∧
      Distributed d set sp.etaStart sp.etaStop sp := by
  obtain ⟨sp, hsp, hf⟩ := exists_spread_of_ok h hr hv
  obtain ⟨a, b, ha, hb, hdistributed⟩ := (ensures_distributed h hr hset).holds hsp
  refine ⟨sp, hsp, hf, ?_⟩
  rw [hdistributed.etaStart_eq, hdistributed.etaStop_eq]
  exact ⟨ha, hb, hdistributed⟩

end Distribution

end Query

/-- Ribs of a set that are defined are counted in a way that can be used. -/
theorem Structure.usable_of_valid {K : Type} [Scalar K] {d : Design K} (h : d.Valid)
    {r : RibsDefinition K} (hr : r ∈ d.ribs.items) {set : RibSet K}
    (hset : r.positioning = .set set) : set.count.Usable := by
  have hcheck := RibsDefinition.check_declaration_iff.1 (h.checked_ribs r hr)
  rwa [hset, RibsDeclaration.countFault?_set_eq_none_iff] at hcheck

end WingBox
