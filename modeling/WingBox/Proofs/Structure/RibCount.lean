import WingBox.Proofs.Structure.RibPoint

/-!
# How many ribs a set has, with exact numbers

A set has the number of ribs that it gives, or as many as fit a distance apart between its ends.
The count has 64 bits.

* `Query.isGreatest_floor`: the floor of a quotient counts the steps that fit;
* `Query.toNat_ribsApart`: counting by distance finds the largest number of ribs that fit, and
  starts again from zero if 64 bits cannot hold it;
* `Structure.ribs_counted`: so the number of ribs and the step between them cover the distance of
  the two ends, unless there are too many ribs to be counted.
-/

namespace WingBox

open Scalar

namespace Query

/-! ### Steps that fit -/

/-- There are as many ribs as there are steps that fit, and the one from which they start. -/
theorem isGreatest_floor {distance extent : ℝ} (hdistance : 0 < distance) (hextent : 0 ≤ extent) :
    IsGreatest {k : ℕ | (k - 1 : ℝ) * distance ≤ extent} (⌊extent / distance⌋₊ + 1) := by
  have hquotient : 0 ≤ extent / distance := div_nonneg hextent hdistance.le
  constructor
  · have hfloor := Nat.floor_le hquotient
    rw [Set.mem_ofPred_eq, Nat.cast_add, Nat.cast_one, add_sub_cancel_right]
    exact (le_div_iff₀ hdistance).1 hfloor
  · intro k hk
    rw [Set.mem_ofPred_eq, ← le_div_iff₀ hdistance, sub_le_iff_le_add] at hk
    have hk : (k : ℝ) < ⌊extent / distance⌋₊ + 1 + 1 :=
      hk.trans_lt (add_lt_add_left (Nat.lt_floor_add_one _) 1)
    exact Nat.lt_succ_iff.1 (mod_cast hk)

/-- The count of 64 bits holds the number of ribs that fit, or starts again from zero. -/
theorem toNat_ribsApart {distance length delta : ℝ} (hdelta : tolerance < delta) :
    (ribsApart distance length delta).toNat =
      let k := ⌊(length * delta + tolerance) / distance⌋₊ + 1
      if k < 2 ^ 64 then k else 0 := by
  unfold ribsApart
  rw [if_neg hdelta.not_ge, UInt64.toNat_add, toNat_floorCount]
  dsimp only
  generalize ⌊(length * delta + tolerance) / distance⌋₊ = n
  split_ifs with hn
  · rw [min_eq_left (by omega)]
    exact Nat.mod_eq_of_lt hn
  · rw [min_eq_right (by omega)]
    rfl

namespace Distributed

variable {d : Design ℝ} {set : RibSet ℝ} {a b : ℝ} {sp : RibSpread ℝ}

/-- A number of ribs is the one that is given, and their steps cover the distance of the ends. -/
theorem numberOfRibs (h : Distributed d set a b sp) {n : UInt32}
    (hcount : set.count = .numberOfRibs n) (husable : set.count.Usable) :
    sp.count.toNat = n.toNat ∧ (n = 1 → sp.offset = 0) ∧
      (2 ≤ n → sp.offset * (n.toNat - 1 : ℕ) = |b - a|) := by
  rw [hcount] at husable
  cases h with
  | @single m hm hone =>
    obtain rfl := RibCount.numberOfRibs.inj (hcount.symm.trans hm)
    have hn : n ≠ 0 := husable
    obtain rfl : n = 1 := by grind
    exact ⟨rfl, fun _ => rfl, fun htwo => absurd htwo (by decide)⟩
  | @counted m hm hmany =>
    obtain rfl := RibCount.numberOfRibs.inj (hcount.symm.trans hm)
    refine ⟨UInt32.toNat_toUInt64 n, fun hone => absurd (UInt32.le_of_eq hone) hmany,
      fun htwo => ?_⟩
    exact ((fits_number a b hmany).last n rfl htwo).2
  | spaced hm _ => cases hcount.symm.trans hm

/-- Ribs a distance apart are as many as fit on their line, if they can be counted. -/
theorem spacing (h : Distributed d set a b sp) {distance : ℝ}
    (hcount : set.count = .spacing distance) :
    ∃ length, Yields d (lineLength set.ribReference) (.ok length) ∧
      sp.offset = distance / length ∧ sp.count = ribsApart distance length |b - a| := by
  cases h with
  | single hm _ | counted hm _ => cases hcount.symm.trans hm
  | spaced hm hlength =>
    obtain rfl := RibCount.spacing.inj (hcount.symm.trans hm)
    exact ⟨_, hlength, rfl, rfl⟩

end Distributed

end Query

namespace Structure

/-- There are `c` ribs with steps `o` in a set between the parameters `a` and `b`. -/
structure RibsCounted (s : Structure ℝ) (r : RibsDefinition ℝ) (set : RibSet ℝ) (c : ℕ)
    (a b o : ℝ) : Prop where
  /-- The parameter of the start. -/
  etaStart : s.answer (.ribs r.uid .etaStart) = .ok a
  /-- The parameter of the end. -/
  etaStop : s.answer (.ribs r.uid .etaStop) = .ok b
  /-- The step. -/
  etaOffset : s.answer (.ribs r.uid .etaOffset) = .ok o
  /-- A number of ribs is the one that is given.  A single rib has no step, the steps of more of
  them cover the distance of the ends. -/
  numberOfRibs : ∀ n, set.count = .numberOfRibs n →
    c = n.toNat ∧ (n = 1 → o = 0) ∧ (2 ≤ n → o * (c - 1 : ℕ) = |b - a|)
  /-- Of ribs a distance apart there are as many as fit, unless 64 bits cannot count them. -/
  spacing : ∀ distance, set.count = .spacing distance → 0 < distance ∧
    ∃ length, s.answer (.lineLength set.ribReference) = .ok length ∧ 0 < length ∧
      o * length = distance ∧ (|b - a| ≤ tolerance → c = 1) ∧
      (tolerance < |b - a| → ∃ k : ℕ,
        IsGreatest {k : ℕ | (k - 1 : ℝ) * distance ≤ length * |b - a| + tolerance} k ∧
          c = if k < 2 ^ 64 then k else 0)

/-- **Ribs cover their set, as many as there are or as fit, if they can be counted.**  The steps of
a number of ribs add up to the distance of the two ends.  Ribs a distance apart are as many as fit
between the ends, seen from within the tolerance, if 64 bits can hold their number; else there are
none at all. -/
theorem ribs_counted {s : Structure ℝ} (h : s.Reachable) {r : RibsDefinition ℝ}
    (hr : r ∈ s.design.ribs.items) {set : RibSet ℝ} (hset : r.positioning = .set set) {c : ℕ}
    (hcount : s.answer (.ribs r.uid .count) = .ok c) :
    ∃ a b o, s.RibsCounted r set c a b o := by
  have hs := sound_of_reachable h
  have hfound := hs.valid.ribs.get?_eq_some_iff.2 ⟨hr, rfl⟩
  have hmatch := match_self hs
  have hlookups := hmatch.lookupsMatch
  have hself := ribsMatch_self hs hfound
  have husable := usable_of_valid hs.valid hr hset
  have hcount : Query.Yields s.design (Query.ribCount r) (.ok c) :=
    yields_of_answer_ribs hs hfound hcount
  rw [Query.ribCount_eq hset] at hcount
  obtain ⟨sp, hsp, rfl, -, -, hdistributed⟩ :=
    Query.exists_distributed hlookups hself hset hcount
  refine ⟨sp.etaStart, sp.etaStop, sp.offset, ?_⟩
  constructor
  case etaStart => exact answer_ribs hs hfound (q := .etaStart) (hsp.bind_ok (.pure _))
  case etaStop => exact answer_ribs hs hfound (q := .etaStop) (hsp.bind_ok (.pure _))
  case etaOffset => exact answer_ribs hs hfound (q := .etaOffset) (hsp.bind_ok (.pure _))
  case numberOfRibs =>
    intro n hn
    obtain ⟨hnumber, hsingle, hmany⟩ := hdistributed.numberOfRibs hn husable
    rw [hnumber]
    exact ⟨rfl, hsingle, hmany⟩
  case spacing =>
    intro distance hn
    obtain ⟨length, hlength, hoffset, hribs⟩ := hdistributed.spacing hn
    have hpos := Query.lineLength_pos hlookups hmatch.indexed hlength
    have hdistance : 0 < distance := not_le.1 (hn ▸ husable : RibCount.Usable (.spacing distance))
    have hextent : 0 ≤ length * |sp.etaStop - sp.etaStart| + tolerance :=
      add_nonneg (mul_nonneg hpos.le (abs_nonneg _)) tolerance_pos.le
    refine ⟨hdistance, length, (hlength s.store hs.coherent).1, hpos, ?_, fun hshort => ?_,
      fun hlong => ⟨_, Query.isGreatest_floor hdistance hextent, ?_⟩⟩
    · rw [hoffset, div_mul_cancel₀ _ hpos.ne']
    · rw [hribs, Query.ribsApart, if_pos hshort]
      rfl
    · rw [hribs, Query.toNat_ribsApart hlong]

/-- Ribs along the leading edge that are too near to each other to be counted. -/
noncomputable def denseSet : RibSet ℝ where
  ribReference := .leadingEdge
  start := .eta 0.25
  stop := .eta 0.75
  ribStart := .leadingEdge
  ribEnd := .trailingEdge
  count := .spacing 1e-20
  crossing := .cross
  rotation := .plain

/-- The ribs of the set. -/
noncomputable def denseRibs : RibsDefinition ℝ := ⟨"ribs", .set denseSet, .plain⟩

/-- The leading edge of the straight wing is as long as the wing. -/
theorem exists_leadingEdge_exactWing : ∃ v : Wire ℝ,
    exactWing.chordwiseLine 0 = .ok v ∧ v.length = 10 := by
  obtain ⟨v, hv, hpoints⟩ := WingEnd.exists_chordwiseLine checked_exactWing 0
  refine ⟨v, hv, ?_⟩
  rw [Wire.length_eq, Wire.edges, hpoints]
  change Vec.norm _ + 0 = 10
  rw [add_zero]
  exact (Vec.distance_comm _ _).trans (norm_chordPoint_sub 0)

/-- There is room for many ribs, but the set has none. -/
theorem ribs_counted_denseRibs :
    ∃ s, ofDescription exactWing ⟨[], [], [denseRibs.declaration]⟩ = .ok s ∧
      ∃ a b o, s.RibsCounted denseRibs denseSet 0 a b o ∧
        IsGreatest {k : ℕ | (k - 1 : ℝ) * 1e-20 ≤ 10 * |b - a| + tolerance}
          500000010000000000001 := by
  have hlong : tolerance < |(0.75 - 0.25 : ℝ)| := by norm_num [tolerance]
  have hdistance : ¬ (1e-20 : ℝ) ≤ 0 := by norm_num
  have hvalid : (⟨[], [], [denseRibs.declaration]⟩ : Description ℝ).Valid := by
    refine ⟨by decide, by decide, by decide, List.forall_mem_nil _, ?_⟩
    rw [List.forall_mem_singleton]
    exact ⟨by decide, fun set hset => Option.some.inj hset ▸ hdistance⟩
  obtain ⟨s, hs⟩ := exists_ofDescription exactWing (Description.loadable_iff_valid.2 hvalid)
  have hfound := hasRibs_of_ofDescription hs (r := denseRibs) (List.mem_singleton.2 rfl)
  have hsound := Sound.load hs
  obtain ⟨v, hv, hlength⟩ := exists_leadingEdge_exactWing
  obtain ⟨-, hwing, -⟩ := ofDescription_ok hs
  have hspread := Query.yields_spread_spacing hfound rfl rfl rfl rfl
    (Query.yields_lineLength_leadingEdge (hwing ▸ hv))
  -- 64 bits do not hold the number of ribs that fit
  have hfloor : ⌊(10 * |0.75 - 0.25| + tolerance : ℝ) / 1e-20⌋₊ = 500000010000000000000 := by
    have hquotient : (10 * |0.75 - 0.25| + tolerance : ℝ) / 1e-20 =
        (500000010000000000000 : ℕ) := by
      norm_num [tolerance, abs_of_pos]
    rw [hquotient, Nat.floor_natCast]
  have hzero : (Query.ribsApart 1e-20 v.length |0.75 - 0.25|).toNat = 0 := by
    rw [Query.toNat_ribsApart hlong, hlength, hfloor]
    rfl
  have hcount : s.answer (.ribs "ribs" .count) = .ok 0 := hzero ▸
    answer_ribs hsound hfound (q := .count) (hspread.bind_ok (.pure _))
  obtain ⟨a, b, o, hcounted⟩ := ribs_counted (.load hs)
    (hsound.valid.ribs.get?_eq_some_iff.1 hfound).1 rfl hcount
  obtain rfl : a = 0.25 := Except.ok.inj (hcounted.etaStart.symm.trans
    (answer_ribs hsound hfound (q := .etaStart) (hspread.bind_ok (.pure _))))
  obtain rfl : b = 0.75 := Except.ok.inj (hcounted.etaStop.symm.trans
    (answer_ribs hsound hfound (q := .etaStop) (hspread.bind_ok (.pure _))))
  refine ⟨s, hs, 0.25, 0.75, o, hcounted, ?_⟩
  have hnonneg : (0 : ℝ) ≤ 10 * |0.75 - 0.25| + tolerance := by norm_num [tolerance]
  have hgreatest := Query.isGreatest_floor (not_le.1 hdistance) hnonneg
  rwa [hfloor] at hgreatest

end Structure

end WingBox
