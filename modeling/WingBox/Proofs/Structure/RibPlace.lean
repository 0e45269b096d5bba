import WingBox.Proofs.Exact.Wire
import WingBox.Proofs.Structure.Distribution
import WingBox.Proofs.Structure.SparLine

/-!
# Where the ribs of a set stand

The ribs of a set stand at parameters of their reference line, from that of its start on in equal
steps.  The step comes from the distance of the two ends, whichever comes first.

* `Query.ensures_spread`: with exact numbers the ribs reach as far as the set is long;
* `Structure.ribs_placed`: so the ribs stay between the ends of a set that starts before it ends,
  and go away from the end of one that ends before it starts.
-/

namespace WingBox

open Scalar

namespace Query

/-! ### Parameters of ribs -/

/-- The ribs reach as far from the first one as the set is long, up to some slack, and of a number
of ribs the last one stands just there. -/
structure Fits (sp : RibSpread ℝ) (count : RibCount ℝ) (slack : ℝ) : Prop where
  offset_nonneg : 0 ≤ sp.offset
  reach : ∀ i < sp.count.toNat, sp.offset * i ≤ |sp.etaStop - sp.etaStart| + slack
  last : ∀ n, count = .numberOfRibs n → 2 ≤ n →
    sp.count.toNat = n.toNat ∧ sp.offset * (n.toNat - 1 : ℕ) = |sp.etaStop - sp.etaStart|

theorem fits_one (a b : ℝ) {n : UInt32} (hn : n ≤ 1) : Fits ⟨a, b, 0, 1⟩ (.numberOfRibs n) 0 where
  offset_nonneg := le_rfl
  reach i _ := by
    dsimp only
    rw [zero_mul, add_zero]
    exact abs_nonneg _
  last m hm htwo := by
    obtain rfl := RibCount.numberOfRibs.inj hm
    rw [UInt32.le_iff_toNat_le] at hn htwo
    exact absurd (htwo.trans hn) (by decide)

theorem fits_number (a b : ℝ) {n : UInt32} (hn : ¬ n ≤ 1) :
    Fits ⟨a, b, |b - a| / (n.toNat - 1 : ℕ), n.toUInt64⟩ (.numberOfRibs n) 0 := by
  have hone : 1 < n.toNat := not_le.1 fun hle => hn (UInt32.le_iff_toNat_le.2 hle)
  have hpos : (0 : ℝ) < (n.toNat - 1 : ℕ) := Nat.cast_pos.2 (Nat.sub_pos_of_lt hone)
  have hlast : |b - a| / (n.toNat - 1 : ℕ) * (n.toNat - 1 : ℕ) = |b - a| :=
    div_mul_cancel₀ _ hpos.ne'
  have hoffset : 0 ≤ |b - a| / (n.toNat - 1 : ℕ) := div_nonneg (abs_nonneg _) hpos.le
  refine { offset_nonneg := hoffset, reach := fun i hi => ?_, last := fun m hm _ => ?_ }
  · rw [UInt32.toNat_toUInt64] at hi
    calc |b - a| / (n.toNat - 1 : ℕ) * i
        ≤ |b - a| / (n.toNat - 1 : ℕ) * (n.toNat - 1 : ℕ) :=
          mul_le_mul_of_nonneg_left (Nat.cast_le.2 (Nat.le_sub_one_of_lt hi)) hoffset
      _ = |b - a| + 0 := by rw [hlast, add_zero]
  · obtain rfl := RibCount.numberOfRibs.inj hm
    exact ⟨UInt32.toNat_toUInt64 n, hlast⟩

/-- Counting stops at the last rib that fits, also where the count runs over. -/
theorem mul_le_of_lt_ribsApart {distance length delta : ℝ} (hdistance : 0 < distance)
    (hlength : 0 < length) (hdelta : 0 ≤ delta) {i : ℕ}
    (hi : i < (ribsApart distance length delta).toNat) :
    distance / length * i ≤ delta + tolerance / length := by
  have htolerance := tolerance_pos.le
  unfold ribsApart at hi
  split at hi
  · -- a set without extent has a single rib
    obtain rfl := Nat.lt_one_iff.1 hi
    rw [Nat.cast_zero, mul_zero]
    exact add_nonneg hdelta (div_nonneg htolerance hlength.le)
  · have hquotient : 0 ≤ (length * delta + tolerance) / distance := by positivity
    have hfloor : i ≤ ⌊(length * delta + tolerance) / distance⌋₊ := by
      have hle : i ≤ (floorCount ((length * delta + tolerance) / distance)).toNat := by
        rw [UInt64.toNat_add] at hi
        exact Nat.le_of_lt_succ (hi.trans_le (Nat.mod_le _ _))
      rw [toNat_floorCount] at hle
      exact hle.trans (min_le_left _ _)
    have hmul : i * distance ≤ length * delta + tolerance :=
      (le_div_iff₀ hdistance).1 ((Nat.le_floor_iff hquotient).1 hfloor)
    calc distance / length * i = i * distance / length := by ring
      _ ≤ (length * delta + tolerance) / length := by gcongr
      _ = delta + tolerance / length := by field_simp

theorem fits_spacing (a b : ℝ) {distance length : ℝ} (hdistance : 0 < distance)
    (hlength : 0 < length) :
    Fits ⟨a, b, distance / length, ribsApart distance length |b - a|⟩ (.spacing distance)
      (tolerance / length) where
  offset_nonneg := (div_pos hdistance hlength).le
  reach _ hi := mul_le_of_lt_ribsApart hdistance hlength (abs_nonneg _) hi
  last := nofun

/-- What is added to the first of two parameters leads to a parameter between them if it is no more
than their distance and the second one is larger. -/
theorem add_mem_Icc_iff {a b x slack : ℝ} (hx : 0 ≤ x) (hreach : x ≤ |b - a| + slack)
    (hslack : 0 ≤ slack) :
    a + x ∈ Set.Icc (min a b - slack) (max a b + slack) ↔ a ≤ b ∨ x ≤ slack := by
  rw [Set.mem_Icc]
  rcases le_or_gt a b with hab | hab
  · rw [abs_of_nonneg (sub_nonneg.2 hab)] at hreach
    rw [min_eq_left hab, max_eq_right hab]
    exact ⟨fun _ => .inl hab, fun _ => ⟨by linarith, by linarith⟩⟩
  · rw [min_eq_right hab.le, max_eq_left hab.le]
    constructor
    · rintro ⟨-, hle⟩
      exact .inr (by linarith)
    · rintro (hle | hle)
      · exact absurd hle hab.not_ge
      · exact ⟨by linarith, by linarith⟩

/-! ### Distributions -/

section Spread

variable {d : Design ℝ}

/-- How far beyond its length a set may reach: not at all if its ribs are counted, and by the
tolerance if they are a distance apart on their line. -/
def IsSlack (d : Design ℝ) (set : RibSet ℝ) (slack : ℝ) : Prop :=
  slack = 0 ∨ ∃ length, Yields d (lineLength set.ribReference) (.ok length) ∧ 0 < length ∧
    slack = tolerance / length

theorem IsSlack.nonneg {set : RibSet ℝ} {slack : ℝ} (h : IsSlack d set slack) : 0 ≤ slack := by
  obtain rfl | ⟨length, -, hlength, rfl⟩ := h
  · exact le_rfl
  · exact div_nonneg tolerance_pos.le hlength.le

theorem LineDrawn.spaced {l : NamedLine} {w : Wire ℝ} (h : LineDrawn d l w) : w.Spaced := by
  cases h with
  | leadingEdge h | trailingEdge h => exact Wire.spaced_of_ofPoints? h
  | spar _ h =>
    obtain ⟨line, -, hw⟩ := h.drawn
    exact Wire.spaced_of_ofPoints? hw

variable (h : d.LookupsMatch .same d) (hindexed : d.Indexed) {r : RibsDefinition ℝ}
  (hr : d.RibsMatch .same d r r) {set : RibSet ℝ} (hset : r.positioning = .set set)
include h hindexed

/-- A line that is found has some length. -/
theorem lineLength_pos {l : NamedLine} {length : ℝ}
    (hlength : Yields d (lineLength l) (.ok length)) : 0 < length := by
  have hpos : Ensures d (lineLength l) (0 < ·) :=
    (ensures_line h hindexed).bind fun w hw => .pure hw.spaced.length_pos
  exact hpos.holds hlength

include hr hset

/-- The ribs of a set are distributed between the parameters of its ends. -/
theorem ensures_spread (hcount : set.count.Usable) : Ensures d (spread r) fun sp =>
    Yields d (boundaryParameter r.uid set set.start) (.ok sp.etaStart) ∧
      Yields d (boundaryParameter r.uid set set.stop) (.ok sp.etaStop) ∧
      ∃ slack, IsSlack d set slack ∧ Fits sp set.count slack := by
  refine (ensures_distributed h hr hset).mono fun sp hsp => ?_
  obtain ⟨a, b, ha, hb, hdistributed⟩ := hsp
  rw [hdistributed.etaStart_eq, hdistributed.etaStop_eq]
  refine ⟨ha, hb, ?_⟩
  cases hdistributed with
  | single hn hone => exact ⟨0, .inl rfl, hn ▸ fits_one a b hone⟩
  | counted hn hmany => exact ⟨0, .inl rfl, hn ▸ fits_number a b hmany⟩
  | spaced hn hlength =>
    rw [hn] at hcount ⊢
    have hpos := lineLength_pos h hindexed hlength
    exact ⟨_, .inr ⟨_, hlength, hpos, rfl⟩, fits_spacing a b (not_le.1 hcount) hpos⟩

end Spread

end Query

namespace Structure

/-- The ribs of a set stand in equal steps `o` between the parameters `a` and `b` of its ends. -/
structure RibsPlaced (s : Structure ℝ) (r : RibsDefinition ℝ) (set : RibSet ℝ) (c : ℕ)
    (a b o slack : ℝ) : Prop where
  /-- The parameter of the start. -/
  etaStart : s.answer (.ribs r.uid .etaStart) = .ok a
  /-- The parameter of the end. -/
  etaStop : s.answer (.ribs r.uid .etaStop) = .ok b
  /-- The step. -/
  etaOffset : s.answer (.ribs r.uid .etaOffset) = .ok o
  /-- There is no slack, or the tolerance along the reference line. -/
  isSlack : slack = 0 ∨ ∃ length, s.answer (.lineLength set.ribReference) = .ok length ∧
    0 < length ∧ slack = tolerance / length
  /-- Ribs are cut at these parameters. -/
  cut : ∀ (i : ℕ) cut, s.answer (.ribs r.uid (.cut (i + 1))) = .ok cut → ∃ element atPosition,
    Query.fresh (Query.setCut r set (a + o * i) element atPosition) s.design = .ok cut
  /-- The ribs reach as far as the set is long. -/
  reach : ∀ i < c, 0 ≤ o * i ∧ o * i ≤ |b - a| + slack
  /-- They stay between the ends if the set starts before it ends, and only then. -/
  between_iff : ∀ i < c,
    a + o * i ∈ Set.Icc (min a b - slack) (max a b + slack) ↔ a ≤ b ∨ o * i ≤ slack
  /-- The last one of a number of ribs stands at the end of such a set only. -/
  last : ∀ n, set.count = .numberOfRibs n → 2 ≤ n →
    c = n.toNat ∧ (a + o * (c - 1 : ℕ) = b ↔ a ≤ b)

/-- **Ribs reach as far as their set is long, but away from an end that comes first.**  Whatever
bounds a set and however its ribs are counted, they stand in equal steps from the start on.  They
stay between the two ends, the last one of a number of ribs at the second end, if the start comes
before the end; else every rib that leaves the start leaves the set. -/
theorem ribs_placed {s : Structure ℝ} (h : s.Reachable) {r : RibsDefinition ℝ}
    (hr : r ∈ s.design.ribs.items) {set : RibSet ℝ} (hset : r.positioning = .set set) {c : ℕ}
    (hcount : s.answer (.ribs r.uid .count) = .ok c) :
    ∃ a b o slack, s.RibsPlaced r set c a b o slack := by
  have hs := sound_of_reachable h
  have hfound := hs.valid.ribs.get?_eq_some_iff.2 ⟨hr, rfl⟩
  have hmatch := match_self hs
  have hlookups := hmatch.lookupsMatch
  have hself := ribsMatch_self hs hfound
  have husable := usable_of_valid hs.valid hr hset
  obtain ⟨sp, hsp, rfl⟩ :=
    Query.exists_spread hlookups hself hset (yields_of_answer_ribs hs hfound hcount)
  obtain ⟨-, -, slack, hslack, hfits⟩ :=
    (Query.ensures_spread hlookups hmatch.indexed hself hset husable).holds hsp
  have hreach (i : ℕ) (hi : i < sp.count.toNat) : 0 ≤ sp.offset * i ∧
      sp.offset * i ≤ |sp.etaStop - sp.etaStart| + slack :=
    ⟨mul_nonneg hfits.offset_nonneg (Nat.cast_nonneg i), hfits.reach i hi⟩
  refine ⟨sp.etaStart, sp.etaStop, sp.offset, slack, ?_⟩
  constructor
  case etaStart => exact answer_ribs hs hfound (q := .etaStart) (hsp.bind_ok (.pure _))
  case etaStop => exact answer_ribs hs hfound (q := .etaStop) (hsp.bind_ok (.pure _))
  case etaOffset => exact answer_ribs hs hfound (q := .etaOffset) (hsp.bind_ok (.pure _))
  case isSlack =>
    obtain hzero | ⟨length, hlength, hpos, hslack⟩ := hslack
    · exact .inl hzero
    · exact .inr ⟨length, (hlength s.store hs.coherent).1, hpos, hslack⟩
  case cut =>
    intro i cut hcut
    have hcut : Query.Yields s.design (Query.Ribs.cut r (i + 1)) (.ok cut) :=
      yields_of_answer_ribs hs hfound hcut
    have hrib := (Query.ensures_cut hlookups hself hset i).holds hcut sp hsp
    exact ⟨_, _, hrib.fresh_eq⟩
  case reach => exact hreach
  case between_iff =>
    intro i hi
    obtain ⟨hnonneg, hle⟩ := hreach i hi
    exact Query.add_mem_Icc_iff hnonneg hle hslack.nonneg
  case last =>
    intro n hn htwo
    obtain ⟨hlength, hlast⟩ := hfits.last n hn htwo
    refine ⟨hlength, ?_⟩
    rw [hlength, hlast, ← eq_sub_iff_add_eq', abs_eq_self, sub_nonneg]

/-- A straight wing, with exact numbers. -/
noncomputable def exactWing : Wing ℝ where
  uid := "wing"
  sections := [⟨"inner", ⟨0, 0, 0⟩, 1, 0.1⟩, ⟨"outer", ⟨0, 10, 0⟩, 1, 0.1⟩]
  two_le_length := by decide
  profile := hexagon
  trailingIndex := 3
  transformation := Transform.identity

/-- Four ribs along the leading edge that start beyond their end. -/
noncomputable def backwardSet : RibSet ℝ where
  ribReference := .leadingEdge
  start := .eta 0.75
  stop := .eta 0.15
  ribStart := .leadingEdge
  ribEnd := .trailingEdge
  count := .numberOfRibs 4
  crossing := .cross
  rotation := .plain

/-- The ribs of the set. -/
noncomputable def backwardRibs : RibsDefinition ℝ := ⟨"ribs", .set backwardSet, .plain⟩

/-- The last one of the four ribs is not at the end of the set. -/
theorem ribs_placed_backwardRibs :
    ∃ s, ofDescription exactWing ⟨[], [], [backwardRibs.declaration]⟩ = .ok s ∧
      ∃ o slack, s.RibsPlaced backwardRibs backwardSet 4 0.75 0.15 o slack ∧
        0.75 + o * (3 : ℕ) ≠ 0.15 := by
  have hvalid : (⟨[], [], [backwardRibs.declaration]⟩ : Description ℝ).Valid := by decide
  obtain ⟨s, hs⟩ := exists_ofDescription exactWing (Description.loadable_iff_valid.2 hvalid)
  have hfound := hasRibs_of_ofDescription hs (r := backwardRibs) (List.mem_singleton.2 rfl)
  have hsound := Sound.load hs
  have hspread : Query.Yields s.design (Query.spread backwardRibs)
      (.ok ⟨0.75, 0.15, |0.15 - 0.75| / (3 : ℕ), 4⟩) :=
    .cached (Store.filledBy_spread hfound) (.bind_ok (.pure _) (.pure _))
  have hcount : s.answer (.ribs "ribs" .count) = .ok 4 :=
    answer_ribs hsound hfound (q := .count) (hspread.bind_ok (.pure _))
  obtain ⟨a, b, o, slack, hplaced⟩ := ribs_placed (.load hs)
    (hsound.valid.ribs.get?_eq_some_iff.1 hfound).1 rfl hcount
  -- the two ends are the parameters that are given
  have ha : a = 0.75 := Except.ok.inj (hplaced.etaStart.symm.trans
    (answer_ribs hsound hfound (q := .etaStart) (hspread.bind_ok (.pure _))))
  have hb : b = 0.15 := Except.ok.inj (hplaced.etaStop.symm.trans
    (answer_ribs hsound hfound (q := .etaStop) (hspread.bind_ok (.pure _))))
  subst ha hb
  refine ⟨s, hs, o, slack, hplaced, fun hlast => ?_⟩
  have hle := (hplaced.last 4 rfl (by decide)).2.1 hlast
  norm_num at hle

end Structure

end WingBox
