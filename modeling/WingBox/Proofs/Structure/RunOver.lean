import WingBox.Proofs.Json.Finite
import WingBox.Proofs.Structure.Distribution

/-!
# Counts that run over

Ribs a distance apart are counted with 64 bits: the quotient of two floating-point numbers is cut
down to a count of 64 bits, the largest one if it is out of range, and the first rib is added.

* `Count.toUInt64_add_one_eq_zero_iff`: the count runs over for all quotients from the number of
  counts on;
* `Structure.ribs_countable`: so a set of ribs has one rib at least, unless more ribs fit between
  its ends than can be counted.
-/

namespace WingBox

open Scalar

/-! ### Counts of floating-point numbers -/

namespace Count

open Float.Model Float.Model.UnpackedFloat Magnitude

/-- The bits of a number have room for 53 digits, and use them all unless it is tiny. -/
theorem digits_of_unpack {x : Float.Model} {s : Sign} {m : Nat} {e : Int} {hm : 0 < m}
    (h : x.unpack = .finite s m e hm) : m < 2 ^ 53 ∧ (0 ≤ e → 2 ^ 52 ≤ m) := by
  unfold Float.Model.unpack at h
  simp only [UnpackedFloat.unpack, Format.exponentBias] at h
  split_ifs at h with hones hmant hzero hmant
  · -- the least exponent is the one of the numbers without a leading digit
    obtain ⟨-, rfl, he⟩ := (UnpackedFloat.finite.injEq ..).mp h
    have hlt := (@unpackMantissa Format.binary64 x.toBits.toBitVec).isLt
    refine ⟨hlt.trans (by decide), fun hpos => ?_⟩
    rw [hzero] at he
    exact absurd (he ▸ hpos) (by decide)
  · obtain ⟨-, rfl, -⟩ := (UnpackedFloat.finite.injEq ..).mp h
    refine ⟨(1#1 ++ @unpackMantissa Format.binary64 x.toBits.toBitVec).isLt, fun _ => ?_⟩
    rw [BitVec.toNat_append]
    exact Nat.left_le_or

/-- The fraction is cut off. -/
theorem roundToInt_eq (s : Sign) (m : Nat) (e : Int) :
    roundToInt s m e = s.apply (m * 2 ^ e.toNat / 2 ^ (-e).toNat : ℕ) := by
  have hshift : (0 - (e - e.toNat)).toNat = (-e).toNat := by omega
  simp only [roundToInt, decreaseExponent, shiftToExponent, shiftRight_mantissa,
    ofMantissaAndAccuracy_mantissa, Nat.shiftLeft_eq, sub_zero, hshift]

theorem toNat_ofNatClamp (n : ℕ) : (UInt64.ofNatClamp n).toNat = min n (2 ^ 64 - 1) := by
  unfold UInt64.ofNatClamp
  split
  next hlt =>
    have hlt : n < 2 ^ 64 := hlt
    rw [UInt64.toNat_ofNatLT]
    omega
  next hge =>
    have hge : ¬ n < 2 ^ 64 := hge
    rw [UInt64.toNat_ofNatLT, min_eq_right (by omega)]
    rfl

/-- Of two positive numbers with all their digits the one with the larger exponent is larger. -/
theorem isLE_then_iff {e e' : Int} {m m' : Nat} :
    ((compare e e').then (compare m m')).isLE = true ↔ e < e' ∨ e = e' ∧ m ≤ m' := by
  rw [Ordering.isLE_then_iff_or, compare_lt_iff_lt, compare_eq_iff_eq,
    Std.isLE_compare]

/-- No number lies between the largest count and the number of counts. -/
theorem le_shift_iff {m : Nat} {e : Int} (hlt : m < 2 ^ 53) (hfull : 0 ≤ e → 2 ^ 52 ≤ m) :
    2 ^ 64 - 1 ≤ m * 2 ^ e.toNat / 2 ^ (-e).toNat ↔ 12 < e ∨ 12 = e ∧ 2 ^ 52 ≤ m := by
  rcases lt_or_ge e 12 with he | he
  · have hsmall : m * 2 ^ e.toNat / 2 ^ (-e).toNat < 2 ^ 64 - 1 := by
      calc m * 2 ^ e.toNat / 2 ^ (-e).toNat ≤ m * 2 ^ e.toNat := Nat.div_le_self _ _
        _ ≤ (2 ^ 53 - 1) * 2 ^ 11 :=
          Nat.mul_le_mul (by omega) (Nat.pow_le_pow_right (by decide) (by omega))
        _ < 2 ^ 64 - 1 := by decide
    omega
  · have hdigits := hfull (by omega)
    have hlarge : 2 ^ 64 ≤ m * 2 ^ e.toNat / 2 ^ (-e).toNat := by
      have hshift : (-e).toNat = 0 := by omega
      rw [hshift, pow_zero, Nat.div_one]
      calc 2 ^ 64 = 2 ^ 52 * 2 ^ 12 := by decide
        _ ≤ m * 2 ^ e.toNat :=
          Nat.mul_le_mul hdigits (Nat.pow_le_pow_right (by decide) (by omega))
    omega

/-- Adding one to a count runs over exactly if the number is too large to be counted. -/
theorem toUInt64_add_one_eq_zero_iff (x : Float) :
    x.toUInt64 + 1 = 0 ↔ ((2 ^ 64 : ℕ) : Float) ≤ x := by
  have hsize : ((2 ^ 64 : ℕ) : Float).toModel.unpack =
      .finite .positive (2 ^ 52) 12 (by decide) := by rfl
  have hle : ((2 ^ 64 : ℕ) : Float) ≤ x ↔
      UnpackedFloat.le (.finite .positive (2 ^ 52) 12 (by decide)) x.toModel.unpack = true := by
    rw [← hsize]
    exact decide_eq_true_iff
  have hcount : x.toUInt64.toNat =
      min (UnpackedFloat.toInt 0 (2 ^ 64 - 1 : ℕ) x.toModel.unpack).toNat (2 ^ 64 - 1) :=
    toNat_ofNatClamp _
  have hover : x.toUInt64 + 1 = 0 ↔
      2 ^ 64 - 1 ≤ (UnpackedFloat.toInt 0 (2 ^ 64 - 1 : ℕ) x.toModel.unpack).toNat := by
    rw [← UInt64.toNat_inj, UInt64.toNat_add, hcount]
    change _ % 2 ^ 64 = 0 ↔ _
    change (min _ _ + 1) % 2 ^ 64 = 0 ↔ _
    omega
  rw [hover, hle]
  cases hu : x.toModel.unpack with
  | notANumber => decide
  | infinity s => cases s <;> decide
  | zero s => cases s <;> decide
  | finite s m e hm =>
    obtain ⟨hlt, hfull⟩ := digits_of_unpack hu
    rw [UnpackedFloat.toInt, roundToInt_eq]
    cases s with
    | negative =>
      -- what is below zero counts as zero
      refine iff_of_false ?_ nofun
      rw [Sign.apply, Int.toNat_neg_natCast]
      decide
    | positive =>
      rw [Sign.apply, Int.toNat_natCast, le_shift_iff hlt hfull, ← isLE_then_iff]
      rfl

end Count

/-! ### Ribs that cannot be counted -/

namespace Structure

/-- As many ribs as there are counts fit between the ends of a set, or more. -/
def RunsOver (s : Structure Float) (set : RibSet Float) (a b : Float) : Prop :=
  ∃ distance length, set.count = .spacing distance ∧
    s.answer (.lineLength set.ribReference) = .ok length ∧ ¬ Scalar.abs (b - a) ≤ tolerance ∧
    ((2 ^ 64 : ℕ) : Float) ≤ (length * Scalar.abs (b - a) + tolerance) / distance

/-- **Ribs are counted, unless there are too many of them.**  A set of ribs with parameters at its
ends has a number of ribs.  It is one at least, since adding the first rib does not run over, unless
it is given by a distance that fits too often. -/
theorem ribs_countable {s : Structure Float} (h : s.Reachable) {r : RibsDefinition Float}
    (hr : r ∈ s.design.ribs.items) {set : RibSet Float} (hset : r.positioning = .set set)
    {a b : Float} (ha : s.answer (.ribs r.uid .etaStart) = .ok a)
    (hb : s.answer (.ribs r.uid .etaStop) = .ok b) :
    ∃ c, s.answer (.ribs r.uid .count) = .ok c ∧ (1 ≤ c ↔ ¬ s.RunsOver set a b) := by
  have hs := sound_of_reachable h
  have hfound := hs.valid.ribs.get?_eq_some_iff.2 ⟨hr, rfl⟩
  have hlookups := (match_self hs).lookupsMatch
  have hself := ribsMatch_self hs hfound
  have husable := usable_of_valid hs.valid hr hset
  obtain ⟨sp, hsp, rfl, -, -, hdistributed⟩ :=
    Query.exists_distributed hlookups hself hset (yields_of_answer_ribs hs hfound ha)
  obtain rfl := Except.ok.inj (hb.symm.trans
    (answer_ribs hs hfound (q := .etaStop) (hsp.bind_ok (.pure _))))
  have hcount : Query.Yields s.design (Query.ribCount r) (.ok sp.count.toNat) :=
    Query.ribCount_eq hset ▸ hsp.bind_ok (.pure _)
  refine ⟨_, answer_ribs hs hfound (q := .count) hcount, ?_⟩
  rw [Nat.one_le_iff_ne_zero, not_iff_not, ← UInt64.toNat_zero, UInt64.toNat_inj,
    hdistributed.count_eq_zero_iff husable]
  refine exists_congr fun distance => exists_congr fun length => and_congr_right fun _ => ?_
  refine and_congr ?_ (and_congr_right fun _ => Count.toUInt64_add_one_eq_zero_iff _)
  obtain ⟨x, hx⟩ :=
    (Query.parallel_lineLength hlookups set.ribReference.match_same).exists_yields
  have hanswer : s.answer (.lineLength set.ribReference) = x := (hx s.store hs.coherent).1
  rw [hanswer]
  exact ⟨fun hy => hx.unique hy, fun heq => heq ▸ hx⟩

/-- Ribs along the leading edge that are hardly apart. -/
def crowdedSet : RibSet Float where
  ribReference := .leadingEdge
  start := .eta 0.25
  stop := .eta 0.75
  ribStart := .leadingEdge
  ribEnd := .trailingEdge
  count := .spacing 1e-300
  crossing := .cross
  rotation := .plain

/-- The ribs of the set. -/
def crowdedRibs : RibsDefinition Float := ⟨"ribs", .set crowdedSet, .plain⟩

/-- More ribs fit on the leading edge than can be counted. -/
theorem exists_leadingEdge_straightWing : ∃ v, straightWing.chordwiseLine 0 = .ok v ∧
    ((2 ^ 64 : ℕ) : Float) ≤ (v.length * Scalar.abs (0.75 - 0.25) + tolerance) / 1e-300 := by
  have hline : (match straightWing.chordwiseLine 0 with
      | .ok v => decide (((2 ^ 64 : ℕ) : Float) ≤
          (v.length * Scalar.abs (0.75 - 0.25) + tolerance) / 1e-300)
      | .error _ => false) = true := by decide +kernel
  cases hv : straightWing.chordwiseLine 0 with
  | error e => simp [hv] at hline
  | ok v =>
    rw [hv] at hline
    exact ⟨v, rfl, of_decide_eq_true hline⟩

/-- So many ribs fit on the leading edge that there is none. -/
theorem ribs_countable_crowdedRibs :
    ∃ s, ofDescription straightWing ⟨[], [], [crowdedRibs.declaration]⟩ = .ok s ∧
      s.answer (.ribs "ribs" .etaStart) = .ok 0.25 ∧ s.answer (.ribs "ribs" .etaStop) = .ok 0.75 ∧
      s.answer (.ribs "ribs" .count) = .ok 0 ∧ s.RunsOver crowdedSet 0.25 0.75 := by
  have hvalid : (⟨[], [], [crowdedRibs.declaration]⟩ : Description Float).Valid := by
    decide +kernel
  obtain ⟨s, hs⟩ := exists_ofDescription straightWing (Description.loadable_iff_valid.2 hvalid)
  have hfound := hasRibs_of_ofDescription hs (r := crowdedRibs) (List.mem_singleton.2 rfl)
  have hsound := Sound.load hs
  obtain ⟨v, hv, hover⟩ := exists_leadingEdge_straightWing
  have hlong : ¬ Scalar.abs (0.75 - 0.25 : Float) ≤ tolerance := by decide +kernel
  obtain ⟨-, hwing, -⟩ := ofDescription_ok hs
  have hlength := Query.yields_lineLength_leadingEdge (d := s.design) (hwing ▸ hv)
  have hspread := Query.yields_spread_spacing hfound rfl rfl rfl rfl hlength
  have ha : s.answer (.ribs "ribs" .etaStart) = .ok 0.25 :=
    answer_ribs hsound hfound (q := .etaStart) (hspread.bind_ok (.pure _))
  have hb : s.answer (.ribs "ribs" .etaStop) = .ok 0.75 :=
    answer_ribs hsound hfound (q := .etaStop) (hspread.bind_ok (.pure _))
  have hruns : s.RunsOver crowdedSet 0.25 0.75 :=
    ⟨1e-300, v.length, rfl, (hlength s.store hsound.coherent).1, hlong, hover⟩
  obtain ⟨c, hc, hpos⟩ := ribs_countable (.load hs)
    (hsound.valid.ribs.get?_eq_some_iff.1 hfound).1 rfl ha hb
  obtain rfl : c = 0 := Nat.lt_one_iff.1 (not_le.1 fun hle => hpos.1 hle hruns)
  exact ⟨s, hs, ha, hb, hc, hruns⟩

end Structure

end WingBox
