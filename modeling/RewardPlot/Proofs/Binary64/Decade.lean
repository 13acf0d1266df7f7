import RewardPlot.Binary64.Decade
import RewardPlot.Proofs.Binary64.Value
import RewardPlot.Proofs.Trace.Fields
/-!
# The decade of a number

The power of ten that belongs to a number is the one at or below it, or a neighbour that is hardly
farther away.  So it is a number too, and of the same order.
-/

namespace RewardPlot.Binary64

open Numeral (zpow_eq_div)

variable {x : Binary64} {m : Magnitude}

theorem tenPow_eq (k : Int) : tenPow k = (10 : ℚ) ^ k := by
  rw [zpow_eq_div, tenPow]
  split_ifs with hk
  · rw [show (-k).toNat = 0 by omega, Nat.pow_zero, Nat.cast_one, div_one]
  · rw [show k.toNat = 0 by omega, Nat.pow_zero, Nat.cast_one]

/-- The power of ten at or below a magnitude. -/
theorem leadingPlace_bounds (hm : 0 < m.units) :
    (10 : ℚ) ^ Decimal.leadingPlace m.units Magnitude.one ≤ m.toRat ∧
      m.toRat < (10 : ℚ) ^ (Decimal.leadingPlace m.units Magnitude.one + 1) := by
  have hlow := Decimal.leadingPlace_le hm Magnitude.one_pos
  have hhigh := Decimal.lt_leadingPlace_succ hm Magnitude.one_pos
  generalize Decimal.leadingPlace m.units Magnitude.one = k at hlow hhigh ⊢
  have hone := one_pos_rat
  have hden (e : Int) : (0 : ℚ) < (10 ^ (-e).toNat : Nat) :=
    Nat.cast_pos.mpr (Nat.pow_pos (by decide))
  rw [zpow_eq_div, zpow_eq_div, Magnitude.toRat]
  constructor
  · rw [div_le_div_iff₀ (hden k) hone, ← Nat.cast_mul, ← Nat.cast_mul, Nat.cast_le]
    rwa [Nat.mul_comm]
  · rw [div_lt_div_iff₀ hone (hden (k + 1)), ← Nat.cast_mul, ← Nat.cast_mul, Nat.cast_lt]
    rwa [Nat.mul_comm _ Magnitude.one]

theorem abs_sub_of_isBeside {k : Int} (hbeside : isBeside m.units k) :
    |m.toRat - (10 : ℚ) ^ k| ≤ (10 : ℚ) ^ k / 2 ^ 30 := by
  have hpos : (0 : ℚ) < 10 ^ k := zpow_pos (by norm_num) k
  have hsmall := of_decide_eq_true hbeside
  have hexcess : (excess m.units k).abs = |m.toRat / 10 ^ k - 1| := by
    rw [excess, tenPow_eq, ← Magnitude.toRat]
    rcases le_or_gt 0 (m.toRat / 10 ^ k - 1) with hle | hlt
    · rw [abs_of_nonneg hle]
      exact if_pos hle
    · rw [abs_of_neg hlt]
      exact if_neg (not_le.mpr hlt)
  rw [hexcess, Nat.cast_pow, Nat.cast_ofNat] at hsmall
  have hmul := mul_le_mul_of_nonneg_right hsmall.le hpos.le
  rwa [← abs_of_pos hpos, ← abs_mul, sub_mul, abs_of_pos hpos, div_mul_cancel₀ _ hpos.ne', one_mul,
    div_mul_eq_mul_div, one_mul] at hmul

/-- The power of ten that is taken is no more than a tenth away from one at most, and from the
number at least. -/
theorem decade_bounds (hm : 0 < m.units) :
    m.toRat / 11 ≤ (10 : ℚ) ^ decade m.units ∧ (10 : ℚ) ^ decade m.units ≤ 11 / 10 * m.toRat := by
  obtain ⟨hlow, hhigh⟩ := leadingPlace_bounds hm
  have hten : (10 : ℚ) ≠ 0 := by norm_num
  rw [decade]
  generalize Decimal.leadingPlace m.units Magnitude.one = k at hlow hhigh ⊢
  rw [zpow_add_one₀ hten] at hhigh
  have hpos : (0 : ℚ) < 10 ^ k := zpow_pos (by norm_num) k
  split_ifs with hnext hbefore
  · have hbeside := abs_le.mp (abs_sub_of_isBeside (Bool.and_eq_true_iff.mp hnext).1)
    rw [zpow_add_one₀ hten] at hbeside ⊢
    constructor <;> linarith
  · have hbeside := abs_le.mp (abs_sub_of_isBeside (Bool.and_eq_true_iff.mp hbefore).1)
    rw [zpow_sub_one₀ hten]
    constructor <;> linarith
  · constructor <;> linarith

theorem num_div_den (d : Decimal) :
    (d.num / d.den : ℚ) = d.significand * (10 : ℚ) ^ d.exponent := by
  rw [Decimal.num, Decimal.den, Nat.cast_mul, mul_div_assoc, ← zpow_eq_div]

/-- A decimal well inside the range is hardly changed by rounding. -/
theorem near_toBinary64 {d : Decimal}
    (hsize : (d.significand * (10 : ℚ) ^ d.exponent : ℚ) ≤ 15 / 16 * ceiling) :
    (d.toBinary64 false).Near (d.significand * (10 : ℚ) ^ d.exponent) := by
  rw [← num_div_den] at hsize ⊢
  rw [Decimal.toBinary64_eq_ofQuotient, Nat.mul_comm, ← ofFraction]
  exact near_ofFraction d.den_pos hsize

theorem powerOfTen_bounds {k : Int} (hsize : (10 : ℚ) ^ k ≤ 7 / 8 * ceiling) :
    (powerOfTen k).isFinite ∧
      (10 : ℚ) ^ k * (1 - 1 / 2 ^ 50) - halfUnit ≤ (powerOfTen k).toRat ∧
      (powerOfTen k).toRat ≤ (10 : ℚ) ^ k * (1 + 1 / 2 ^ 50) + halfUnit := by
  have hpos : (0 : ℚ) < 10 ^ k := zpow_pos (by norm_num) k
  obtain ⟨d, hd, hlow, hhigh⟩ : ∃ d : Decimal, powerOfTen k = d.toBinary64 false ∧
      (10 : ℚ) ^ k ≤ d.significand * (10 : ℚ) ^ d.exponent ∧
      d.significand * (10 : ℚ) ^ d.exponent ≤ (10 : ℚ) ^ k * (1 + 1 / 2 ^ 55) := by
    rw [powerOfTen]
    split_ifs
    · refine ⟨_, rfl, ?_⟩
      dsimp only
      rw [zpow_sub₀ (by norm_num), ← mul_div_assoc, mul_comm, mul_div_assoc]
      constructor
      · exact le_mul_of_one_le_right hpos.le (by norm_num)
      · exact mul_le_mul_of_nonneg_left (by norm_num) hpos.le
    · refine ⟨_, rfl, ?_⟩
      rw [Nat.cast_one, one_mul]
      constructor <;> linarith
  have hnear := near_toBinary64 (d := d) (by linarith)
  have hsize' : |(d.significand * (10 : ℚ) ^ d.exponent : ℚ)| ≤ 10 ^ k * (1 + 1 / 2 ^ 55) := by
    rwa [abs_of_nonneg (by linarith)]
  obtain ⟨hlow', hhigh'⟩ := hnear.bounds hsize'
  rw [hd]
  refine ⟨hnear.isFinite, ?_, ?_⟩ <;> linarith

/-- The power of ten that belongs to a number is of the same order. -/
theorem decadeScale_bounds (hx : x.isFinite) (hlow : 1 / 2 ^ 60 ≤ x.toRat)
    (hhigh : x.toRat ≤ 3 / 5 * ceiling) : x.decadeScale.isFinite ∧
      x.toRat / 12 ≤ x.decadeScale.toRat ∧ x.decadeScale.toRat ≤ 6 / 5 * x.toRat := by
  have hpos : 0 < x.toRat := by linarith
  have hunit := halfUnit_le_power
  cases x with
  | nan | infinite => cases hx
  | finite negative m =>
      cases negative
      · rw [toRat_finite, sign, if_neg Bool.false_ne_true, one_mul] at *
        have hm : m.units ≠ 0 := by
          intro hzero
          rw [Magnitude.toRat, hzero, Nat.cast_zero, zero_div] at hpos
          exact lt_irrefl _ hpos
        obtain ⟨hdecade, hdecade'⟩ := decade_bounds (Nat.pos_of_ne_zero hm)
        obtain ⟨hfinite, hvalue, hvalue'⟩ := powerOfTen_bounds (k := decade m.units) (by linarith)
        rw [decadeScale, if_neg hm]
        refine ⟨hfinite, ?_, ?_⟩ <;> linarith
      · have hsize : (0 : ℚ) ≤ m.toRat := div_nonneg (Nat.cast_nonneg _) one_pos_rat.le
        rw [toRat_finite, sign, if_pos rfl] at hpos
        linarith

end RewardPlot.Binary64
