import RewardPlot.Axis.KeyPoints
import RewardPlot.Proofs.Binary64.Value
/-!
# Multiples of a step

Between two numbers that are not too large for their distance, each operation is wrong by a small
part of the distance only.  So the first and the last multiple of a step lie where they should,
and a count of multiples tells how the step compares with the distance.
-/

namespace RewardPlot.Axis

open Binary64 (ceiling halfUnit Near)

/-- Two finite numbers and their distance. -/
structure Apart (low high : Binary64) (span : ℚ) : Prop where
  low_isFinite : low.isFinite
  high_isFinite : high.isFinite
  span_eq : span = high.toRat - low.toRat
  low_le : |low.toRat| ≤ ceiling / 4
  high_le : |high.toRat| ≤ ceiling / 4
  low_size : |low.toRat| ≤ 2 * 10 ^ 6 * span
  high_size : |high.toRat| ≤ 2 * 10 ^ 6 * span
  span_ge : 1 / 2 ^ 54 ≤ span

/-- A step that is not out of proportion. -/
structure StepFor (span : ℚ) (step : Binary64) : Prop where
  isFinite : step.isFinite
  low : span / 1500 ≤ step.toRat
  high : step.toRat ≤ 110 * span
  small : step.toRat ≤ 51 / 100 * ceiling

/-- The largest multiple of a step up to a number, within rounding.  It is not below zero for a
number from zero on, and a step below zero for a number that is clearly negative. -/
structure MultipleUpTo (span : ℚ) (x step multiple : Binary64) : Prop where
  isFinite : multiple.isFinite
  low : x.toRat - step.toRat - span / 10 ^ 8 ≤ multiple.toRat
  high : multiple.toRat ≤ x.toRat + span / 10 ^ 8
  of_nonneg : 0 ≤ x.toRat → -(span / 10 ^ 8) ≤ multiple.toRat
  of_neg : x.toRat ≤ -span → multiple.toRat ≤ -step.toRat + span / 10 ^ 8

/-- What is left of a number after whole steps: a part of a step, within rounding.  Of a number
from zero on no more is left than the number, of one that is clearly negative either nothing or
at least what it takes to reach a step. -/
structure RestOf (span : ℚ) (x step rest : Binary64) : Prop where
  isFinite : rest.isFinite
  low : -(span / 10 ^ 7) ≤ rest.toRat
  high : rest.toRat ≤ step.toRat + span / 10 ^ 7
  of_nonneg : 0 ≤ x.toRat → rest.toRat ≤ x.toRat + span / 10 ^ 7
  of_neg : x.toRat ≤ -span → rest = 0 ∨ x.toRat + step.toRat - span / 10 ^ 7 ≤ rest.toRat

namespace Apart

variable {low high x y step : Binary64} {span q : ℚ} (hspan : Apart low high span)

include hspan

theorem pos : 0 < span := by
  have hge := hspan.span_ge
  linarith

theorem span_le : span ≤ ceiling / 2 := by
  have hlow := abs_le.mp hspan.low_le
  have hhigh := abs_le.mp hspan.high_le
  rw [hspan.span_eq]
  linarith

theorem halfUnit_le : halfUnit ≤ span / 2 ^ 53 := by
  have hunit := Binary64.halfUnit_le_power
  have hge := hspan.span_ge
  linarith

/-- Rounding changes a number by a small part of the distance. -/
theorem near_bounds (hx : x.Near q) (hq : |q| ≤ 4 * 10 ^ 6 * span) :
    q - span / 10 ^ 9 ≤ x.toRat ∧ x.toRat ≤ q + span / 10 ^ 9 := by
  obtain ⟨hlow, hhigh⟩ := hx.bounds hq
  have hunit := hspan.halfUnit_le
  have hpos := hspan.pos
  constructor <;> linarith

theorem add_bounds (hx : x.isFinite) (hy : y.isFinite)
    (hsmall : |x.toRat + y.toRat| ≤ 15 / 16 * ceiling)
    (hsize : |x.toRat + y.toRat| ≤ 4 * 10 ^ 6 * span) :
    (x + y).isFinite ∧ x.toRat + y.toRat - span / 10 ^ 9 ≤ (x + y).toRat ∧
      (x + y).toRat ≤ x.toRat + y.toRat + span / 10 ^ 9 :=
  have hnear := Binary64.near_add hx hy hsmall
  ⟨hnear.isFinite, hspan.near_bounds hnear hsize⟩

theorem sub_bounds (hx : x.isFinite) (hy : y.isFinite)
    (hsmall : |x.toRat - y.toRat| ≤ 15 / 16 * ceiling)
    (hsize : |x.toRat - y.toRat| ≤ 4 * 10 ^ 6 * span) :
    (x - y).isFinite ∧ x.toRat - y.toRat - span / 10 ^ 9 ≤ (x - y).toRat ∧
      (x - y).toRat ≤ x.toRat - y.toRat + span / 10 ^ 9 :=
  have hnear := Binary64.near_sub hx hy hsmall
  ⟨hnear.isFinite, hspan.near_bounds hnear hsize⟩

theorem multipleUpTo (hstep : StepFor span step) (hx : x.isFinite)
    (hsize : |x.toRat| ≤ 3 * 10 ^ 6 * span) (hsize' : |x.toRat| + step.toRat ≤ 9 / 10 * ceiling) :
    MultipleUpTo span x step ((x / step).floor * step) := by
  have hpos := hspan.pos
  have hunit := hspan.halfUnit_le
  have hceiling := Binary64.two_pow_100_le_ceiling
  have hlow := hstep.low
  have hhigh := hstep.high
  have hsmall := hstep.small
  have hspos : 0 < step.toRat := by linarith
  have hquotientSize : |x.toRat / step.toRat| ≤ 5 * 10 ^ 9 := by
    rw [abs_div, abs_of_pos hspos, div_le_iff₀ hspos]
    linarith
  have hquotient := Binary64.near_div hx hstep.isFinite hspos.ne' (by linarith)
  obtain ⟨hfloor, hwhole⟩ := Binary64.toRat_floor hquotient.isFinite
  have hproduct := abs_le.mp (hquotient.mul_divisor hspos)
  have hunitStep : halfUnit * step.toRat ≤ 1 / 2 ^ 107 * (110 * span) :=
    mul_le_mul Binary64.halfUnit_le_power hhigh hspos.le (by norm_num)
  have hbelow := mul_le_mul_of_nonneg_right (Int.floor_le (x / step).toRat) hspos.le
  have habove := mul_le_mul_of_nonneg_right (Int.lt_floor_add_one (x / step).toRat).le hspos.le
  rw [← hwhole] at hbelow habove
  rw [add_mul, one_mul] at habove
  have hlower := neg_abs_le x.toRat
  have hupper := le_abs_self x.toRat
  have hnear := Binary64.near_mul hfloor hstep.isFinite (abs_le.mpr ⟨by linarith, by linarith⟩)
  obtain ⟨hnearLow, hnearHigh⟩ := hspan.near_bounds hnear
    (abs_le.mpr ⟨by linarith, by linarith⟩)
  refine ⟨hnear.isFinite, by linarith, by linarith, fun hx0 => ?_, fun hneg => ?_⟩
  · have hquotient0 := (Binary64.toRat_nonneg_iff hquotient.isFinite).mpr
      (Binary64.zero_le_div hx hstep.isFinite ((Binary64.toRat_nonneg_iff hx).mp hx0)
        ((Binary64.toRat_pos_iff hstep.isFinite).mp hspos))
    have hmultiple := mul_nonneg (Binary64.toRat_floor_nonneg hquotient.isFinite hquotient0)
      hspos.le
    linarith
  · have hquotient0 : (x / step).toRat < 0 := by
      by_contra hnot
      have hmul := mul_nonneg (not_lt.mp hnot) hspos.le
      linarith
    have hmultiple := mul_le_mul_of_nonneg_right
      (Binary64.toRat_floor_le_of_neg hquotient.isFinite hquotient0) hspos.le
    linarith

theorem restOf_leftover (hstep : StepFor span step) (hx : x.isFinite)
    (hsize : |x.toRat| ≤ 2 * 10 ^ 6 * span) (hsize' : |x.toRat| ≤ ceiling / 4) :
    RestOf span x step (leftover x step) := by
  have hpos := hspan.pos
  have hlow := hstep.low
  have hhigh := hstep.high
  have hsmall := hstep.small
  have hceiling := hspan.span_le
  have hmultiple := hspan.multipleUpTo hstep hx (by linarith) (by linarith)
  have hbelow := hmultiple.low
  have habove := hmultiple.high
  obtain ⟨hrest, hrestLow, hrestHigh⟩ := hspan.sub_bounds hx hmultiple.isFinite
    (abs_le.mpr ⟨by linarith, by linarith⟩) (abs_le.mpr ⟨by linarith, by linarith⟩)
  rw [leftover]
  split_ifs
  · have hzero := Binary64.toRat_zero
    exact ⟨Binary64.isFinite_zero, by linarith, by linarith, fun _ => by linarith,
      fun _ => .inl rfl⟩
  · refine ⟨hrest, by linarith, by linarith, fun hx0 => ?_, fun hneg => .inr ?_⟩
    · have hnonneg := hmultiple.of_nonneg hx0
      linarith
    · have hstepBelow := hmultiple.of_neg hneg
      linarith

/-! ## The first and the last multiple -/

theorem firstFrom_bounds (hstep : StepFor span step) :
    ((firstFrom low step).isFinite ∧ low.toRat - span / 10 ^ 6 ≤ (firstFrom low step).toRat ∧
      (firstFrom low step).toRat ≤ low.toRat + step.toRat + span / 10 ^ 6) ∧
      (low.toRat ≤ -span → (firstFrom low step).toRat ≤ span / 10 ^ 6) := by
  have hpos := hspan.pos
  have hceiling := hspan.span_le
  have hlow := hstep.low
  have hhigh := hstep.high
  have hsmall := hstep.small
  have hlowLe := abs_le.mp hspan.low_le
  have hlowSize := abs_le.mp hspan.low_size
  have hrest := hspan.restOf_leftover hstep hspan.low_isFinite hspan.low_size hspan.low_le
  have hrestLow := hrest.low
  have hrestHigh := hrest.high
  obtain ⟨hfirst, hfirstLow, hfirstHigh⟩ := hspan.sub_bounds hspan.low_isFinite hrest.isFinite
    (abs_le.mpr ⟨by linarith, by linarith⟩) (abs_le.mpr ⟨by linarith, by linarith⟩)
  rw [firstFrom]
  split_ifs with hless
  -- The multiple lies before the number, and the next one does not.
  · rw [Binary64.lt_iff_toRat_lt hfirst hspan.low_isFinite] at hless
    obtain ⟨hnext, hnextLow, hnextHigh⟩ := hspan.add_bounds hfirst hstep.isFinite
      (abs_le.mpr ⟨by linarith, by linarith⟩) (abs_le.mpr ⟨by linarith, by linarith⟩)
    refine ⟨⟨hnext, by linarith, by linarith⟩, fun hneg => ?_⟩
    rcases hrest.of_neg hneg with hnone | hsome
    · rw [hnone, Binary64.toRat_sub_zero hspan.low_isFinite] at hless
      exact absurd hless (lt_irrefl _)
    · linarith
  · rw [Binary64.lt_iff_toRat_lt hfirst hspan.low_isFinite, not_lt] at hless
    exact ⟨⟨hfirst, by linarith, by linarith⟩, fun hneg => by linarith⟩

theorem lastUpTo_bounds (hstep : StepFor span step) :
    ((lastUpTo high step).isFinite ∧
      high.toRat - step.toRat - span / 10 ^ 6 ≤ (lastUpTo high step).toRat ∧
        (lastUpTo high step).toRat ≤ high.toRat + span / 10 ^ 6) ∧
      (0 ≤ high.toRat → -(span / 10 ^ 6) ≤ (lastUpTo high step).toRat) := by
  have hpos := hspan.pos
  have hceiling := hspan.span_le
  have hlow := hstep.low
  have hhigh := hstep.high
  have hsmall := hstep.small
  have hhighLe := abs_le.mp hspan.high_le
  have hhighSize := abs_le.mp hspan.high_size
  have hrest := hspan.restOf_leftover hstep hspan.high_isFinite hspan.high_size hspan.high_le
  have hrestLow := hrest.low
  have hrestHigh := hrest.high
  obtain ⟨hlast, hlastLow, hlastHigh⟩ := hspan.sub_bounds hspan.high_isFinite hrest.isFinite
    (abs_le.mpr ⟨by linarith, by linarith⟩) (abs_le.mpr ⟨by linarith, by linarith⟩)
  rw [lastUpTo]
  refine ⟨⟨hlast, by linarith, by linarith⟩, fun hnonneg => ?_⟩
  have hrestLe := hrest.of_nonneg hnonneg
  linarith

/-- The distance from the first to the last multiple.  It may be negative, but not by more than
the multiples can be away from zero. -/
theorem extent_bounds (hstep : StepFor span step) :
    (lastUpTo high step - firstFrom low step).isFinite ∧
      span - 2 * step.toRat - span / 10 ^ 5 ≤ (lastUpTo high step - firstFrom low step).toRat ∧
        (lastUpTo high step - firstFrom low step).toRat ≤ span + span / 10 ^ 5 := by
  have hpos := hspan.pos
  have hceiling := hspan.span_le
  have heq := hspan.span_eq
  have hstepHigh := hstep.high
  have hsmall := hstep.small
  have hlowLe := abs_le.mp hspan.low_le
  have hhighLe := abs_le.mp hspan.high_le
  obtain ⟨⟨hfirst, hfirstLow, hfirstHigh⟩, hfirstNeg⟩ := hspan.firstFrom_bounds hstep
  obtain ⟨⟨hlast, hlastLow, hlastHigh⟩, hlastNonneg⟩ := hspan.lastUpTo_bounds hstep
  have hlower : -(15 / 16 * ceiling) ≤ (lastUpTo high step).toRat - (firstFrom low step).toRat := by
    rcases le_or_gt 0 high.toRat with hnonneg | hneg
    · have hle := hlastNonneg hnonneg
      linarith
    · have hle := hfirstNeg (by linarith)
      linarith
  obtain ⟨hextent, hextentLow, hextentHigh⟩ := hspan.sub_bounds hlast hfirst
    (abs_le.mpr ⟨hlower, by linarith⟩) (abs_le.mpr ⟨by linarith, by linarith⟩)
  refine ⟨hextent, ?_, ?_⟩ <;> linarith

end Apart

end RewardPlot.Axis
