import RewardPlot.Proofs.Binary64.Order
import RewardPlot.Proofs.Decimal.Shortest
/-!
# Decimals far away

A decimal far beyond the largest number, or far below the smallest one, is not computed.  Its
rounding would have come to the same, so every decimal gives the number nearest to it.
-/

namespace RewardPlot

namespace Magnitude

/-- Less than half of the smallest number is rounded to zero. -/
theorem nearest_eq_zero {num den : Nat} (hsmall : 2 * num < den) : nearest num den = 0 := by
  have hquotient : num / den = 0 := Nat.div_eq_of_lt (by omega)
  have hspacing : spacing (num / den) = 1 := by
    rw [hquotient]
    exact spacing_of_small (by decide)
  apply nearest_eq_of_spacing
  · exact Nat.dvd_zero _
  · rw [hspacing]
    omega
  · rw [hspacing]
    omega

/-- What lies well above the limit is not rounded to a number. -/
theorem limit_le_nearest {num den : Nat} (hden : 0 < den)
    (hlarge : (2 ^ 53 + 1) * (limit * den) ≤ 2 ^ 53 * num) : limit ≤ nearest num den := by
  have hnormal : 2 ^ 52 * den ≤ num := by
    have hlimit : 2 ^ 52 ≤ limit := by decide +kernel
    have hle := Nat.mul_le_mul_right den hlimit
    omega
  have hbound := le_nearest_mul hnormal hden
  have hle : (2 ^ 53 + 1) * (limit * den) ≤ (2 ^ 53 + 1) * (nearest num den * den) := by omega
  exact Nat.le_of_mul_le_mul_right (Nat.le_of_mul_le_mul_left hle (by decide)) hden

end Magnitude

namespace Decimal

open Magnitude

theorem den_pos (d : Decimal) : 0 < d.den := Nat.pow_pos (by decide)

/-- The place of the first digit bounds the quotient from above. -/
theorem mul_num_lt_den {d : Decimal} (k : Nat)
    (hplace : (width d.significand : Int) + d.exponent ≤ -k) : 10 ^ k * d.num < d.den := by
  have hwidth := lt_pow_width d.significand
  rw [num, den, show d.exponent.toNat = 0 by omega, Nat.pow_zero, Nat.mul_one]
  calc 10 ^ k * d.significand < 10 ^ k * 10 ^ width d.significand :=
        Nat.mul_lt_mul_of_pos_left hwidth (Nat.pow_pos (by decide))
    _ = 10 ^ (k + width d.significand) := (Nat.pow_add _ _ _).symm
    _ ≤ 10 ^ (-d.exponent).toNat := Nat.pow_le_pow_right (by decide) (by omega)

/-- The place of the first digit bounds the quotient from below. -/
theorem mul_den_le_num {d : Decimal} (hsignificand : 0 < d.significand) (k : Nat)
    (hplace : (k : Int) < (width d.significand : Int) + d.exponent) :
    10 ^ k * d.den ≤ d.num := by
  have hwidth := width_pos hsignificand
  have hpower : 10 ^ (width d.significand - 1) ≤ d.significand := pow_le_of_lt_width (by omega)
  rw [num, den, ← Nat.pow_add]
  calc 10 ^ (k + (-d.exponent).toNat)
      ≤ 10 ^ (width d.significand - 1 + d.exponent.toNat) :=
        Nat.pow_le_pow_right (by decide) (by omega)
    _ = 10 ^ (width d.significand - 1) * 10 ^ d.exponent.toNat := Nat.pow_add _ _ _
    _ ≤ d.significand * 10 ^ d.exponent.toNat := Nat.mul_le_mul_right _ hpower

theorem nearest_of_low {d : Decimal}
    (hlow : d.significand = 0 ∨ (width d.significand : Int) + d.exponent < -330) :
    nearest (one * d.num) d.den = 0 := by
  apply nearest_eq_zero
  rcases hlow with hnone | hplace
  · rw [num, hnone, Nat.zero_mul, Nat.mul_zero, Nat.mul_zero]
    exact d.den_pos
  · have hlt := mul_num_lt_den (d := d) 330 (by omega)
    have hone : 2 * one ≤ 10 ^ 330 := by decide +kernel
    calc 2 * (one * d.num) = 2 * one * d.num := (Nat.mul_assoc _ _ _).symm
      _ ≤ 10 ^ 330 * d.num := Nat.mul_le_mul_right _ hone
      _ < d.den := hlt

theorem limit_le_nearest_of_high {d : Decimal} (hsignificand : 0 < d.significand)
    (hhigh : 310 < (width d.significand : Int) + d.exponent) :
    limit ≤ nearest (one * d.num) d.den := by
  have hle := mul_den_le_num hsignificand 310 hhigh
  have hconst : (2 ^ 53 + 1) * limit ≤ 2 ^ 53 * (one * 10 ^ 310) := by decide +kernel
  apply limit_le_nearest d.den_pos
  calc (2 ^ 53 + 1) * (limit * d.den) = (2 ^ 53 + 1) * limit * d.den :=
        (Nat.mul_assoc _ _ _).symm
    _ ≤ 2 ^ 53 * (one * 10 ^ 310) * d.den := Nat.mul_le_mul_right _ hconst
    _ = 2 ^ 53 * (one * (10 ^ 310 * d.den)) := by simp only [Nat.mul_assoc]
    _ ≤ 2 ^ 53 * (one * d.num) := Nat.mul_le_mul_left _ (Nat.mul_le_mul_left _ hle)

/-- Every decimal gives the number nearest to it. -/
theorem toBinary64_eq_ofQuotient (negative : Bool) (d : Decimal) :
    d.toBinary64 negative = .ofQuotient negative (one * d.num) d.den := by
  rw [toBinary64]
  split
  · next hlow => exact (Binary64.ofQuotient_eq_zero (nearest_of_low hlow)).symm
  · split
    · next hsome hhigh =>
      exact (Binary64.ofQuotient_eq_infinite (limit_le_nearest_of_high (by omega) hhigh)).symm
    · rfl

/-- A decimal that rounds to a magnitude gives the number with that magnitude. -/
theorem toBinary64_of_nearestUnits {d : Decimal} {m : Magnitude} (negative : Bool)
    (hrounds : d.nearestUnits = m.units) : d.toBinary64 negative = .finite negative m := by
  have hlimit : nearest (one * d.num) d.den < limit := by
    rw [← nearestUnits, hrounds]
    exact m.representable.1
  rw [toBinary64_eq_ofQuotient, Binary64.ofQuotient_eq_finite hlimit]
  exact congrArg (Binary64.finite negative) (Binary64.finite_eq_of_units hrounds)

end Decimal

end RewardPlot
