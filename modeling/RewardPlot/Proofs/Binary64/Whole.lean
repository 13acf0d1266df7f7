import RewardPlot.Proofs.Binary64.Error
/-!
# Whole numbers

Whole numbers of at most 53 digits are numbers of the format.  Sums, differences and products of
them are exact, and the whole part of a rounded quotient is the quotient of whole numbers.
-/

namespace RewardPlot

namespace Magnitude

theorem two_pow_106_le_one : 2 ^ 106 ≤ one := le_of_two_pow rfl one.eq_1 (by decide)

theorem one_mul_lt_limit {n : Nat} (hn : n ≤ 2 ^ 53) : one * n < limit := by
  have hlimit : one * 2 ^ 53 < limit := by decide +kernel
  have hle := Nat.mul_le_mul_left one hn
  omega

theorem spacing_dvd_whole {n : Nat} (hn : n ≤ 2 ^ 53) : spacing (one * n) ∣ one * n := by
  have hdvd := spacing_dvd_one_mul hn 0
  rwa [Nat.pow_zero, Nat.mul_one] at hdvd

theorem nearest_mul_den {den units : Nat} (hden : 0 < den) (hdvd : spacing units ∣ units) :
    nearest (units * den) den = units := by
  have hcancel := nearest_mul_right units 1 hden
  rwa [Nat.one_mul, nearest_self hdvd] at hcancel

/-- Rounding does not go past a number of the format. -/
theorem nearest_le {num den units : Nat} (hden : 0 < den) (hdvd : spacing units ∣ units)
    (hle : num ≤ units * den) : nearest num den ≤ units := by
  have hmono := nearest_mono hle den
  rwa [nearest_mul_den hden hdvd] at hmono

theorem le_nearest {num den units : Nat} (hden : 0 < den) (hdvd : spacing units ∣ units)
    (hle : units * den ≤ num) : units ≤ nearest num den := by
  have hmono := nearest_mono hle den
  rwa [nearest_mul_den hden hdvd] at hmono

/-- A quotient that is no whole number is at least one part of its divisor away from the next
one, and rounding does not take it so far. -/
theorem nearest_div_one {p s : Nat} (hs : 0 < s) (hs' : s ≤ 2 ^ 53) (hp : p ≤ 2 ^ 52) :
    nearest (p * one) s / one = p / s := by
  have hdivision := Nat.div_add_mod p s
  have hmod := Nat.mod_lt p hs
  have hquotient : p / s ≤ 2 ^ 52 := Nat.le_trans (Nat.div_le_self p s) hp
  have hlow : p / s * one ≤ nearest (p * one) s := by
    rw [Nat.mul_comm (p / s)]
    apply le_nearest hs (spacing_dvd_whole (by omega))
    rw [Nat.mul_comm one, Nat.mul_right_comm]
    exact Nat.mul_le_mul_right one (Nat.div_mul_le_self p s)
  have hhigh : nearest (p * one) s < (p / s + 1) * one := by
    have herror := nearest_error_above (p * one) s
    have hspacing := Nat.mul_le_mul_right s (mul_spacing_le_add (p * one / s))
    have hfloor := Nat.div_mul_le_self (p * one) s
    have hone := two_pow_106_le_one
    have hsize := Nat.mul_le_mul_right one hp
    have hnext : p * one + one ≤ (p / s + 1) * one * s := by
      rw [Nat.mul_right_comm, ← Nat.add_one_mul]
      apply Nat.mul_le_mul_right
      rw [Nat.add_one_mul, Nat.mul_comm]
      omega
    rw [Nat.add_mul, Nat.mul_assoc] at hspacing
    have hless : nearest (p * one) s * s < (p / s + 1) * one * s := by omega
    exact Nat.lt_of_mul_lt_mul_right hless
  exact Nat.div_eq_of_lt_le hlow hhigh

end Magnitude

namespace Binary64

variable {a b n : Int} {i j p s : Nat}

theorem ofQuotient_mul_right (negative : Bool) (num den : Nat) {k : Nat} (hk : 0 < k) :
    ofQuotient negative (num * k) (den * k) = ofQuotient negative num den := by
  unfold ofQuotient
  simp only [Magnitude.nearest_mul_right num den hk]

def ofInt (n : Int) : Binary64 := ofUnits (n * Magnitude.one)

theorem ofInt_zero : ofInt 0 = zero false := by
  rw [ofInt, Int.zero_mul, ofUnits, Int.natAbs_zero]
  exact ofQuotient_zero _ 1

theorem ofInt_natCast (n : Nat) : ofInt n = ofNat n := by
  have hsign : ¬(n : Int) * Magnitude.one < 0 :=
    Int.not_lt.mpr (Int.mul_nonneg (Int.natCast_nonneg n) (Int.natCast_nonneg _))
  rw [ofInt, ofUnits, ofNat, ofFraction, Int.natAbs_mul, Int.natAbs_natCast, Int.natAbs_natCast,
    decide_eq_false hsign]

theorem ofInt_of_nonneg (hn : 0 ≤ n) : ofInt n = ofNat n.toNat := by
  rw [← ofInt_natCast, Int.toNat_of_nonneg hn]

theorem ofInt_eq_finite (hn : n.natAbs ≤ 2 ^ 53) :
    ∃ m : Magnitude, ofInt n = finite (n < 0) m ∧ signed (n < 0) m = n * Magnitude.one := by
  have hone := Magnitude.one_pos
  have hdvd := Magnitude.spacing_dvd_whole hn
  have hsign : n * Magnitude.one < 0 ↔ n < 0 := by
    rw [Int.mul_neg_iff]
    omega
  refine ⟨⟨Magnitude.one * n.natAbs, Magnitude.one_mul_lt_limit hn, hdvd⟩, ?_, ?_⟩
  · rw [ofInt, ofUnits, Int.natAbs_mul, Int.natAbs_natCast, Nat.mul_comm,
      ofQuotient_exact (Magnitude.one_mul_lt_limit hn) hdvd]
    simp only [hsign]
  · have hsize : ((Magnitude.one * n.natAbs : Nat) : Int) = Magnitude.one * n.natAbs :=
      Int.natCast_mul _ _
    rw [signed]
    dsimp only
    rw [hsize, Int.mul_comm n]
    split_ifs with hneg
    · rw [decide_eq_true_eq] at hneg
      rw [← Int.mul_neg]
      congr 1
      omega
    · rw [decide_eq_true_eq] at hneg
      congr 1
      omega

theorem place_ofInt (hn : n.natAbs ≤ 2 ^ 53) : (ofInt n).place = some (n * Magnitude.one) := by
  obtain ⟨m, hm, hsigned⟩ := ofInt_eq_finite hn
  rw [hm, place_finite, hsigned]

theorem isFinite_ofInt (hn : n.natAbs ≤ 2 ^ 53) : (ofInt n).isFinite := by
  obtain ⟨m, hm, -⟩ := ofInt_eq_finite hn
  rw [hm]
  rfl

theorem ofInt_add (ha : a.natAbs ≤ 2 ^ 53) (hb : b.natAbs ≤ 2 ^ 53) :
    ofInt a + ofInt b = ofInt (a + b) := by
  obtain ⟨m, hm, hsigned⟩ := ofInt_eq_finite ha
  obtain ⟨k, hk, hsigned'⟩ := ofInt_eq_finite hb
  rw [hm, hk]
  change add _ _ = _
  rw [add, hsigned, hsigned', ← Int.add_mul]
  split
  · next htotal =>
    have hone := Magnitude.one_pos
    have hsum : a + b = 0 := by
      rcases Int.mul_eq_zero.mp htotal with hsum | hzero
      · exact hsum
      · omega
    have hsign : (decide (a < 0) && decide (b < 0)) = false := by
      simp only [Bool.and_eq_false_iff, decide_eq_false_iff_not]
      omega
    rw [hsign, hsum]
    exact ofInt_zero.symm
  · rfl

theorem ofInt_sub (ha : a.natAbs ≤ 2 ^ 53) (hb : b.natAbs ≤ 2 ^ 53) :
    ofInt a - ofInt b = ofInt (a - b) := by
  obtain ⟨m, hm, hsigned⟩ := ofInt_eq_finite ha
  obtain ⟨k, hk, hsigned'⟩ := ofInt_eq_finite hb
  have hneg : signed (!decide (b < 0)) k = -(b * Magnitude.one) := by
    rw [← hsigned', signed, signed]
    cases decide (b < 0)
    · rfl
    · exact (Int.neg_neg _).symm
  rw [hm, hk]
  change add (finite _ m) (finite (!decide (b < 0)) k) = _
  rw [add, hsigned, hneg, ← Int.sub_eq_add_neg, ← Int.sub_mul]
  split
  · next htotal =>
    have hone := Magnitude.one_pos
    have hdifference : a - b = 0 := by
      rcases Int.mul_eq_zero.mp htotal with hdifference | hzero
      · exact hdifference
      · omega
    have hsign : (decide (a < 0) && !decide (b < 0)) = false := by
      rw [show a = b by omega]
      exact Bool.and_not_self _
    rw [hsign, hdifference]
    exact ofInt_zero.symm
  · rfl

theorem abs_ofInt (hn : n.natAbs ≤ 2 ^ 53) : (ofInt n).abs = ofNat n.natAbs := by
  obtain ⟨m, hm, hsigned⟩ := ofInt_eq_finite hn
  obtain ⟨k, hk, hunits⟩ := ofNat_exact hn
  have hsize : m.units = k.units := by
    rw [hunits, Nat.mul_comm, ← Int.natAbs_natCast Magnitude.one, ← Int.natAbs_mul, ← hsigned,
      signed]
    split <;> omega
  rw [hm, hk, abs, finite_eq_of_units hsize]

theorem place_ofNat (hn : i ≤ 2 ^ 53) : (ofNat i).place = some ((i : Int) * Magnitude.one) := by
  rw [← ofInt_natCast]
  exact place_ofInt (by omega)

theorem ofNat_le_ofNat_iff (hi : i ≤ 2 ^ 53) (hj : j ≤ 2 ^ 53) : ofNat i ≤ ofNat j ↔ i ≤ j := by
  constructor
  · intro hle
    have hplaces := place_le hle (place_ofNat hi) (place_ofNat hj)
    have hone := Magnitude.one_pos
    have hle' := Int.le_of_mul_le_mul_right hplaces (by omega)
    omega
  · exact ofNat_mono

theorem ofNat_mul (hi : i ≤ 2 ^ 53) (hj : j ≤ 2 ^ 53) : ofNat i * ofNat j = ofNat (i * j) := by
  obtain ⟨m, hm, hunits⟩ := ofNat_exact hi
  obtain ⟨k, hk, hunits'⟩ := ofNat_exact hj
  have hproduct : Magnitude.one * i * (Magnitude.one * j) =
      i * j * Magnitude.one * Magnitude.one := by
    grind
  have hcancel := ofQuotient_mul_right false (i * j * Magnitude.one) 1 Magnitude.one_pos
  rw [Nat.one_mul] at hcancel
  rw [hm, hk, finite_mul, hunits, hunits', hproduct, Bool.xor_self, hcancel]
  rfl

theorem ofNat_div (hp : p ≤ 2 ^ 53) (hs : 0 < s) (hs' : s ≤ 2 ^ 53) :
    ofNat p / ofNat s = ofFraction p s := by
  have hone := Magnitude.one_pos
  obtain ⟨m, hm, hunits⟩ := ofNat_exact hp
  obtain ⟨k, hk, hunits'⟩ := ofNat_exact hs'
  have hdivisor : k.units ≠ 0 := by
    rw [hunits']
    exact Nat.mul_ne_zero hone.ne' hs.ne'
  rw [hm, hk, finite_div hdivisor, hunits, hunits', Bool.xor_self, Nat.mul_comm _ p,
    Nat.mul_comm _ s, ofQuotient_mul_right _ _ _ hone]
  rfl

theorem ofFraction_mul (n : Nat) (hs : 0 < s) : ofFraction (n * s) s = ofNat n := by
  have hcancel := ofQuotient_mul_right false (n * Magnitude.one) 1 hs
  rw [Nat.one_mul] at hcancel
  rw [ofFraction, Nat.mul_right_comm, hcancel]
  rfl

/-- The whole part of a rounded quotient. -/
theorem floor_ofNat_div (hp : p ≤ 2 ^ 52) (hs : 0 < s) (hs' : s ≤ 2 ^ 53) :
    (ofNat p / ofNat s).floor = ofNat (p / s) := by
  have hwhole := Magnitude.nearest_div_one hs hs' hp
  have hlimit : Magnitude.nearest (p * Magnitude.one) s < Magnitude.limit := by
    have hless : Magnitude.nearest (p * Magnitude.one) s < (p / s + 1) * Magnitude.one := by
      rw [← Nat.div_lt_iff_lt_mul Magnitude.one_pos, hwhole]
      exact Nat.lt_succ_self _
    rw [Nat.mul_comm (p / s + 1)] at hless
    have hquotient := Nat.div_le_self p s
    have hbound := Magnitude.one_mul_lt_limit (n := p / s + 1) (by omega)
    omega
  rw [ofNat_div (by omega) hs hs', ofFraction, ofQuotient_eq_finite hlimit, floor]
  dsimp only
  rw [hwhole]
  rfl

theorem toCount_ofNat (hn : i ≤ 2 ^ 53) : (ofNat i).toCount = i := by
  obtain ⟨m, hm, hunits⟩ := ofNat_exact hn
  rw [hm, toCount, hunits, Nat.mul_div_cancel_left i Magnitude.one_pos]
  apply Nat.min_eq_left
  rw [maxCount]
  omega

end Binary64

end RewardPlot
