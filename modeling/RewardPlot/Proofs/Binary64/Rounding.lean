import RewardPlot.Binary64.Arithmetic
/-!
# The error of a rounding

Rounding moves a quotient by at most half of the spacing.  A quotient that differs from a
number of the format by less than one part in `2 ^ 54` is therefore rounded to it.
-/

namespace RewardPlot

theorem roundHalfEven_mul_right (num den : Nat) {k : Nat} (hk : 0 < k) :
    roundHalfEven (num * k) (den * k) = roundHalfEven num den := by
  have hless : den * k < 2 * (num % den * k) ↔ den < 2 * (num % den) := by
    rw [← Nat.mul_assoc]
    exact Nat.mul_lt_mul_right hk
  have hequal : 2 * (num % den * k) = den * k ↔ 2 * (num % den) = den := by
    rw [← Nat.mul_assoc]
    exact Nat.mul_left_inj (by omega)
  unfold roundHalfEven
  dsimp only
  rw [Nat.mul_div_mul_right _ _ hk, Nat.mul_mod_mul_right]
  simp only [hless, hequal]

theorem le_roundHalfEven (num den : Nat) : num / den ≤ roundHalfEven num den := by
  unfold roundHalfEven
  dsimp only
  split <;> omega

theorem roundHalfEven_error_above (num den : Nat) :
    2 * (roundHalfEven num den * den) ≤ 2 * num + den := by
  have hdivision := Nat.div_add_mod num den
  rw [Nat.mul_comm] at hdivision
  unfold roundHalfEven
  dsimp only
  split
  · rw [Nat.add_mul]
    omega
  · omega

theorem roundHalfEven_error_below (num : Nat) {den : Nat} (hden : 0 < den) :
    2 * num ≤ 2 * (roundHalfEven num den * den) + den := by
  have hdivision := Nat.div_add_mod num den
  have hmod := Nat.mod_lt num hden
  rw [Nat.mul_comm] at hdivision
  unfold roundHalfEven
  dsimp only
  split
  · rw [Nat.add_mul]
    omega
  · omega

theorem roundHalfEven_eq {num den whole : Nat}
    (habove : 2 * num < 2 * (whole * den) + den) (hbelow : 2 * (whole * den) < 2 * num + den) :
    roundHalfEven num den = whole := by
  have hden : 0 < den := by omega
  have herror := roundHalfEven_error_above num den
  have herror' := roundHalfEven_error_below num hden
  have hle : roundHalfEven num den * den < (whole + 1) * den := by
    rw [Nat.add_mul]
    omega
  have hge : whole * den < (roundHalfEven num den + 1) * den := by
    rw [Nat.add_mul]
    omega
  have hlt := Nat.lt_of_mul_lt_mul_right hle
  have hgt := Nat.lt_of_mul_lt_mul_right hge
  omega

namespace Magnitude

theorem one_pos : 0 < one := by decide +kernel

theorem two_pow_le_one : 2 ^ 52 ≤ one := by decide +kernel

/-! ## Spacing -/

theorem spacing_pos (units : Nat) : 0 < spacing units := Nat.two_pow_pos _

theorem lt_mul_spacing (units : Nat) : units < 2 ^ 53 * spacing units := by
  rw [spacing, ← Nat.pow_add]
  refine Nat.lt_of_lt_of_le Nat.lt_log2_self ?_
  exact Nat.pow_le_pow_right (by decide) (by omega)

theorem mul_spacing_le {units : Nat} (hnormal : 2 ^ 52 ≤ units) :
    2 ^ 52 * spacing units ≤ units := by
  have hunits : units ≠ 0 := by
    have := Nat.two_pow_pos 52
    omega
  have hlog : 52 ≤ units.log2 := (Nat.le_log2 hunits).mpr hnormal
  rw [spacing, ← Nat.pow_add, Nat.add_sub_cancel' hlog]
  exact Nat.log2_self_le hunits

theorem spacing_eq_of_log2 {a b : Nat} (hlog : a.log2 = b.log2) : spacing a = spacing b := by
  rw [spacing, spacing, hlog]

theorem spacing_of_small {units : Nat} (hsmall : units < 2 ^ 53) : spacing units = 1 := by
  rw [spacing]
  by_cases hunits : units = 0
  · rw [hunits]
    rfl
  · have hlog : units.log2 < 53 := (Nat.log2_lt hunits).mpr hsmall
    rw [show units.log2 - 52 = 0 by omega]

theorem one_eq_two_pow : ∃ k, one = 2 ^ k := ⟨_, one.eq_1⟩

/-- A whole number of 53 digits times a power of two is a number of the format. -/
theorem spacing_dvd_one_mul {n : Nat} (hn : n ≤ 2 ^ 53) (e : Nat) :
    spacing (one * (n * 2 ^ e)) ∣ one * (n * 2 ^ e) := by
  obtain ⟨k, hk⟩ := one_eq_two_pow
  rw [hk, Nat.mul_left_comm, ← Nat.pow_add]
  exact spacing_dvd_mul_two_pow hn

/-! ## Quotients beside a number of the format -/

theorem nearest_eq_of_spacing {num den units : Nat} (hdvd : spacing (num / den) ∣ units)
    (habove : 2 * num < 2 * (units * den) + spacing (num / den) * den)
    (hbelow : 2 * (units * den) < 2 * num + spacing (num / den) * den) :
    nearest num den = units := by
  obtain ⟨whole, hwhole⟩ := hdvd
  rw [nearest]
  generalize spacing (num / den) = step at hwhole habove hbelow
  have hunits : units * den = whole * (den * step) := by
    rw [hwhole]
    grind
  rw [hunits, Nat.mul_comm step den] at habove hbelow
  rw [roundHalfEven_eq habove hbelow, hwhole, Nat.mul_comm]

theorem nearest_self {units : Nat} (hdvd : spacing units ∣ units) : nearest units 1 = units := by
  have hstep := spacing_pos units
  apply nearest_eq_of_spacing
  · rwa [Nat.div_one]
  · rw [Nat.div_one]
    omega
  · rw [Nat.div_one]
    omega

theorem add_spacing_le {units : Nat} (hdvd : spacing units ∣ units) :
    units + spacing units ≤ 2 ^ (units.log2 + 1) := by
  have hpower : spacing units ∣ 2 ^ (units.log2 + 1) := Nat.pow_dvd_pow 2 (by omega)
  obtain ⟨whole, hwhole⟩ := hdvd
  obtain ⟨bound, hbound⟩ := hpower
  have hlt : spacing units * whole < spacing units * bound := by
    rw [← hwhole, ← hbound]
    exact Nat.lt_log2_self
  have hle : whole + 1 ≤ bound := Nat.lt_of_mul_lt_mul_left hlt
  calc units + spacing units = spacing units * (whole + 1) := by rw [Nat.mul_add_one, ← hwhole]
    _ ≤ spacing units * bound := Nat.mul_le_mul_left _ hle
    _ = 2 ^ (units.log2 + 1) := hbound.symm

theorem lt_mul_spacing_mul (units : Nat) {den : Nat} (hden : 0 < den) :
    units * den < 2 ^ 53 * (spacing units * den) := by
  rw [← Nat.mul_assoc]
  exact Nat.mul_lt_mul_of_pos_right (lt_mul_spacing units) hden

/-- Just below a power of two the numbers of the format are closer to each other. -/
theorem nearest_eq_power {num den k : Nat} (hden : 0 < den)
    (hbelow : (2 ^ 54 - 1) * (2 ^ 53 * 2 ^ k * den) < 2 ^ 54 * num)
    (hlow : num < 2 ^ 53 * 2 ^ k * den) : nearest num den = 2 ^ 53 * 2 ^ k := by
  rw [Nat.mul_assoc (2 ^ 53)] at hbelow hlow
  have hquotient : 2 ^ 52 * 2 ^ k ≤ num / den := by
    rw [Nat.le_div_iff_mul_le hden, Nat.mul_assoc]
    omega
  have hquotient' : num / den < 2 ^ 53 * 2 ^ k := by
    rw [Nat.div_lt_iff_lt_mul hden, Nat.mul_assoc]
    exact hlow
  have hlog : (num / den).log2 = 52 + k := by
    have hpos := Nat.two_pow_pos k
    have hnonzero : num / den ≠ 0 := by omega
    rw [Nat.log2_eq_iff hnonzero, Nat.pow_add, show 52 + k + 1 = 53 + k by omega, Nat.pow_add]
    exact ⟨hquotient, hquotient'⟩
  have hspacing : spacing (num / den) = 2 ^ k := by
    rw [spacing, hlog, Nat.add_sub_cancel_left]
  apply nearest_eq_of_spacing
  · rw [hspacing]
    exact Nat.dvd_mul_left _ _
  · rw [Nat.mul_assoc]
    omega
  · rw [hspacing, Nat.mul_assoc]
    omega

theorem nearest_eq_of_below {num den units : Nat} (hunits : 0 < units) (hden : 0 < den)
    (hdvd : spacing units ∣ units) (hbelow : (2 ^ 54 - 1) * (units * den) < 2 ^ 54 * num)
    (hlow : num < 2 ^ units.log2 * den) : nearest num den = units := by
  have hpower : 2 ^ units.log2 ≤ units := Nat.log2_self_le (by omega)
  have hle : 2 ^ units.log2 * den ≤ units * den := Nat.mul_le_mul_right den hpower
  have hprecise := lt_mul_spacing_mul units hden
  by_cases hsmall : units < 2 ^ 53
  · have hquotient : num / den < 2 ^ units.log2 := by
      rw [Nat.div_lt_iff_lt_mul hden]
      exact hlow
    have hspacing : spacing (num / den) = spacing units := by
      rw [spacing_of_small hsmall, spacing_of_small (by omega)]
    apply nearest_eq_of_spacing
    · rwa [hspacing]
    · omega
    · rw [hspacing]
      omega
  · have hlog : 53 ≤ units.log2 := (Nat.le_log2 (by omega)).mpr (by omega)
    obtain ⟨k, hk⟩ : ∃ k, units.log2 = 53 + k := ⟨units.log2 - 53, by omega⟩
    rw [hk, Nat.pow_add] at hpower hlow
    have hspacing : spacing units = 2 * 2 ^ k := by
      rw [spacing, hk, ← Nat.pow_succ', show 53 + k - 52 = k.succ by omega]
    -- The next number above the power of two would be too far from the quotient.
    have hexact : units = 2 ^ 53 * 2 ^ k := by
      obtain ⟨whole, hwhole⟩ := hdvd
      rw [hspacing, Nat.mul_assoc] at hwhole
      rw [hspacing, Nat.mul_assoc] at hprecise
      rw [Nat.mul_assoc] at hlow
      have hunits' : units * den = 2 * (2 ^ k * den * whole) := by
        rw [hwhole, Nat.mul_assoc, Nat.mul_right_comm]
      have hge : 2 ^ k * 2 ^ 52 ≤ 2 ^ k * whole := by omega
      have hlt : 2 ^ k * den * whole < 2 ^ k * den * (2 ^ 52 + 1) := by omega
      have hge' : 2 ^ 52 ≤ whole := Nat.le_of_mul_le_mul_left hge (Nat.two_pow_pos k)
      have hlt' : whole < 2 ^ 52 + 1 := Nat.lt_of_mul_lt_mul_left hlt
      rw [hwhole, show whole = 2 ^ 52 by omega]
      omega
    rw [hexact] at hbelow
    rw [hexact]
    exact nearest_eq_power hden hbelow hlow

/-- A quotient that differs from a number of the format by less than one part in `2 ^ 54`
is rounded to it. -/
theorem nearest_eq_of_close {num den units : Nat} (hunits : 0 < units)
    (hdvd : spacing units ∣ units)
    (habove : 2 ^ 54 * num < (2 ^ 54 + 1) * (units * den))
    (hbelow : (2 ^ 54 - 1) * (units * den) < 2 ^ 54 * num) : nearest num den = units := by
  have hden : 0 < den := by
    rcases Nat.eq_zero_or_pos den with rfl | hden
    · omega
    · exact hden
  by_cases hlow : num < 2 ^ units.log2 * den
  · exact nearest_eq_of_below hunits hden hdvd hbelow hlow
  · have hprecise := lt_mul_spacing_mul units hden
    have hhigh : num < 2 ^ (units.log2 + 1) * den := by
      have hle := Nat.mul_le_mul_right den (add_spacing_le hdvd)
      rw [Nat.add_mul] at hle
      omega
    have hquotient : 2 ^ units.log2 ≤ num / den := by
      rw [Nat.le_div_iff_mul_le hden]
      omega
    have hquotient' : num / den < 2 ^ (units.log2 + 1) := by
      rw [Nat.div_lt_iff_lt_mul hden]
      exact hhigh
    have hpos := Nat.two_pow_pos units.log2
    have hspacing : spacing (num / den) = spacing units :=
      spacing_eq_of_log2 ((Nat.log2_eq_iff (by omega)).mpr ⟨hquotient, hquotient'⟩)
    apply nearest_eq_of_spacing
    · rwa [hspacing]
    · rw [hspacing]
      omega
    · rw [hspacing]
      omega

/-! ## Bounds of the error -/

theorem nearest_mul_right (num den : Nat) {k : Nat} (hk : 0 < k) :
    nearest (num * k) (den * k) = nearest num den := by
  rw [nearest, nearest, Nat.mul_div_mul_right _ _ hk, Nat.mul_right_comm,
    roundHalfEven_mul_right _ _ hk]

theorem nearest_mul (num den : Nat) :
    nearest num den * den =
      roundHalfEven num (den * spacing (num / den)) * (den * spacing (num / den)) := by
  rw [nearest, Nat.mul_assoc, Nat.mul_comm _ den]

theorem nearest_error_above (num den : Nat) :
    2 * (nearest num den * den) ≤ 2 * num + spacing (num / den) * den := by
  rw [nearest_mul, Nat.mul_comm (spacing _)]
  exact roundHalfEven_error_above num (den * spacing (num / den))

theorem nearest_error_below (num : Nat) {den : Nat} (hden : 0 < den) :
    2 * num ≤ 2 * (nearest num den * den) + spacing (num / den) * den := by
  rw [nearest_mul, Nat.mul_comm (spacing _)]
  exact roundHalfEven_error_below num (Nat.mul_pos hden (spacing_pos (num / den)))

theorem mul_spacing_mul_le {num den : Nat} (hnormal : 2 ^ 52 * den ≤ num) (hden : 0 < den) :
    2 ^ 52 * (spacing (num / den) * den) ≤ num := by
  rw [← Nat.mul_assoc, ← Nat.le_div_iff_mul_le hden]
  rw [← Nat.le_div_iff_mul_le hden] at hnormal
  exact mul_spacing_le hnormal

theorem nearest_mul_le {num den : Nat} (hnormal : 2 ^ 52 * den ≤ num) (hden : 0 < den) :
    2 ^ 53 * (nearest num den * den) ≤ (2 ^ 53 + 1) * num := by
  have herror := nearest_error_above num den
  have hspacing := mul_spacing_mul_le hnormal hden
  omega

theorem nearest_one_le {num : Nat} (hnormal : 2 ^ 52 ≤ num) :
    2 ^ 53 * nearest num 1 ≤ (2 ^ 53 + 1) * num := by
  have hbound := nearest_mul_le (show 2 ^ 52 * 1 ≤ num by omega) Nat.one_pos
  rwa [Nat.mul_one] at hbound

theorem le_nearest_mul {num den : Nat} (hnormal : 2 ^ 52 * den ≤ num) (hden : 0 < den) :
    2 ^ 53 * num ≤ (2 ^ 53 + 1) * (nearest num den * den) := by
  have herror := nearest_error_below num hden
  have hspacing : 2 ^ 52 * spacing (num / den) ≤ nearest num den := by
    have hstep := spacing_pos (num / den)
    rw [← Nat.le_div_iff_mul_le hden] at hnormal
    refine Nat.mul_le_mul_right _ (Nat.le_trans ?_ (le_roundHalfEven _ _))
    rw [← Nat.div_div_eq_div_mul, Nat.le_div_iff_mul_le hstep]
    exact mul_spacing_le hnormal
  have hspacing' := Nat.mul_le_mul_right den hspacing
  rw [Nat.mul_assoc] at hspacing'
  omega

/-- The distance between the largest numbers. -/
def topSpacing : Nat := 2 ^ 2045

theorem topSpacing_pos : 0 < topSpacing := by decide +kernel

theorem limit_eq : limit = 2 ^ 53 * topSpacing := by decide +kernel

/-- What lies below the middle between the largest number and the limit is rounded to a
number. -/
theorem nearest_lt_limit {num den : Nat} (hbound : 2 * num < (2 ^ 54 - 1) * (topSpacing * den)) :
    nearest num den < limit := by
  have hden : 0 < den := by
    rcases Nat.eq_zero_or_pos den with rfl | hden
    · omega
    · exact hden
  have hspacing : spacing (num / den) ≤ topSpacing := by
    have hquotient : num / den < 2 ^ 2098 := by
      rw [Nat.div_lt_iff_lt_mul hden, ← limit, limit_eq, Nat.mul_assoc]
      omega
    rw [spacing, topSpacing]
    apply Nat.pow_le_pow_right (by decide)
    by_cases hzero : num / den = 0
    · rw [hzero]
      decide
    · have hlog := (Nat.log2_lt hzero).mpr hquotient
      omega
  have hspacing' := Nat.mul_le_mul_right den hspacing
  have herror := nearest_error_above num den
  have hlt : nearest num den * den < limit * den := by
    rw [limit_eq, Nat.mul_assoc]
    omega
  exact Nat.lt_of_mul_lt_mul_right hlt

end Magnitude

end RewardPlot
