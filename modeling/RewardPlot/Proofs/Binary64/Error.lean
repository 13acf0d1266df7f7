import RewardPlot.Proofs.Binary64.Nearest
/-!
# The error of an operation

A sum is a whole number of units before it is rounded, so its error is at most one part in
`2 ^ 53`, however small it is.  A product also loses up to half a unit.
-/

namespace RewardPlot

namespace Magnitude

/-- Powers that are too large to be computed, compared by their exponents. -/
theorem le_of_two_pow {d e m n : Nat} (hm : m = 2 ^ d) (hn : n = 2 ^ e) (hde : d ≤ e) : m ≤ n := by
  rw [hm, hn]
  exact Nat.pow_le_pow_right (by decide) hde

theorem two_pow_72_le_one : 2 ^ 72 ≤ one := le_of_two_pow rfl one.eq_1 (by decide)

theorem one_le_topSpacing : one ≤ topSpacing := le_of_two_pow one.eq_1 topSpacing.eq_1 (by decide)

theorem mul_spacing_le_add (units : Nat) : 2 ^ 52 * spacing units ≤ units + 2 ^ 52 := by
  by_cases hnormal : 2 ^ 52 ≤ units
  · have hspacing := mul_spacing_le hnormal
    omega
  · rw [spacing_of_small (by omega)]
    omega

theorem nearest_one_near (n : Nat) :
    2 ^ 53 * nearest n 1 ≤ 2 ^ 53 * n + n ∧ 2 ^ 53 * n ≤ 2 ^ 53 * nearest n 1 + n := by
  by_cases hsmall : n < 2 ^ 53
  · have hsame : nearest n 1 = n := by
      apply nearest_self
      rw [spacing_of_small hsmall]
      exact Nat.one_dvd n
    rw [hsame]
    omega
  · have habove := nearest_error_above n 1
    have hbelow := nearest_error_below n Nat.one_pos
    have hspacing := mul_spacing_le (show 2 ^ 52 ≤ n by omega)
    rw [Nat.div_one] at habove hbelow
    omega

/-- A quotient is not rounded far down. -/
theorem le_nearest_mul_add (num : Nat) {den : Nat} (hden : 0 < den) :
    (2 ^ 53 - 1) * num ≤ (2 ^ 53 * nearest num den + 2 ^ 52) * den := by
  have herror := nearest_error_below num hden
  have hspacing := Nat.mul_le_mul_right den (mul_spacing_le_add (num / den))
  have hquotient := Nat.div_mul_le_self num den
  rw [Nat.add_mul, Nat.mul_assoc] at hspacing
  rw [Nat.add_mul, Nat.mul_assoc]
  omega

end Magnitude

namespace Binary64

variable {x y : Binary64} {a b r : Int}

/-! ## Sums -/

theorem place_add (hx : x.isFinite) (hy : y.isFinite) (ha : x.place = some a)
    (hb : y.place = some b) : (x + y).place = (ofUnits (a + b)).place := by
  cases x with
  | nan | infinite => cases hx
  | finite c m =>
      cases y with
      | nan | infinite => cases hy
      | finite d n =>
          rw [place_finite, Option.some.injEq] at ha hb
          rw [place_finite_add, ha, hb]

theorem isFinite_of_add (hxy : (x + y).isFinite) : x.isFinite ∧ y.isFinite := by
  cases x with
  | nan => cases hxy
  | infinite c =>
      cases y with
      | nan => cases hxy
      | infinite d => cases c <;> cases d <;> cases hxy
      | finite d n => cases hxy
  | finite c m =>
      cases y with
      | nan | infinite => cases hxy
      | finite d n => exact ⟨rfl, rfl⟩

theorem isFinite_congr (hplace : x.place = y.place) : x.isFinite = y.isFinite := by
  obtain rfl | ⟨c, d, rfl, rfl⟩ := eq_or_zeros_of_place_eq hplace
  · rfl
  · rfl

theorem reach_of_lt {n : Nat} (hreach : reach n < Magnitude.limit) : reach n = n := by
  rcases Nat.le_total n Magnitude.limit with hle | hle
  · exact Nat.min_eq_left hle
  · have hlimit : reach n = Magnitude.limit := Nat.min_eq_right hle
    omega

theorem near_of_place_ofUnits {u : Int} (hfinite : (ofUnits u).isFinite)
    (hr : (ofUnits u).place = some r) : 2 ^ 53 * (r - u).natAbs ≤ u.natAbs := by
  obtain ⟨r', hr', hlow, hhigh⟩ := exists_place_of_isFinite hfinite
  cases hr.symm.trans hr'
  rw [place_ofUnits, Option.some.injEq] at hr
  have hreach : reach (Magnitude.nearest u.natAbs 1) = Magnitude.nearest u.natAbs 1 := by
    apply reach_of_lt
    split_ifs at hr <;> omega
  obtain ⟨habove, hbelow⟩ := Magnitude.nearest_one_near u.natAbs
  rw [hreach] at hr
  split_ifs at hr <;> omega

/-- A sum differs from the exact sum by at most one part in `2 ^ 53`. -/
theorem near_of_add (hxy : (x + y).isFinite) (ha : x.place = some a) (hb : y.place = some b) :
    ∃ r, (x + y).place = some r ∧ 2 ^ 53 * (r - (a + b)).natAbs ≤ (a + b).natAbs := by
  obtain ⟨hx, hy⟩ := isFinite_of_add hxy
  have hplace := place_add hx hy ha hb
  obtain ⟨r, hr, -⟩ := exists_place_of_isFinite hxy
  refine ⟨r, hr, near_of_place_ofUnits ?_ (hplace ▸ hr)⟩
  rw [← isFinite_congr hplace, hxy]

theorem near_of_sub (hxy : (x - y).isFinite) (ha : x.place = some a) (hb : y.place = some b) :
    ∃ r, (x - y).place = some r ∧ 2 ^ 53 * (r - (a - b)).natAbs ≤ (a - b).natAbs := by
  have hneg : (-y).place = some (-b) := by rw [place_neg, hb, Option.map_some]
  exact near_of_add hxy ha hneg

theorem place_sub (hx : x.isFinite) (hy : y.isFinite) (ha : x.place = some a)
    (hb : y.place = some b) : (x - y).place = (ofUnits (a - b)).place := by
  have hneg : (-y).place = some (-b) := by rw [place_neg, hb, Option.map_some]
  exact place_add hx (isFinite_neg hy) ha hneg

/-- A sum of at most half the limit is finite. -/
theorem isFinite_ofUnits {u : Int} (hu : 2 * u.natAbs ≤ Magnitude.limit) :
    (ofUnits u).isFinite := by
  have hlimit : Magnitude.nearest u.natAbs 1 < Magnitude.limit := by
    apply Magnitude.nearest_lt_limit
    have htop := Magnitude.topSpacing_pos
    rw [Magnitude.limit_eq] at hu
    omega
  rw [ofUnits, ofQuotient_eq_finite hlimit]
  rfl

/-! ## Products with a share -/

/-- A number that is hardly less than one part of so many. -/
def IsShare (share : Binary64) (parts : Nat) : Prop :=
  ∃ c : Magnitude, share = finite false c ∧
    2 ^ 53 * Magnitude.one ≤ (2 ^ 53 + 1) * (c.units * parts)

theorem isShare_ofFraction {num den parts : Nat} (hnum : 0 < num) (hparts : 0 < parts)
    (hfew : parts ≤ 2 ^ 20) (hsplit : den = num * parts) : IsShare (ofFraction num den) parts := by
  subst hsplit
  have hden : 0 < num * parts := Nat.mul_pos hnum hparts
  have hnormal : 2 ^ 52 * (num * parts) ≤ num * Magnitude.one := by
    rw [Nat.mul_left_comm]
    apply Nat.mul_le_mul_left
    have hone := Magnitude.two_pow_72_le_one
    omega
  have hlimit : Magnitude.nearest (num * Magnitude.one) (num * parts) < Magnitude.limit := by
    apply Magnitude.nearest_lt_limit
    have htop := Nat.mul_le_mul_left num Magnitude.one_le_topSpacing
    have hwhole := Nat.mul_le_mul_left Magnitude.topSpacing (Nat.le_mul_of_pos_right num hparts)
    have hpos := Nat.mul_pos Magnitude.topSpacing_pos hden
    rw [Nat.mul_comm num Magnitude.topSpacing] at htop
    omega
  refine ⟨_, ofQuotient_eq_finite hlimit, ?_⟩
  dsimp only
  have hbelow := Magnitude.le_nearest_mul hnormal hden
  generalize Magnitude.nearest (num * Magnitude.one) (num * parts) = c at hbelow
  apply Nat.le_of_mul_le_mul_left _ hnum
  calc
    num * (2 ^ 53 * Magnitude.one) = 2 ^ 53 * (num * Magnitude.one) := Nat.mul_left_comm _ _ _
    _ ≤ (2 ^ 53 + 1) * (c * (num * parts)) := hbelow
    _ = num * ((2 ^ 53 + 1) * (c * parts)) := by grind

theorem le_nearest_share {k c parts : Nat}
    (hshare : 2 ^ 53 * Magnitude.one ≤ (2 ^ 53 + 1) * (c * parts)) :
    198 * k ≤ 100 * (parts * (2 * Magnitude.nearest (k * c) Magnitude.one + 1)) := by
  have hproduct := Magnitude.le_nearest_mul_add (k * c) Magnitude.one_pos
  generalize Magnitude.nearest (k * c) Magnitude.one = q at hproduct
  generalize hone : Magnitude.one = one at hshare hproduct
  have hk : 2 ^ 53 * (one * k) ≤ (2 ^ 53 + 1) * (parts * (k * c)) := by
    have hmul := Nat.mul_le_mul_right k hshare
    grind
  have hq : (2 ^ 53 - 1) * (parts * (k * c)) ≤
      2 ^ 52 * (one * (parts * (2 * q + 1))) := by
    have hmul := Nat.mul_le_mul_left parts hproduct
    grind
  have hless : one * (198 * k) ≤ one * (100 * (parts * (2 * q + 1))) := by
    rw [Nat.mul_left_comm, Nat.mul_left_comm _ 100]
    omega
  exact Nat.le_of_mul_le_mul_left hless (hone ▸ Magnitude.one_pos)

/-- A share of a number is hardly less than its exact part, but for half a unit. -/
theorem le_mul_share {share : Binary64} {parts : Nat} (hshare : IsShare share parts)
    (hparts : 0 < parts) (hx : x.isFinite) (ha : x.place = some a) (hpos : 0 ≤ a) :
    ∃ q, (x * share).place = some q ∧ 198 * a ≤ 100 * (parts * (2 * q + 1)) := by
  obtain ⟨c, rfl, hc⟩ := hshare
  cases x with
  | nan | infinite => cases hx
  | finite negative m =>
      rw [place_finite, Option.some.injEq] at ha
      have hunits : a = m.units := by
        rw [signed] at ha
        split_ifs at ha <;> omega
      have hplace : (finite negative m).place = (finite false m).place := by
        rw [place_finite, place_finite, ha, hunits]
        rfl
      have hproduct : (finite negative m * finite false c).place =
          some (reach (Magnitude.nearest (m.units * c.units) Magnitude.one) : Int) := by
        rw [mul_congr hplace, finite_mul, Bool.xor_false, place_ofQuotient_false]
      refine ⟨_, hproduct, ?_⟩
      have hless : 198 * m.units ≤ 100 *
          (parts * (2 * reach (Magnitude.nearest (m.units * c.units) Magnitude.one) + 1)) := by
        have hlimit : m.units < Magnitude.limit := m.representable.1
        have hle := le_nearest_share (k := m.units) hc
        generalize Magnitude.nearest (m.units * c.units) Magnitude.one = q at hle
        rcases Nat.le_total q Magnitude.limit with hq | hq
        · rw [show reach q = q from Nat.min_eq_left hq]
          exact hle
        · rw [show reach q = Magnitude.limit from Nat.min_eq_right hq]
          have hmul := Nat.le_mul_of_pos_left (2 * Magnitude.limit + 1) hparts
          omega
      generalize reach (Magnitude.nearest (m.units * c.units) Magnitude.one) = q at hless
      rw [hunits]
      exact_mod_cast hless

/-! ## Rational numbers -/

/-- The rational number that a finite number is. -/
def toRat : Binary64 → ℚ
  | .finite negative m => if negative then -m.toRat else m.toRat
  | _ => 0

theorem toRat_eq (hx : x.isFinite) (ha : x.place = some a) : x.toRat = a / Magnitude.one := by
  cases x with
  | nan | infinite => cases hx
  | finite negative m =>
      rw [place_finite, Option.some.injEq] at ha
      rw [toRat, ← ha, signed, Magnitude.toRat]
      split_ifs
      · rw [Int.cast_neg, Int.cast_natCast, neg_div]
      · rw [Int.cast_natCast]

end Binary64

end RewardPlot
