import RewardPlot.Proofs.Binary64.Whole
import Mathlib.Algebra.Order.Floor.Ring
import Mathlib.Data.Rat.Floor
/-!
# Rounded operations on rational numbers

Finite numbers are rational numbers.  The result of an operation on them differs from the exact
result by at most one part in `2 ^ 53` and half a unit, as long as it stays well inside the range.
The whole part of a number is exact.
-/

namespace RewardPlot.Binary64

variable {x y : Binary64} {q : ℚ} {n : Nat}

theorem one_pos_rat : (0 : ℚ) < Magnitude.one := Nat.cast_pos.mpr Magnitude.one_pos

/-! ## Places and values -/

theorem exists_place_toRat (hx : x.isFinite) :
    ∃ a : Int, x.place = some a ∧ x.toRat = a / Magnitude.one := by
  obtain ⟨a, ha, -⟩ := exists_place_of_isFinite hx
  exact ⟨a, ha, toRat_eq hx ha⟩

theorem toRat_congr (hplace : x.place = y.place) : x.toRat = y.toRat := by
  obtain rfl | ⟨a, b, rfl, rfl⟩ := eq_or_zeros_of_place_eq hplace
  · rfl
  · have hzero (negative : Bool) : (zero negative).toRat = 0 := by
      rw [toRat_eq rfl (place_zero negative), Int.cast_zero, zero_div]
    rw [hzero, hzero]

theorem lt_iff_toRat_lt (hx : x.isFinite) (hy : y.isFinite) : x < y ↔ x.toRat < y.toRat := by
  obtain ⟨a, ha, hxa⟩ := exists_place_toRat hx
  obtain ⟨b, hb, hyb⟩ := exists_place_toRat hy
  rw [hxa, hyb, div_lt_div_iff_of_pos_right one_pos_rat, Int.cast_lt, lt_iff]
  simp only [ha, hb, Option.some.injEq, exists_and_left, exists_eq_left']

theorem le_iff_toRat_le (hx : x.isFinite) (hy : y.isFinite) : x ≤ y ↔ x.toRat ≤ y.toRat := by
  obtain ⟨a, ha, hxa⟩ := exists_place_toRat hx
  obtain ⟨b, hb, hyb⟩ := exists_place_toRat hy
  rw [hxa, hyb, div_le_div_iff_of_pos_right one_pos_rat, Int.cast_le, le_iff]
  simp only [ha, hb, Option.some.injEq, exists_and_left, exists_eq_left']

theorem toRat_neg (hx : x.isFinite) : (-x).toRat = -x.toRat := by
  obtain ⟨a, ha, hxa⟩ := exists_place_toRat hx
  have hneg : (-x).place = some (-a) := by rw [place_neg, ha, Option.map_some]
  rw [toRat_eq (isFinite_neg hx) hneg, hxa, Int.cast_neg, neg_div]

theorem toRat_abs (hx : x.isFinite) : x.abs.toRat = |x.toRat| := by
  obtain ⟨a, ha, hxa⟩ := exists_place_toRat hx
  have habs : x.abs.place = some (a.natAbs : Int) := by rw [place_abs, ha, Option.map_some]
  rw [toRat_eq (isFinite_abs hx) habs, hxa, abs_div, Nat.abs_cast, Int.cast_natCast,
    Nat.cast_natAbs, Int.cast_abs]

theorem isFinite_ofNat (hn : n ≤ 2 ^ 53) : (ofNat n).isFinite := by
  rw [← ofInt_natCast]
  exact isFinite_ofInt (by omega)

theorem toRat_ofNat (hn : n ≤ 2 ^ 53) : (ofNat n).toRat = n := by
  rw [toRat_eq (isFinite_ofNat hn) (place_ofNat hn), Int.cast_mul, Int.cast_natCast,
    Int.cast_natCast, mul_div_assoc, div_self one_pos_rat.ne', mul_one]

theorem toRat_zero : (0 : Binary64).toRat = 0 := by
  have hzero := toRat_ofNat (n := 0) (by decide)
  rwa [Nat.cast_zero] at hzero

theorem isFinite_one : (1 : Binary64).isFinite := isFinite_ofNat (n := 1) (by decide)

theorem toRat_one : (1 : Binary64).toRat = 1 := by
  have hone := toRat_ofNat (n := 1) (by decide)
  rwa [Nat.cast_one] at hone

/-- What lies beyond all numbers. -/
def ceiling : ℚ := Magnitude.limit / Magnitude.one

theorem abs_toRat_lt (hx : x.isFinite) : |x.toRat| < ceiling := by
  obtain ⟨a, ha, hlow, hhigh⟩ := exists_place_of_isFinite hx
  rw [toRat_eq hx ha, ceiling, abs_div, Nat.abs_cast, div_lt_div_iff_of_pos_right one_pos_rat,
    abs_lt]
  constructor
  · exact_mod_cast hlow
  · exact_mod_cast hhigh

/-! ## Rounding -/

def halfUnit : ℚ := 1 / (2 * Magnitude.one)

theorem halfUnit_pos : 0 < halfUnit := one_div_pos.mpr (mul_pos two_pos one_pos_rat)

theorem halfUnit_le_power : halfUnit ≤ 1 / 2 ^ 107 := by
  have hone : ((2 ^ 106 : Nat) : ℚ) ≤ Magnitude.one := Nat.cast_le.mpr Magnitude.two_pow_106_le_one
  rw [Nat.cast_pow, Nat.cast_ofNat] at hone
  rw [halfUnit]
  apply one_div_le_one_div_of_le (by norm_num)
  linarith

theorem two_pow_51_mul_limit : 2 ^ 51 * Magnitude.limit = 2 * Magnitude.one * Magnitude.one := by
  -- The powers are too large to be computed, so their exponents are kept apart.
  have hpowers : ∀ {a b m n}, m = 2 ^ a → n = 2 ^ b → 51 + a = 1 + b + b →
      2 ^ 51 * m = 2 * n * n := by
    rintro a b m n rfl rfl hexponents
    rw [← Nat.pow_add, ← Nat.pow_succ', ← Nat.pow_add, hexponents]
    congr 1
    omega
  exact hpowers Magnitude.limit.eq_1 Magnitude.one.eq_1 rfl

theorem halfUnit_mul_ceiling : halfUnit * ceiling = 1 / 2 ^ 51 := by
  have hone := one_pos_rat.ne'
  have hpowers : (2 ^ 51 * Magnitude.limit : ℚ) = 2 * Magnitude.one * Magnitude.one := by
    rw [← Nat.cast_ofNat, ← Nat.cast_pow, ← Nat.cast_mul, two_pow_51_mul_limit, Nat.cast_mul,
      Nat.cast_mul]
  rw [halfUnit, ceiling, div_mul_div_comm, one_mul, div_eq_div_iff (by positivity) (by positivity),
    one_mul, mul_comm, hpowers]

theorem two_pow_100_mul_one_le_limit : 2 ^ 100 * Magnitude.one ≤ Magnitude.limit := by
  have hpowers : ∀ {a b m n}, m = 2 ^ a → n = 2 ^ b → 100 + b ≤ a → 2 ^ 100 * n ≤ m := by
    rintro a b m n rfl rfl hexponents
    rw [← Nat.pow_add]
    exact Nat.pow_le_pow_right (by decide) hexponents
  exact hpowers Magnitude.limit.eq_1 Magnitude.one.eq_1 (by decide)

theorem two_pow_100_le_ceiling : 2 ^ 100 ≤ ceiling := by
  have hcast : ((2 ^ 100 * Magnitude.one : Nat) : ℚ) ≤ Magnitude.limit :=
    Nat.cast_le.mpr two_pow_100_mul_one_le_limit
  rw [Nat.cast_mul, Nat.cast_pow, Nat.cast_ofNat] at hcast
  rwa [ceiling, le_div_iff₀ one_pos_rat]

theorem halfUnit_mul_le (hx : x.isFinite) : halfUnit * |x.toRat| ≤ ceiling / 2 ^ 100 := by
  have hle := mul_le_mul_of_nonneg_left (abs_toRat_lt hx).le halfUnit_pos.le
  have hceiling := two_pow_100_le_ceiling
  rw [halfUnit_mul_ceiling] at hle
  linarith

theorem halfUnit_le : halfUnit ≤ ceiling / 2 ^ 100 := by
  have hle := halfUnit_mul_le (isFinite_ofNat (n := 1) (by decide))
  rwa [toRat_ofNat (by decide), Nat.cast_one, abs_one, mul_one] at hle

/-- A finite number that is hardly different from some exact one. -/
structure Near (x : Binary64) (q : ℚ) : Prop where
  isFinite : x.isFinite
  error : |x.toRat - q| ≤ |q| / 2 ^ 53 + halfUnit

theorem Near.bounds {size : ℚ} (hx : x.Near q) (hq : |q| ≤ size) :
    q - (size / 2 ^ 53 + halfUnit) ≤ x.toRat ∧ x.toRat ≤ q + (size / 2 ^ 53 + halfUnit) := by
  have herror := abs_le.mp hx.error
  constructor <;> linarith

theorem Near.congr (hx : x.Near q) (hplace : y.place = x.place) : y.Near q := by
  refine ⟨?_, ?_⟩
  · rw [isFinite_congr hplace]
    exact hx.isFinite
  · rw [toRat_congr hplace]
    exact hx.error

/-- The product of a quotient and its divisor. -/
theorem Near.mul_divisor {d s : ℚ} (hs : 0 < s) (hx : x.Near (d / s)) :
    |x.toRat * s - d| ≤ |d| / 2 ^ 53 + halfUnit * s := by
  have herror := mul_le_mul_of_nonneg_right hx.error hs.le
  have hexact : (x.toRat - d / s) * s = x.toRat * s - d := by
    rw [sub_mul, div_mul_cancel₀ _ hs.ne']
  have hsize : |d / s| * s = |d| := by rw [abs_div, abs_of_pos hs, div_mul_cancel₀ _ hs.ne']
  calc |x.toRat * s - d| = |x.toRat - d / s| * s := by rw [← hexact, abs_mul, abs_of_pos hs]
    _ ≤ (|d / s| / 2 ^ 53 + halfUnit) * s := herror
    _ = |d| / 2 ^ 53 + halfUnit * s := by rw [add_mul, div_mul_eq_mul_div, hsize]

theorem isFinite_ofQuotient {num den : Nat} (negative : Bool) (hden : 0 < den)
    (hsize : (num / den / Magnitude.one : ℚ) ≤ 15 / 16 * ceiling) :
    (ofQuotient negative num den).isFinite := by
  have hden' : (0 : ℚ) < den := Nat.cast_pos.mpr hden
  rw [ceiling, ← mul_div_assoc, div_le_div_iff_of_pos_right one_pos_rat,
    div_le_iff₀ hden'] at hsize
  have hbound : (16 * num : ℚ) ≤ 15 * (Magnitude.limit * den) := by linarith
  have hbound' : 16 * num ≤ 15 * (Magnitude.limit * den) := by exact_mod_cast hbound
  have hlimit : Magnitude.nearest num den < Magnitude.limit := by
    apply Magnitude.nearest_lt_limit
    have htop := Nat.mul_pos Magnitude.topSpacing_pos hden
    rw [Magnitude.limit_eq, Nat.mul_assoc] at hbound'
    omega
  rw [ofQuotient_eq_finite hlimit]
  rfl

theorem abs_nearest_sub_le (num : Nat) {den : Nat} (hden : 0 < den) :
    |(Magnitude.nearest num den : ℚ) - num / den| ≤ (num / den : ℚ) / 2 ^ 53 + 1 / 2 := by
  have habove := Magnitude.nearest_error_above num den
  have hbelow := Magnitude.nearest_error_below num hden
  have hspacing := Nat.mul_le_mul_right den (Magnitude.mul_spacing_le_add (num / den))
  have hquotient := Nat.div_mul_le_self num den
  rw [Nat.add_mul, Nat.mul_assoc] at hspacing
  have habove' :
      2 ^ 53 * (Magnitude.nearest num den * den) ≤ 2 ^ 53 * num + num + 2 ^ 52 * den := by omega
  have hbelow' :
      2 ^ 53 * num ≤ 2 ^ 53 * (Magnitude.nearest num den * den) + num + 2 ^ 52 * den := by omega
  have hden' : (0 : ℚ) < den := Nat.cast_pos.mpr hden
  generalize Magnitude.nearest num den = units at habove' hbelow'
  have habove'' : (2 ^ 53 * (units * den) : ℚ) ≤ 2 ^ 53 * num + num + 2 ^ 52 * den := by
    exact_mod_cast habove'
  have hbelow'' : (2 ^ 53 * num : ℚ) ≤ 2 ^ 53 * (units * den) + num + 2 ^ 52 * den := by
    exact_mod_cast hbelow'
  have hnum : (num : ℚ) = num / den * den := (div_mul_cancel₀ _ hden'.ne').symm
  generalize (num / den : ℚ) = quotient at hnum ⊢
  rw [hnum] at habove'' hbelow''
  rw [abs_le]
  constructor
  · have hle : (2 ^ 53 * quotient) * den ≤ (2 ^ 53 * units + quotient + 2 ^ 52) * den := by linarith
    have hle' := le_of_mul_le_mul_right hle hden'
    linarith
  · have hle : (2 ^ 53 * units) * den ≤ (2 ^ 53 * quotient + quotient + 2 ^ 52) * den := by linarith
    have hle' := le_of_mul_le_mul_right hle hden'
    linarith

def sign (negative : Bool) : ℚ := if negative then -1 else 1

theorem sign_mul_sign (a b : Bool) : sign a * sign b = sign (a ^^ b) := by
  cases a <;> cases b <;> norm_num [sign]

theorem abs_sign_mul (a : Bool) (q : ℚ) : |sign a * q| = |q| := by
  cases a
  · rw [sign, if_neg Bool.false_ne_true, one_mul]
  · rw [sign, if_pos rfl, neg_one_mul, abs_neg]

theorem toRat_finite (negative : Bool) (m : Magnitude) :
    (finite negative m).toRat = sign negative * m.toRat := by
  cases negative
  · exact (one_mul _).symm
  · exact (neg_one_mul _).symm

theorem quotient_nonneg (num den : Nat) : (0 : ℚ) ≤ num / den / Magnitude.one :=
  div_nonneg (div_nonneg (Nat.cast_nonneg _) (Nat.cast_nonneg _)) one_pos_rat.le

/-- A quotient of units with a sign. -/
theorem near_ofQuotient {negative : Bool} {num den : Nat} (hden : 0 < den)
    (hfinite : (ofQuotient negative num den).isFinite) :
    (ofQuotient negative num den).Near (sign negative * (num / den / Magnitude.one)) := by
  refine ⟨hfinite, ?_⟩
  have hlimit : Magnitude.nearest num den < Magnitude.limit := by
    by_contra hlimit
    rw [ofQuotient_eq_infinite (Nat.not_lt.mp hlimit)] at hfinite
    cases hfinite
  have hunit : halfUnit = 1 / 2 / Magnitude.one := by rw [halfUnit, div_div]
  rw [ofQuotient_eq_finite hlimit, toRat_finite, ← mul_sub, abs_sign_mul, abs_sign_mul,
    abs_of_nonneg (quotient_nonneg _ _), Magnitude.toRat, ← sub_div, abs_div, Nat.abs_cast,
    hunit, div_right_comm _ _ (2 ^ 53 : ℚ), ← add_div]
  exact div_le_div_of_nonneg_right (abs_nearest_sub_le num hden) one_pos_rat.le

theorem near_ofFraction {num den : Nat} (hden : 0 < den)
    (hsize : (num / den : ℚ) ≤ 15 / 16 * ceiling) : (ofFraction num den).Near (num / den) := by
  have hvalue : (num / den : ℚ) =
      sign false * ((num * Magnitude.one : Nat) / den / Magnitude.one) := by
    rw [sign, if_neg Bool.false_ne_true, one_mul, Nat.cast_mul, div_right_comm,
      mul_div_cancel_right₀ _ one_pos_rat.ne']
  rw [ofFraction, hvalue]
  rw [hvalue, sign, if_neg Bool.false_ne_true, one_mul] at hsize
  exact near_ofQuotient hden (isFinite_ofQuotient false hden hsize)

/-! ## Operations -/

theorem ofUnits_value (units : Int) :
    sign (units < 0) * ((units.natAbs : ℚ) / (1 : Nat) / Magnitude.one) =
      units / Magnitude.one := by
  rw [Nat.cast_one, div_one, Nat.cast_natAbs, Int.cast_abs, ← mul_div_assoc, sign]
  congr 1
  split_ifs with hneg
  · rw [decide_eq_true_eq] at hneg
    rw [abs_of_neg (Int.cast_lt_zero.mpr hneg), neg_one_mul, neg_neg]
  · rw [decide_eq_true_eq, not_lt] at hneg
    rw [abs_of_nonneg (Int.cast_nonneg hneg), one_mul]

theorem near_ofUnits {units : Int} (hsize : |(units : ℚ) / Magnitude.one| ≤ 15 / 16 * ceiling) :
    (ofUnits units).Near (units / Magnitude.one) := by
  rw [← ofUnits_value, abs_sign_mul, abs_of_nonneg (quotient_nonneg _ _)] at hsize
  rw [← ofUnits_value]
  exact near_ofQuotient Nat.one_pos (isFinite_ofQuotient _ Nat.one_pos hsize)

theorem near_add (hx : x.isFinite) (hy : y.isFinite)
    (hsize : |x.toRat + y.toRat| ≤ 15 / 16 * ceiling) : (x + y).Near (x.toRat + y.toRat) := by
  obtain ⟨a, ha, hxa⟩ := exists_place_toRat hx
  obtain ⟨b, hb, hyb⟩ := exists_place_toRat hy
  have hsum : x.toRat + y.toRat = (a + b : Int) / Magnitude.one := by
    rw [hxa, hyb, ← add_div, Int.cast_add]
  rw [hsum] at hsize ⊢
  exact (near_ofUnits hsize).congr (place_add hx hy ha hb)

theorem near_sub (hx : x.isFinite) (hy : y.isFinite)
    (hsize : |x.toRat - y.toRat| ≤ 15 / 16 * ceiling) : (x - y).Near (x.toRat - y.toRat) := by
  rw [sub_eq_add_neg, ← toRat_neg hy] at hsize ⊢
  exact near_add hx (isFinite_neg hy) hsize

theorem toRat_mul_toRat (a b : Bool) (m n : Magnitude) :
    (finite a m).toRat * (finite b n).toRat =
      sign (a ^^ b) * ((m.units * n.units : Nat) / Magnitude.one / Magnitude.one) := by
  rw [toRat_finite, toRat_finite, mul_mul_mul_comm, sign_mul_sign, Magnitude.toRat,
    Magnitude.toRat, div_mul_div_comm, div_div, Nat.cast_mul]

/-- A product, if it is finite. -/
theorem near_mul_of_isFinite (hx : x.isFinite) (hy : y.isFinite) (hxy : (x * y).isFinite) :
    (x * y).Near (x.toRat * y.toRat) := by
  cases x with
  | nan | infinite => cases hx
  | finite a m =>
      cases y with
      | nan | infinite => cases hy
      | finite b n =>
          rw [finite_mul] at hxy ⊢
          rw [toRat_mul_toRat]
          exact near_ofQuotient Magnitude.one_pos hxy

theorem near_mul (hx : x.isFinite) (hy : y.isFinite)
    (hsize : |x.toRat * y.toRat| ≤ 15 / 16 * ceiling) : (x * y).Near (x.toRat * y.toRat) := by
  apply near_mul_of_isFinite hx hy
  cases x with
  | nan | infinite => cases hx
  | finite a m =>
      cases y with
      | nan | infinite => cases hy
      | finite b n =>
          rw [toRat_mul_toRat, abs_sign_mul, abs_of_nonneg (quotient_nonneg _ _)] at hsize
          rw [finite_mul]
          exact isFinite_ofQuotient _ Magnitude.one_pos hsize

theorem units_ne_zero {negative : Bool} {m : Magnitude} (hzero : (finite negative m).toRat ≠ 0) :
    m.units ≠ 0 := by
  intro hunits
  rw [toRat_finite, Magnitude.toRat, hunits, Nat.cast_zero, zero_div, mul_zero] at hzero
  exact hzero rfl

theorem toRat_div_toRat (a b : Bool) (m n : Magnitude) :
    (finite a m).toRat / (finite b n).toRat =
      sign (a ^^ b) * ((m.units * Magnitude.one : Nat) / n.units / Magnitude.one) := by
  have hone := one_pos_rat.ne'
  have hparts : ((m.units * Magnitude.one : Nat) / n.units / Magnitude.one : ℚ) =
      m.toRat / n.toRat := by
    rw [Magnitude.toRat, Magnitude.toRat, div_div_div_cancel_right₀ hone, Nat.cast_mul,
      div_right_comm, mul_div_cancel_right₀ _ hone]
  have hsign : sign a / sign b = sign (a ^^ b) := by
    cases a <;> cases b <;> norm_num [sign]
  rw [toRat_finite, toRat_finite, mul_div_mul_comm, hsign, hparts]

/-- A quotient, if it is finite. -/
theorem near_div_of_isFinite (hx : x.isFinite) (hy : y.isFinite) (hzero : y.toRat ≠ 0)
    (hxy : (x / y).isFinite) : (x / y).Near (x.toRat / y.toRat) := by
  cases x with
  | nan | infinite => cases hx
  | finite a m =>
      cases y with
      | nan | infinite => cases hy
      | finite b n =>
          have hn := units_ne_zero hzero
          rw [finite_div hn] at hxy ⊢
          rw [toRat_div_toRat]
          exact near_ofQuotient (Nat.pos_of_ne_zero hn) hxy

theorem near_div (hx : x.isFinite) (hy : y.isFinite) (hzero : y.toRat ≠ 0)
    (hsize : |x.toRat / y.toRat| ≤ 15 / 16 * ceiling) : (x / y).Near (x.toRat / y.toRat) := by
  apply near_div_of_isFinite hx hy hzero
  cases x with
  | nan | infinite => cases hx
  | finite a m =>
      cases y with
      | nan | infinite => cases hy
      | finite b n =>
          have hn := units_ne_zero hzero
          rw [toRat_div_toRat, abs_sign_mul, abs_of_nonneg (quotient_nonneg _ _)] at hsize
          rw [finite_div hn]
          exact isFinite_ofQuotient _ (Nat.pos_of_ne_zero hn) hsize

/-! ## Signs -/

theorem zero_lt_finite_iff {a : Bool} {m : Magnitude} :
    0 < finite a m ↔ a = false ∧ m.units ≠ 0 := by
  rw [lt_iff, place_ofNat_zero, place_finite, signed]
  cases a <;> simp [Nat.pos_iff_ne_zero]

theorem toRat_pos_iff (hx : x.isFinite) : 0 < x.toRat ↔ 0 < x := by
  rw [lt_iff_toRat_lt isFinite_zero hx, toRat_zero]

theorem toRat_nonneg_iff (hx : x.isFinite) : 0 ≤ x.toRat ↔ 0 ≤ x := by
  rw [le_iff_toRat_le isFinite_zero hx, toRat_zero]

theorem toRat_sub_zero (hx : x.isFinite) : (x - 0).toRat = x.toRat := by
  apply toRat_congr
  have hzero : x - 0 = x + zero true := by
    rw [ofNat_zero]
    rfl
  rw [hzero, place_add_zero x true false, ← ofNat_zero, place_add_ofNat_zero hx]

theorem zero_le_sub (hx : x.isFinite) (hy : y.isFinite) (hle : y ≤ x) : 0 ≤ x - y := by
  obtain ⟨b, a, hb, ha, hba⟩ := le_iff.mp hle
  have hzero : (ofUnits 0).place = some 0 := by
    rw [ofUnits, Int.natAbs_zero, ofQuotient_zero, place_zero]
  have hmono := ofUnits_mono (show 0 ≤ a - b by omega)
  exact (le_congr (place_ofNat_zero.trans hzero.symm) (place_sub hx hy ha hb)).mpr hmono

theorem zero_le_div (hx : x.isFinite) (hy : y.isFinite) (hx0 : 0 ≤ x) (hy0 : 0 < y) :
    0 ≤ x / y := by
  cases x with
  | nan | infinite => cases hx
  | finite a m =>
      cases y with
      | nan | infinite => cases hy
      | finite b n =>
          obtain ⟨rfl, hn⟩ := zero_lt_finite_iff.mp hy0
          rw [finite_div hn]
          rcases zero_le_finite_iff.mp hx0 with rfl | hm
          · exact zero_le_ofQuotient _ _
          · rw [hm, Nat.zero_mul, ofQuotient_zero]
            exact le_of_places place_ofNat_zero (place_zero _) (Int.le_refl 0)

/-! ## Results that are finite -/

theorem isFinite_of_sub (hxy : (x - y).isFinite) : x.isFinite ∧ y.isFinite := by
  obtain ⟨hx, hy⟩ := isFinite_of_add (y := -y) hxy
  cases y with
  | nan | infinite => cases hy
  | finite b n => exact ⟨hx, rfl⟩

theorem isFinite_of_mul (hxy : (x * y).isFinite) : x.isFinite ∧ y.isFinite := by
  change (mul x y).isFinite at hxy
  cases x with
  | nan => cases hxy
  | infinite a =>
      cases y with
      | nan | infinite => cases hxy
      | finite b n =>
          rw [mul] at hxy
          split at hxy <;> cases hxy
  | finite a m =>
      cases y with
      | nan => cases hxy
      | infinite b =>
          rw [mul] at hxy
          split at hxy <;> cases hxy
      | finite b n => exact ⟨rfl, rfl⟩

theorem isFinite_of_div (hxy : (x / y).isFinite) : x.isFinite := by
  change (div x y).isFinite at hxy
  cases x with
  | nan => cases hxy
  | infinite a => cases y <;> cases hxy
  | finite a m => rfl

theorem isFinite_of_floor (hx : x.floor.isFinite) : x.isFinite := by
  cases x with
  | nan | infinite => cases hx
  | finite a m => rfl

/-! ## Whole parts -/

theorem one_dvd_of_large {units : Nat} (hdvd : Magnitude.spacing units ∣ units)
    (hlarge : 2 ^ 53 * Magnitude.one ≤ units) : Magnitude.one ∣ units := by
  obtain ⟨k, hk⟩ := Magnitude.one_eq_two_pow
  have hone := Magnitude.one_pos
  have hlog : 53 + k ≤ units.log2 := by
    rw [Nat.le_log2 (by omega), Nat.pow_add, ← hk]
    exact hlarge
  refine Nat.dvd_trans ?_ hdvd
  rw [hk, Magnitude.spacing]
  exact Nat.pow_dvd_pow 2 (by omega)

/-- A whole number of at most 53 digits, or a number of the format that is whole. -/
theorem ofQuotient_whole (negative : Bool) {k : Nat} {m : Magnitude}
    (hk : k ≤ 2 ^ 53 ∨ k * Magnitude.one = m.units) :
    (ofQuotient negative (k * Magnitude.one) 1).isFinite ∧
      (ofQuotient negative (k * Magnitude.one) 1).toRat = sign negative * k := by
  have hrepresentable : Magnitude.Representable (k * Magnitude.one) := by
    rcases hk with hk | hk
    · rw [Nat.mul_comm]
      exact ⟨Magnitude.one_mul_lt_limit hk, Magnitude.spacing_dvd_whole hk⟩
    · rw [hk]
      exact m.representable
  rw [ofQuotient_exact hrepresentable.1 hrepresentable.2]
  refine ⟨rfl, ?_⟩
  rw [toRat_finite, Magnitude.toRat]
  dsimp only
  rw [Nat.cast_mul, mul_div_assoc, div_self one_pos_rat.ne', mul_one]

theorem small_or_whole (m : Magnitude) :
    m.units < 2 ^ 53 * Magnitude.one ∨ Magnitude.one ∣ m.units := by
  rcases Nat.lt_or_ge m.units (2 ^ 53 * Magnitude.one) with hsmall | hlarge
  · exact .inl hsmall
  · exact .inr (one_dvd_of_large m.representable.2 hlarge)

theorem toRat_floor_of_nonneg (m : Magnitude) :
    (finite false m).floor.isFinite ∧
      (finite false m).floor.toRat = ⌊(m.units / Magnitude.one : ℚ)⌋ := by
  have hk : m.units / Magnitude.one ≤ 2 ^ 53 ∨
      m.units / Magnitude.one * Magnitude.one = m.units := by
    refine (small_or_whole m).imp (fun hsmall => ?_) Nat.div_mul_cancel
    exact Nat.le_of_lt ((Nat.div_lt_iff_lt_mul Magnitude.one_pos).mpr hsmall)
  obtain ⟨hfinite, hvalue⟩ := ofQuotient_whole false hk
  refine ⟨hfinite, hvalue.trans ?_⟩
  rw [sign, if_neg Bool.false_ne_true, one_mul, Rat.floor_natCast_div_natCast, ← Int.natCast_ediv,
    Int.cast_natCast]

/-- Below zero the magnitude goes up to the next whole number. -/
theorem floor_neg_eq {units k : Nat} (hlow : units ≤ k * Magnitude.one)
    (hhigh : k * Magnitude.one < units + Magnitude.one) :
    ⌊(-(units / Magnitude.one) : ℚ)⌋ = -(k : Int) := by
  have hone := one_pos_rat
  have hlow' : (units : ℚ) ≤ k * Magnitude.one := by exact_mod_cast hlow
  have hhigh' : (k * Magnitude.one : ℚ) < units + Magnitude.one := by exact_mod_cast hhigh
  have hquotient : (units / Magnitude.one : ℚ) ≤ k := (div_le_iff₀ hone).mpr hlow'
  have hquotient' : (k - 1 : ℚ) < units / Magnitude.one := by
    rw [lt_div_iff₀ hone]
    linarith
  rw [Int.floor_eq_iff, Int.cast_neg, Int.cast_natCast]
  constructor <;> linarith

theorem toRat_floor_of_neg (m : Magnitude) :
    (finite true m).floor.isFinite ∧
      (finite true m).floor.toRat = ⌊(-(m.units / Magnitude.one) : ℚ)⌋ := by
  have hone := Magnitude.one_pos
  generalize hup : (m.units + (Magnitude.one - 1)) / Magnitude.one = k
  have hdivision := Nat.div_add_mod (m.units + (Magnitude.one - 1)) Magnitude.one
  have hmod := Nat.mod_lt (m.units + (Magnitude.one - 1)) hone
  rw [hup, Nat.mul_comm] at hdivision
  have hlow : m.units ≤ k * Magnitude.one := by omega
  have hhigh : k * Magnitude.one < m.units + Magnitude.one := by omega
  have hk : k ≤ 2 ^ 53 ∨ k * Magnitude.one = m.units := by
    refine (small_or_whole m).imp (fun hsmall => ?_) (fun hdvd => ?_)
    · have hless : k * Magnitude.one < (2 ^ 53 + 1) * Magnitude.one := by
        rw [Nat.add_one_mul]
        omega
      have hless' := Nat.lt_of_mul_lt_mul_right hless
      omega
    · obtain ⟨j, hj⟩ := hdvd
      rw [hj, Nat.mul_comm k] at hlow hhigh ⊢
      rw [← Nat.mul_add_one] at hhigh
      have hless := Nat.lt_of_mul_lt_mul_left hhigh
      have hle := Nat.le_of_mul_le_mul_left hlow hone
      rw [show k = j by omega]
  obtain ⟨hfinite, hvalue⟩ := ofQuotient_whole true hk
  have hfloor : (finite true m).floor = ofQuotient true (k * Magnitude.one) 1 := by
    rw [floor, hup]
  rw [hfloor]
  refine ⟨hfinite, hvalue.trans ?_⟩
  rw [sign, if_pos rfl, neg_one_mul, floor_neg_eq hlow hhigh, Int.cast_neg, Int.cast_natCast]

theorem toRat_floor (hx : x.isFinite) : x.floor.isFinite ∧ x.floor.toRat = ⌊x.toRat⌋ := by
  cases x with
  | nan | infinite => cases hx
  | finite negative m =>
      rw [toRat_finite, Magnitude.toRat]
      cases negative
      · rw [sign, if_neg Bool.false_ne_true, one_mul]
        exact toRat_floor_of_nonneg m
      · rw [sign, if_pos rfl, neg_one_mul]
        exact toRat_floor_of_neg m

theorem toRat_floor_nonneg (hx : x.isFinite) (hx0 : 0 ≤ x.toRat) : 0 ≤ x.floor.toRat := by
  rw [(toRat_floor hx).2]
  exact Int.cast_nonneg (Int.floor_nonneg.mpr hx0)

theorem toRat_floor_le_of_neg (hx : x.isFinite) (hneg : x.toRat < 0) : x.floor.toRat ≤ -1 := by
  have hless : ⌊x.toRat⌋ < 0 := Int.floor_lt.mpr (by rwa [Int.cast_zero])
  rw [(toRat_floor hx).2]
  exact_mod_cast Int.le_sub_one_of_lt hless

theorem round_near (hx : x.isFinite) (hsmall : |x.toRat| ≤ 2 ^ 52) :
    x.round.isFinite ∧ |x.round.toRat - x.toRat| ≤ 1 / 2 := by
  have hone := Magnitude.one_pos
  have hone' := one_pos_rat
  cases x with
  | nan | infinite => cases hx
  | finite negative m =>
      generalize hnear : (2 * m.units + Magnitude.one) / (2 * Magnitude.one) = k
      have hdivision := Nat.div_add_mod (2 * m.units + Magnitude.one) (2 * Magnitude.one)
      have hmod := Nat.mod_lt (2 * m.units + Magnitude.one) (Nat.mul_pos Nat.two_pos hone)
      rw [hnear, Nat.mul_right_comm, Nat.mul_assoc] at hdivision
      have hsize : m.units ≤ 2 ^ 52 * Magnitude.one := by
        rw [toRat_finite, abs_sign_mul, Magnitude.toRat, abs_div, Nat.abs_cast, Nat.abs_cast,
          div_le_iff₀ hone'] at hsmall
        rw [← Nat.cast_le (α := ℚ), Nat.cast_mul, Nat.cast_pow, Nat.cast_ofNat]
        exact hsmall
      have hk : k ≤ 2 ^ 53 := by
        have hle : k * Magnitude.one ≤ 2 ^ 53 * Magnitude.one := by omega
        exact Nat.le_of_mul_le_mul_right hle hone
      obtain ⟨hfinite, hvalue⟩ := ofQuotient_whole negative (m := m) (.inl hk)
      have hround : (finite negative m).round = ofQuotient negative (k * Magnitude.one) 1 := by
        rw [round, hnear]
      have hlow : (2 * (k * Magnitude.one) : ℚ) ≤ 2 * m.units + Magnitude.one := by
        exact_mod_cast (show 2 * (k * Magnitude.one) ≤ 2 * m.units + Magnitude.one by omega)
      have hhigh : (2 * m.units : ℚ) ≤ 2 * (k * Magnitude.one) + Magnitude.one := by
        exact_mod_cast (show 2 * m.units ≤ 2 * (k * Magnitude.one) + Magnitude.one by omega)
      have hvalue' : (m.toRat * Magnitude.one : ℚ) = m.units := div_mul_cancel₀ _ hone'.ne'
      rw [hround]
      refine ⟨hfinite, ?_⟩
      rw [hvalue, toRat_finite, ← mul_sub, abs_sign_mul, abs_le]
      rw [← hvalue'] at hlow hhigh
      have hlow' : (2 * k : ℚ) * Magnitude.one ≤ (2 * m.toRat + 1) * Magnitude.one := by linarith
      have hhigh' : (2 * m.toRat) * Magnitude.one ≤ (2 * k + 1 : ℚ) * Magnitude.one := by linarith
      have hbelow := le_of_mul_le_mul_right hlow' hone'
      have habove := le_of_mul_le_mul_right hhigh' hone'
      constructor <;> linarith

/-- A count tells how far a number reaches. -/
theorem lt_toCount_iff (hx : x.isFinite) (hn : n < maxCount) :
    n < x.toCount ↔ (n + 1 : ℚ) ≤ x.toRat := by
  cases x with
  | nan | infinite => cases hx
  | finite negative m =>
      have hone := one_pos_rat
      have hreach : (n + 1 : ℚ) ≤ m.toRat ↔ n + 1 ≤ m.units / Magnitude.one := by
        rw [Magnitude.toRat, le_div_iff₀ hone, Nat.le_div_iff_mul_le Magnitude.one_pos]
        exact_mod_cast Iff.rfl
      cases negative
      · rw [toRat_finite, sign, if_neg Bool.false_ne_true, one_mul, hreach]
        exact Nat.lt_min.trans (and_iff_left hn)
      · have hsize : (0 : ℚ) ≤ m.toRat := div_nonneg (Nat.cast_nonneg _) hone.le
        have hcount : (0 : ℚ) ≤ n := Nat.cast_nonneg n
        rw [toRat_finite, sign, if_pos rfl, neg_one_mul]
        constructor
        · exact fun hless => absurd hless (Nat.not_lt_zero n)
        · intro hle
          linarith

end RewardPlot.Binary64
