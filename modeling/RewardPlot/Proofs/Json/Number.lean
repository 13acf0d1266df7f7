import RewardPlot.Json.Number
import RewardPlot.Decimal.Written
import RewardPlot.Proofs.Binary64.Monotone
import RewardPlot.Proofs.Decimal.Rounding
/-!
# Numbers that are read after they were written

The digits of a shortest decimal fit into 64 bits, so none of them is dropped; and neither
they nor their power of ten nor the product of both leaves the finite range.
-/

namespace RewardPlot.Json.Number

/-! ## Digits that are kept -/

theorem le_ofDigitChars (cs : List Char) (n : Nat) : n ≤ Nat.ofDigitChars 10 cs n := by
  induction cs generalizing n with
  | nil => exact Nat.le_of_eq Nat.ofDigitChars_nil.symm
  | cons c cs ih =>
      rw [Nat.ofDigitChars_cons]
      have hnext := ih (10 * n + (c.toNat - '0'.toNat))
      omega

theorem ofDigitChars_cons_eq (c : Char) (cs : List Char) (n : Nat) :
    Nat.ofDigitChars 10 (c :: cs) n = Nat.ofDigitChars 10 cs (extend n c) :=
  Nat.ofDigitChars_cons

theorem keepWhole_of_lt {n : Nat} {cs : List Char}
    (hfits : Nat.ofDigitChars 10 cs n < wordLimit) :
    keepWhole n cs = ⟨Nat.ofDigitChars 10 cs n, 0⟩ := by
  induction cs generalizing n with
  | nil => rw [keepWhole, Nat.ofDigitChars_nil]
  | cons c cs ih =>
      rw [ofDigitChars_cons_eq] at hfits ⊢
      rw [keepWhole, if_pos (Nat.lt_of_le_of_lt (le_ofDigitChars _ _) hfits)]
      exact ih hfits

theorem keepFraction_of_lt {n : Nat} {e : Int} {cs : List Char}
    (hfits : Nat.ofDigitChars 10 cs n < wordLimit) :
    keepFraction ⟨n, e⟩ cs = ⟨Nat.ofDigitChars 10 cs n, e - cs.length⟩ := by
  induction cs generalizing n e with
  | nil =>
      rw [keepFraction, Nat.ofDigitChars_nil]
      congr 1
      exact (Int.sub_zero e).symm
  | cons c cs ih =>
      rw [ofDigitChars_cons_eq] at hfits ⊢
      rw [keepFraction, if_pos (Nat.lt_of_le_of_lt (le_ofDigitChars _ _) hfits), ih hfits,
        List.length_cons]
      congr 1
      show e - 1 - (cs.length : Int) = e - (cs.length + 1 : Nat)
      omega

theorem keepFraction_keepWhole {whole fraction : List Char}
    (hfits : Nat.ofDigitChars 10 (whole ++ fraction) 0 < wordLimit) :
    keepFraction (keepWhole 0 whole) fraction =
      ⟨Nat.ofDigitChars 10 (whole ++ fraction) 0, -fraction.length⟩ := by
  rw [Nat.ofDigitChars_append] at hfits ⊢
  rw [keepWhole_of_lt (Nat.lt_of_le_of_lt (le_ofDigitChars _ _) hfits),
    keepFraction_of_lt hfits, Int.zero_sub]

/-! ## Scaling -/

/-- The number with its power of ten, wherever it lies. -/
def Kept.value (k : Kept) : Binary64 :=
  if k.exponent < 0 then divideDown 3 (.ofNat k.significand) k.exponent
  else .ofNat k.significand * tenTo k.exponent.toNat

theorem scale?_of_neg {k : Kept} (hexponent : k.exponent < 0) : scale? k = some k.value := by
  rw [scale?, Kept.value]
  dsimp only
  rw [if_pos hexponent, if_pos hexponent]

theorem scale?_of_isFinite {k : Kept} (hrange : k.exponent ≤ largestPower)
    (hfinite : k.value.isFinite) : scale? k = some k.value := by
  by_cases hexponent : k.exponent < 0
  · exact scale?_of_neg hexponent
  · rw [Kept.value, if_neg hexponent] at hfinite
    rw [scale?, Kept.value]
    dsimp only
    rw [if_neg hexponent, if_neg hexponent, if_pos hrange, if_pos hfinite]

/-- The digits and the power of ten that are kept of a written decimal: a whole number that
is written out has gained a zero after the point. -/
def keptOf (d : Decimal) : Kept :=
  if 0 ≤ d.exponent ∧ d.firstPlace ≤ 15 then ⟨d.significand * 10 ^ (d.exponent.toNat + 1), -1⟩
  else ⟨d.significand, d.exponent⟩

/-! ## Products with powers of ten -/

open Magnitude
open Binary64 (finite_div finite_mul ofNat_exact ofQuotient_eq_finite ofQuotient_exact
  ofQuotient_ne_nan)

/-- The error of a product of two rounded numbers, each with an error of its own. -/
theorem product_bound {a b m n exact : Nat} (ha : 2 ^ 53 * m ≤ (2 ^ 53 + 1) * a)
    (hb : 2 ^ 53 * n ≤ (2 ^ 53 + 1) * b) (hexact : 2 ^ 53 * (a * b) ≤ (2 ^ 53 + 1) * exact) :
    2 ^ 53 * (2 ^ 53 * (2 ^ 53 * (m * n))) ≤
      (2 ^ 53 + 1) * ((2 ^ 53 + 1) * ((2 ^ 53 + 1) * exact)) := by
  have hproduct := Nat.mul_le_mul ha hb
  calc 2 ^ 53 * (2 ^ 53 * (2 ^ 53 * (m * n)))
      = 2 ^ 53 * (2 ^ 53 * m * (2 ^ 53 * n)) := by grind
    _ ≤ 2 ^ 53 * ((2 ^ 53 + 1) * a * ((2 ^ 53 + 1) * b)) := Nat.mul_le_mul_left _ hproduct
    _ = (2 ^ 53 + 1) * ((2 ^ 53 + 1) * (2 ^ 53 * (a * b))) := by grind
    _ ≤ (2 ^ 53 + 1) * ((2 ^ 53 + 1) * ((2 ^ 53 + 1) * exact)) :=
        Nat.mul_le_mul_left _ (Nat.mul_le_mul_left _ hexact)

theorem nearest_product_lt {a b m n units : Nat} (ha : 2 ^ 53 * m ≤ (2 ^ 53 + 1) * a)
    (hb : 2 ^ 53 * n ≤ (2 ^ 53 + 1) * b)
    (hexact : 2 ^ 53 * (a * b) ≤ (2 ^ 53 + 1) * (units * one))
    (hunits : units ≤ (2 ^ 53 - 4) * topSpacing) : nearest (m * n) one < limit := by
  have hbound := product_bound ha hb hexact
  have htop := Nat.mul_le_mul_right one hunits
  rw [Nat.mul_assoc] at htop
  have hpos : 0 < topSpacing * one := Nat.mul_pos topSpacing_pos Magnitude.one_pos
  apply nearest_lt_limit
  omega

theorem ofNat_finite {n : Nat} (hn : 0 < n) (hshort : n ≤ 10 ^ 17) :
    ∃ m : Magnitude, Binary64.ofNat n = .finite false m ∧
      2 ^ 53 * m.units ≤ (2 ^ 53 + 1) * (n * one) := by
  have hnormal : 2 ^ 52 ≤ n * one :=
    Nat.le_trans two_pow_le_one (Nat.le_mul_of_pos_left one hn)
  have hlimit : nearest (n * one) 1 < limit := by
    have hbound : 2 * (10 ^ 17 * one) < (2 ^ 54 - 1) * (topSpacing * 1) := by decide +kernel
    have hle := Nat.mul_le_mul_right one hshort
    exact nearest_lt_limit (by omega)
  refine ⟨⟨nearest (n * one) 1, representable_nearest hlimit⟩, ?_, nearest_one_le hnormal⟩
  rw [Binary64.ofNat, Binary64.ofFraction]
  exact ofQuotient_eq_finite hlimit

theorem tenTo_eq (e : Nat) : tenTo e = .ofQuotient false (one * 10 ^ e) 1 := by
  have hnum : (Decimal.mk 1 e).num = 10 ^ e := Nat.one_mul _
  have hden : (Decimal.mk 1 e).den = 1 := by
    rw [Decimal.den, show (-(e : Int)).toNat = 0 by omega, Nat.pow_zero]
  rw [tenTo, Decimal.toBinary64_eq_ofQuotient, hnum, hden]

theorem two_pow_le_one_mul_pow (e : Nat) : 2 ^ 52 ≤ one * 10 ^ e :=
  Nat.le_trans two_pow_le_one (Nat.le_mul_of_pos_right one (Nat.pow_pos (by decide)))

theorem tenTo_eq_finite {e : Nat} (he : e ≤ largestPower) :
    ∃ hlimit : nearest (one * 10 ^ e) 1 < limit,
      tenTo e = .finite false ⟨_, representable_nearest hlimit⟩ := by
  have hlimit : nearest (one * 10 ^ e) 1 < limit := by
    have hbound : 2 * (one * 10 ^ 308) < (2 ^ 54 - 1) * (topSpacing * 1) := by decide +kernel
    have hle := Nat.mul_le_mul_left one (Nat.pow_le_pow_right (show 0 < 10 by decide) he)
    rw [largestPower] at hle
    exact nearest_lt_limit (by omega)
  refine ⟨hlimit, ?_⟩
  rw [tenTo_eq]
  exact ofQuotient_eq_finite hlimit

theorem tenTo_finite {e : Nat} (he : e ≤ largestPower) :
    ∃ m : Magnitude, tenTo e = .finite false m ∧
      2 ^ 53 * m.units ≤ (2 ^ 53 + 1) * (one * 10 ^ e) := by
  obtain ⟨hlimit, htenTo⟩ := tenTo_eq_finite he
  exact ⟨_, htenTo, nearest_one_le (two_pow_le_one_mul_pow e)⟩

/-- No power of ten in range is rounded to zero. -/
theorem tenTo_positive {e : Nat} (he : e ≤ largestPower) :
    ∃ m : Magnitude, tenTo e = .finite false m ∧ m.units ≠ 0 := by
  have hnormal := two_pow_le_one_mul_pow e
  have hbound := le_nearest_mul (show 2 ^ 52 * 1 ≤ one * 10 ^ e by omega) Nat.one_pos
  obtain ⟨hlimit, htenTo⟩ := tenTo_eq_finite he
  refine ⟨_, htenTo, ?_⟩
  dsimp only
  omega

/-- A decimal that stands for a magnitude is not far above it. -/
theorem num_le_of_standsFor {d : Decimal} {units : Nat} (h : d.StandsFor units)
    (hexponent : 0 ≤ d.exponent) :
    2 ^ 53 * (one * (d.significand * 10 ^ d.exponent.toNat)) ≤ (2 ^ 53 + 1) * units := by
  have hpositive : 0 < d.significand * 10 ^ d.exponent.toNat :=
    Nat.mul_pos h.positive (Nat.pow_pos (by decide))
  have hnormal : 2 ^ 52 * 1 ≤ one * (d.significand * 10 ^ d.exponent.toNat) :=
    Nat.le_trans two_pow_le_one (Nat.le_mul_of_pos_right one hpositive)
  have hden : d.den = 1 := by
    rw [Decimal.den, show (-d.exponent).toNat = 0 by omega, Nat.pow_zero]
  have hrounds := h.rounds
  rw [Decimal.nearestUnits, hden, Decimal.num] at hrounds
  have hbound := le_nearest_mul hnormal Nat.one_pos
  rwa [hrounds, Nat.mul_one] at hbound

theorem exponent_le_of_standsFor {d : Decimal} {units : Nat} (h : d.StandsFor units)
    (hunits : units < limit) : d.exponent ≤ largestPower := by
  by_cases hexponent : 0 ≤ d.exponent
  · have hnum := num_le_of_standsFor h hexponent
    have hpower : 10 ^ d.exponent.toNat ≤ d.significand * 10 ^ d.exponent.toNat :=
      Nat.le_mul_of_pos_left _ h.positive
    have hpower' := Nat.mul_le_mul_left one hpower
    have hbound : (2 ^ 53 + 1) * limit < 2 ^ 53 * (one * 10 ^ 309) := by decide +kernel
    have hlt : one * 10 ^ d.exponent.toNat < one * 10 ^ 309 := by omega
    have hlt' := Nat.lt_of_mul_lt_mul_left hlt
    have hexponent' := (Nat.pow_lt_pow_iff_right (show 1 < 10 by decide)).mp hlt'
    rw [largestPower]
    omega
  · rw [largestPower]
    omega

theorem value_isFinite {d : Decimal} {units : Nat} (h : d.StandsFor units)
    (hexponent : 0 ≤ d.exponent) (hunits : units ≤ (2 ^ 53 - 4) * topSpacing) :
    (Kept.mk d.significand d.exponent).value.isFinite := by
  have hlimit : units < limit := by
    have hpos := topSpacing_pos
    rw [limit_eq]
    omega
  have hrange := exponent_le_of_standsFor h hlimit
  obtain ⟨m, hm, hm'⟩ := ofNat_finite h.positive h.short
  obtain ⟨n, hn, hn'⟩ := tenTo_finite (show d.exponent.toNat ≤ largestPower by omega)
  have hexact : 2 ^ 53 * (d.significand * one * (one * 10 ^ d.exponent.toNat)) ≤
      (2 ^ 53 + 1) * (units * one) := by
    have hnum := Nat.mul_le_mul_right one (num_le_of_standsFor h hexponent)
    calc 2 ^ 53 * (d.significand * one * (one * 10 ^ d.exponent.toNat))
        = 2 ^ 53 * (one * (d.significand * 10 ^ d.exponent.toNat)) * one := by grind
      _ ≤ (2 ^ 53 + 1) * units * one := hnum
      _ = (2 ^ 53 + 1) * (units * one) := Nat.mul_assoc _ _ _
  have hproduct := nearest_product_lt hm' hn' hexact hunits
  have hnotneg : ¬d.exponent < 0 := by omega
  rw [Kept.value]
  dsimp only
  rw [if_neg hnotneg, hm, hn, finite_mul, ofQuotient_eq_finite hproduct]
  rfl

theorem value_isFinite_top : ∀ below ∈ [1, 2, 3],
    (Kept.mk (Decimal.shortest .even ((2 ^ 53 - below) * topSpacing)).significand
      (Decimal.shortest .even ((2 ^ 53 - below) * topSpacing)).exponent).value.isFinite := by
  decide +kernel

theorem eq_top_of_lt {units : Nat} (hrepresentable : Representable units)
    (hunits : (2 ^ 53 - 4) * topSpacing < units) :
    ∃ below ∈ [1, 2, 3], units = (2 ^ 53 - below) * topSpacing := by
  obtain ⟨hlimit, whole, hwhole⟩ := hrepresentable
  have hspacing : spacing units = topSpacing := by
    have hpower : 2 ^ 2097 ≤ (2 ^ 53 - 4) * topSpacing := by decide +kernel
    have hlog : units.log2 = 2097 := by
      rw [limit] at hlimit
      rw [Nat.log2_eq_iff (by omega), show 2097 + 1 = 2098 from rfl]
      exact ⟨by omega, hlimit⟩
    rw [spacing, hlog, topSpacing, show 2097 - 52 = 2045 from rfl]
  rw [hspacing, Nat.mul_comm] at hwhole
  rw [limit_eq] at hlimit
  rw [hwhole] at hlimit hunits
  have hlow := Nat.lt_of_mul_lt_mul_right hunits
  have hhigh := Nat.lt_of_mul_lt_mul_right hlimit
  refine ⟨2 ^ 53 - whole, ?_, ?_⟩
  · simp only [List.mem_cons, List.not_mem_nil, or_false]
    omega
  · rw [hwhole]
    congr 1
    omega

theorem scale?_of_standsFor {d : Decimal} {units : Nat} (h : d.StandsFor units)
    (hunits : units < limit)
    (hfinite : 0 ≤ d.exponent → (Kept.mk d.significand d.exponent).value.isFinite) :
    scale? (keptOf d) = some (keptOf d).value := by
  rw [keptOf]
  split
  · exact scale?_of_neg (show (-1 : Int) < 0 by decide)
  · by_cases hexponent : 0 ≤ d.exponent
    · exact scale?_of_isFinite (exponent_le_of_standsFor h hunits) (hfinite hexponent)
    · exact scale?_of_neg (show d.exponent < 0 by omega)

theorem scale?_shortest {units : Nat} (hunits : 0 < units) (hrepresentable : Representable units) :
    scale? (keptOf (Decimal.shortest .even units)) =
      some (keptOf (Decimal.shortest .even units)).value := by
  have hstands := Decimal.shortest_standsFor .even hunits hrepresentable.2
  apply scale?_of_standsFor hstands hrepresentable.1
  intro hexponent
  by_cases htop : units ≤ (2 ^ 53 - 4) * topSpacing
  · exact value_isFinite hstands hexponent htop
  -- For the three largest numbers the bound of the error is too coarse.
  · obtain ⟨below, hbelow, htop⟩ := eq_top_of_lt hrepresentable (by omega)
    rw [htop]
    exact value_isFinite_top below hbelow

/-! ## No number is read as NaN -/

theorem div_tenTo_ne_nan {x : Binary64} (hx : x ≠ .nan) {e : Nat} (he : e ≤ largestPower) :
    x / tenTo e ≠ .nan := by
  obtain ⟨m, htenTo, hm⟩ := tenTo_positive he
  rw [htenTo]
  cases x with
  | nan => exact absurd rfl hx
  | infinite negative => exact nofun
  | finite negative n =>
      rw [finite_div hm]
      exact ofQuotient_ne_nan _ _ _

theorem divideDown_ne_nan {x : Binary64} (hx : x ≠ .nan) (fuel : Nat) {e : Int} (he : e < 0) :
    divideDown fuel x e ≠ .nan := by
  induction fuel generalizing x e with
  | zero => exact hx
  | succ fuel ih =>
      rw [divideDown]
      split
      · next hrange =>
        have hsize : e.natAbs ≤ largestPower := by
          rw [largestPower] at hrange ⊢
          omega
        exact div_tenTo_ne_nan hx hsize
      · next hrange =>
        split
        · exact hx
        · exact ih (div_tenTo_ne_nan hx (Nat.le_refl _)) (by omega)

theorem scale?_ne_nan {k : Kept} {x : Binary64} (hscale : scale? k = some x) : x ≠ .nan := by
  have hdigits : Binary64.ofNat k.significand ≠ .nan := by
    rw [Binary64.ofNat, Binary64.ofFraction]
    exact ofQuotient_ne_nan _ _ _
  unfold scale? at hscale
  dsimp only at hscale
  split at hscale
  · next hexponent =>
    rw [← Option.some.inj hscale]
    exact divideDown_ne_nan hdigits 3 hexponent
  · split at hscale
    · split at hscale
      · next hfinite =>
        rw [← Option.some.inj hscale]
        intro hnan
        rw [hnan] at hfinite
        exact Bool.false_ne_true hfinite
      · simp at hscale
    · split at hscale
      · rw [← Option.some.inj hscale]
        exact hdigits
      · simp at hscale

/-! ## Exact parts -/

/-- The kept digits and their power of ten are themselves numbers of the format. -/
structure Kept.Exact (k : Kept) : Prop where
  digits : k.significand ≤ 2 ^ 53
  power : k.exponent.natAbs ≤ 22

theorem tenTo_exact {e : Nat} (he : e ≤ 22) :
    ∃ m : Magnitude, tenTo e = .finite false m ∧ m.units = one * 10 ^ e := by
  have hfive : 5 ^ e ≤ 2 ^ 53 :=
    Nat.le_trans (Nat.pow_le_pow_right (by decide) he) (by decide)
  have hdvd := spacing_dvd_one_mul hfive e
  rw [← Nat.mul_pow, show 5 * 2 = 10 from rfl] at hdvd
  have hlimit : one * 10 ^ 22 < limit := by decide +kernel
  have hle := Nat.mul_le_mul_left one (Nat.pow_le_pow_right (show 0 < 10 by decide) he)
  rw [tenTo_eq]
  exact ⟨_, ofQuotient_exact (by omega) hdvd, rfl⟩

/-- One rounding of exact parts gives the nearest number. -/
theorem value_of_exact {k : Kept} (hexact : k.Exact) {m : Magnitude}
    (hrounds : (Decimal.mk k.significand k.exponent).nearestUnits = m.units) :
    k.value = .finite false m := by
  obtain ⟨digits, hdigits, hdigits'⟩ := ofNat_exact hexact.digits
  obtain ⟨power, hpower, hpower'⟩ := tenTo_exact hexact.power
  have hlimit := m.representable.1
  rw [Decimal.nearestUnits, Decimal.num, Decimal.den] at hrounds
  dsimp only at hrounds
  by_cases hexponent : k.exponent < 0
  · have hquotient : nearest (digits.units * one) power.units = m.units := by
      rw [hdigits', hpower', ← hrounds, show k.exponent.toNat = 0 by omega,
        show (-k.exponent).toNat = k.exponent.natAbs by omega, Nat.mul_comm one (10 ^ _),
        nearest_mul_right _ _ Magnitude.one_pos, Nat.pow_zero, Nat.mul_one]
    have hrange : -(largestPower : Int) ≤ k.exponent := by
      have hsize := hexact.power
      rw [largestPower]
      omega
    have hpositive : power.units ≠ 0 := by
      rw [hpower']
      exact Nat.ne_of_gt (Nat.mul_pos Magnitude.one_pos (Nat.pow_pos (by decide)))
    rw [Kept.value, if_pos hexponent, divideDown, if_pos hrange, hdigits, hpower,
      finite_div hpositive, ofQuotient_eq_finite (by omega)]
    congr
  · have hunits : one * k.significand * (one * 10 ^ k.exponent.natAbs) =
        one * (k.significand * 10 ^ k.exponent.natAbs) * one := by grind
    have hproduct : nearest (digits.units * power.units) one = m.units := by
      rw [hdigits', hpower', ← hrounds, show k.exponent.toNat = k.exponent.natAbs by omega,
        show (-k.exponent).toNat = 0 by omega, Nat.pow_zero,
        ← nearest_mul_right _ 1 Magnitude.one_pos, Nat.one_mul, hunits]
    rw [Kept.value, if_neg hexponent, show k.exponent.toNat = k.exponent.natAbs by omega,
      hdigits, hpower, finite_mul, ofQuotient_eq_finite (by omega)]
    congr

end RewardPlot.Json.Number
