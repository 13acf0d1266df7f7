import RewardPlot.Proofs.Binary64.Order
import RewardPlot.Proofs.Binary64.Rounding
/-!
# Rounding keeps the order

Of two quotients the smaller one is not rounded to a larger number.  A sum therefore lies on
the same side of its first operand as the exact sum does.
-/

namespace RewardPlot

theorem roundHalfEven_mono {num num' : Nat} (hnum : num ≤ num') (den : Nat) :
    roundHalfEven num den ≤ roundHalfEven num' den := by
  have hquotient := Nat.div_le_div_right (c := den) hnum
  rcases Nat.lt_or_eq_of_le hquotient with hless | hsame
  · calc
      roundHalfEven num den ≤ num / den + 1 := roundHalfEven_le num den
      _ ≤ num' / den := hless
      _ ≤ roundHalfEven num' den := le_roundHalfEven num' den
  · have hdivision := Nat.div_add_mod num den
    have hdivision' := Nat.div_add_mod num' den
    rw [hsame] at hdivision
    unfold roundHalfEven
    dsimp only
    rw [hsame]
    split <;> split <;> omega

namespace Magnitude

theorem log2_mono {a b : Nat} (hle : a ≤ b) : a.log2 ≤ b.log2 := by
  by_cases ha : a = 0
  · simp [ha]
  · exact (Nat.le_log2 (by omega)).mpr (Nat.le_trans (Nat.log2_self_le ha) hle)

theorem nearest_le_mul_spacing (num den : Nat) :
    nearest num den ≤ 2 ^ 53 * spacing (num / den) :=
  Nat.mul_le_mul_right _ (roundHalfEven_spacing_le num den)

theorem mul_spacing_le_nearest {num den : Nat} (hnormal : 2 ^ 52 ≤ num / den) :
    2 ^ 52 * spacing (num / den) ≤ nearest num den := by
  refine Nat.mul_le_mul_right _ (Nat.le_trans ?_ (le_roundHalfEven _ _))
  rw [← Nat.div_div_eq_div_mul, Nat.le_div_iff_mul_le (spacing_pos _)]
  exact mul_spacing_le hnormal

/-- Between two powers of two all numbers of the format are multiples of one spacing, and a
power of two is itself a number of the format. -/
theorem nearest_mono {num num' : Nat} (hnum : num ≤ num') (den : Nat) :
    nearest num den ≤ nearest num' den := by
  have hlog := log2_mono (Nat.div_le_div_right (c := den) hnum)
  by_cases hsame : spacing (num / den) = spacing (num' / den)
  · rw [nearest, nearest, hsame]
    exact Nat.mul_le_mul_right _ (roundHalfEven_mono hnum _)
  · have hlog' : (num / den).log2 - 52 < (num' / den).log2 - 52 := by
      have hne : (num / den).log2 - 52 ≠ (num' / den).log2 - 52 := by
        intro heq
        rw [spacing, spacing, heq] at hsame
        contradiction
      omega
    have hdouble : 2 * spacing (num / den) ≤ spacing (num' / den) := by
      rw [spacing, spacing, ← Nat.pow_succ']
      exact Nat.pow_le_pow_right (by decide) hlog'
    have hnormal : 2 ^ 52 ≤ num' / den := by
      have hnonzero : num' / den ≠ 0 := by
        intro hzero
        rw [hzero, Nat.log2_zero] at hlog'
        omega
      exact (Nat.le_log2 hnonzero).mp (by omega)
    calc
      nearest num den ≤ 2 ^ 53 * spacing (num / den) := nearest_le_mul_spacing num den
      _ ≤ 2 ^ 52 * spacing (num' / den) := by omega
      _ ≤ nearest num' den := mul_spacing_le_nearest hnormal

end Magnitude

namespace Binary64

variable {x x' y y' z low high : Binary64}

/-! ## The place of a rounded quotient -/

/-- The place of a magnitude that may lie beyond the largest number. -/
def reach (units : Nat) : Nat := Nat.min units Magnitude.limit

theorem reach_mono {m n : Nat} (hmn : m ≤ n) : reach m ≤ reach n :=
  Nat.le_min.mpr ⟨Nat.le_trans (Nat.min_le_left _ _) hmn, Nat.min_le_right _ _⟩

theorem reach_units (m : Magnitude) : reach m.units = m.units :=
  Nat.min_eq_left (Nat.le_of_lt m.representable.1)

theorem place_ofQuotient (negative : Bool) (num den : Nat) :
    (ofQuotient negative num den).place =
      some (if negative then -(reach (Magnitude.nearest num den) : Int)
        else reach (Magnitude.nearest num den)) := by
  by_cases hlimit : Magnitude.nearest num den < Magnitude.limit
  · have hreach : reach (Magnitude.nearest num den) = Magnitude.nearest num den :=
      Nat.min_eq_left (Nat.le_of_lt hlimit)
    rw [ofQuotient_eq_finite hlimit, place_finite, signed, hreach]
  · have hreach : reach (Magnitude.nearest num den) = Magnitude.limit :=
      Nat.min_eq_right (Nat.le_of_not_lt hlimit)
    rw [ofQuotient_eq_infinite (Nat.le_of_not_lt hlimit), place_infinite, hreach]

theorem le_of_places {a b : Int} (hx : x.place = some a) (hy : y.place = some b) (hab : a ≤ b) :
    x ≤ y :=
  le_iff.mpr ⟨a, b, hx, hy, hab⟩

theorem place_ofQuotient_false (num den : Nat) :
    (ofQuotient false num den).place = some (reach (Magnitude.nearest num den) : Int) := by
  rw [place_ofQuotient, if_neg Bool.false_ne_true]

/-- A number of the format is not changed when it is rounded. -/
theorem ofQuotient_exact {negative : Bool} {units : Nat} (hlimit : units < Magnitude.limit)
    (hdvd : Magnitude.spacing units ∣ units) :
    ofQuotient negative units 1 = finite negative ⟨units, hlimit, hdvd⟩ := by
  have hself := Magnitude.nearest_self hdvd
  have hfinite : Magnitude.nearest units 1 < Magnitude.limit := by omega
  rw [ofQuotient_eq_finite hfinite]
  congr

theorem ofNat_exact {n : Nat} (hn : n ≤ 2 ^ 53) :
    ∃ m : Magnitude, ofNat n = finite false m ∧ m.units = Magnitude.one * n := by
  have hdvd := Magnitude.spacing_dvd_one_mul hn 0
  rw [Nat.pow_zero, Nat.mul_one] at hdvd
  have hlimit : Magnitude.one * 2 ^ 53 < Magnitude.limit := by decide +kernel
  have hle := Nat.mul_le_mul_left Magnitude.one hn
  rw [ofNat, ofFraction, Nat.mul_comm n]
  exact ⟨_, ofQuotient_exact (by omega) hdvd, rfl⟩

theorem ofQuotient_mono {num num' : Nat} (hnum : num ≤ num') (den : Nat) :
    ofQuotient false num den ≤ ofQuotient false num' den :=
  le_of_places (place_ofQuotient_false _ _) (place_ofQuotient_false _ _)
    (Int.ofNat_le.mpr (reach_mono (Magnitude.nearest_mono hnum den)))

theorem ofNat_mono {m n : Nat} (hmn : m ≤ n) : ofNat m ≤ ofNat n := by
  rw [ofNat, ofNat, ofFraction, ofFraction]
  exact ofQuotient_mono (Nat.mul_le_mul_right _ hmn) 1

theorem ofNat_zero : (0 : Binary64) = zero false := by
  have hzero : ofNat 0 = zero false := by
    rw [ofNat, ofFraction, Nat.zero_mul, ofQuotient_zero]
  exact hzero

theorem place_ofNat_zero : (0 : Binary64).place = some 0 := by
  rw [ofNat_zero, place_zero]

theorem zero_le_ofQuotient (num den : Nat) : 0 ≤ ofQuotient false num den :=
  le_of_places place_ofNat_zero (place_ofQuotient_false _ _) (Int.natCast_nonneg _)

theorem zero_le_ofNat (n : Nat) : 0 ≤ ofNat n := by
  rw [ofNat, ofFraction]
  exact zero_le_ofQuotient _ _

/-- The place of a rounded number of units. -/
theorem place_ofUnits (units : Int) :
    (ofUnits units).place =
      some (if units < 0 then -(reach (Magnitude.nearest units.natAbs 1) : Int)
        else reach (Magnitude.nearest units.natAbs 1)) := by
  rw [ofUnits, place_ofQuotient]
  simp only [decide_eq_true_eq]

theorem ofUnits_mono {a b : Int} (hab : a ≤ b) : ofUnits a ≤ ofUnits b := by
  apply le_of_places (place_ofUnits a) (place_ofUnits b)
  split_ifs with ha hb hb
  · have hreach := reach_mono (Magnitude.nearest_mono (show b.natAbs ≤ a.natAbs by omega) 1)
    omega
  · omega
  · omega
  · have hreach := reach_mono (Magnitude.nearest_mono (show a.natAbs ≤ b.natAbs by omega) 1)
    omega

/-- A number of the format is rounded to itself. -/
theorem place_ofUnits_signed (negative : Bool) (m : Magnitude) :
    (ofUnits (signed negative m)).place = some (signed negative m) := by
  have hsize : (signed negative m).natAbs = m.units := by
    unfold signed
    split <;> omega
  rw [place_ofUnits, hsize, Magnitude.nearest_self m.representable.2, reach_units]
  unfold signed
  split_ifs <;> rw [Option.some.injEq] <;> omega

/-! ## The ends of the number line -/

theorem place_bounds {a : Int} (hx : x.place = some a) :
    -(Magnitude.limit : Int) ≤ a ∧ a ≤ Magnitude.limit := by
  cases x with
  | nan => cases hx
  | infinite negative =>
      rw [place_infinite, Option.some.injEq] at hx
      split_ifs at hx <;> omega
  | finite negative m =>
      have hsize : m.units < Magnitude.limit := m.representable.1
      rw [place_finite, Option.some.injEq, signed] at hx
      split_ifs at hx <;> omega

theorem infinite_le (hx : x ≠ .nan) : infinite true ≤ x := by
  obtain ⟨a, ha⟩ := Option.ne_none_iff_exists'.mp (mt place_eq_none_iff.mp hx)
  exact le_of_places (place_infinite true) ha (by rw [if_pos rfl]; exact (place_bounds ha).1)

theorem le_infinite (hx : x ≠ .nan) : x ≤ infinite false := by
  obtain ⟨a, ha⟩ := Option.ne_none_iff_exists'.mp (mt place_eq_none_iff.mp hx)
  refine le_of_places ha (place_infinite false) ?_
  rw [if_neg Bool.false_ne_true]
  exact (place_bounds ha).2

theorem ne_nan_of_le (hxy : x ≤ y) : x ≠ .nan ∧ y ≠ .nan := by
  obtain ⟨a, b, ha, hb, -⟩ := le_iff.mp hxy
  constructor
  · rintro rfl
    cases ha
  · rintro rfl
    cases hb

theorem le_congr (hx : x.place = x'.place) (hy : y.place = y'.place) : x ≤ y ↔ x' ≤ y' := by
  rw [le_iff, le_iff, hx, hy]

/-! ## Sums -/

theorem exists_finite_of_place {a : Int} (hx : x.place = some a)
    (hlow : -(Magnitude.limit : Int) < a) (hhigh : a < Magnitude.limit) :
    ∃ negative m, x = finite negative m := by
  cases x with
  | nan => cases hx
  | infinite negative =>
      rw [place_infinite, Option.some.injEq] at hx
      split_ifs at hx <;> omega
  | finite negative m => exact ⟨negative, m, rfl⟩

theorem finite_add_infinite (a b : Bool) (m : Magnitude) : finite a m + infinite b = infinite b :=
  rfl

theorem finite_add_ne_nan (a : Bool) (m : Magnitude) (hy : y ≠ .nan) : finite a m + y ≠ .nan := by
  cases y with
  | nan => exact absurd rfl hy
  | infinite b => exact nofun
  | finite b n =>
      intro hnan
      have hplace := place_finite_add a b m n
      rw [hnan, place_ofUnits] at hplace
      cases hplace

/-- A larger second operand does not make a sum smaller. -/
theorem add_mono_right (hx : x.isFinite) (hyz : y ≤ z) : x + y ≤ x + z := by
  obtain ⟨hy, hz⟩ := ne_nan_of_le hyz
  obtain ⟨b, c, hb, hc, hbc⟩ := le_iff.mp hyz
  have hbounds := place_bounds hb
  have hbounds' := place_bounds hc
  cases x with
  | nan | infinite => cases hx
  | finite a m =>
      by_cases hlow : b = -Magnitude.limit
      · have hplace : y.place = (infinite true).place := by
          rw [hb, hlow, place_infinite, if_pos rfl]
        rw [le_congr (add_congr rfl hplace) rfl, finite_add_infinite]
        exact infinite_le (finite_add_ne_nan a m hz)
      by_cases hhigh : c = Magnitude.limit
      · have hplace : z.place = (infinite false).place := by
          rw [hc, hhigh, place_infinite, if_neg Bool.false_ne_true]
        rw [le_congr rfl (add_congr rfl hplace), finite_add_infinite]
        exact le_infinite (finite_add_ne_nan a m hy)
      obtain ⟨d, n, rfl⟩ := exists_finite_of_place hb (by omega) (by omega)
      obtain ⟨e, k, rfl⟩ := exists_finite_of_place hc (by omega) (by omega)
      rw [place_finite, Option.some.injEq] at hb hc
      rw [le_congr (place_finite_add a d m n) (place_finite_add a e m k)]
      exact ofUnits_mono (by omega)

theorem place_add_ofNat_zero (hx : x.isFinite) : (x + 0).place = x.place := by
  cases x with
  | nan | infinite => cases hx
  | finite a m =>
      rw [ofNat_zero, zero, place_finite_add, signed_zero, Int.add_zero, place_ofUnits_signed,
        place_finite]

theorem add_le_self (hx : x.isFinite) (hy : y ≤ 0) : x + y ≤ x :=
  (le_congr rfl (place_add_ofNat_zero hx)).mp (add_mono_right hx hy)

theorem le_add_self (hx : x.isFinite) (hy : 0 ≤ y) : x ≤ x + y :=
  (le_congr (place_add_ofNat_zero hx) rfl).mp (add_mono_right hx hy)

theorem neg_le_neg (hxy : x ≤ y) : -y ≤ -x := by
  obtain ⟨a, b, ha, hb, hab⟩ := le_iff.mp hxy
  refine le_of_places (a := -b) (b := -a) ?_ ?_ (by omega)
  · rw [place_neg, hb, Option.map_some]
  · rw [place_neg, ha, Option.map_some]

theorem neg_le_zero (hy : 0 ≤ y) : -y ≤ 0 := by
  have hneg : (-0 : Binary64).place = (0 : Binary64).place := by
    rw [place_neg, place_ofNat_zero, Option.map_some, Int.neg_zero]
  exact (le_congr rfl hneg).mp (neg_le_neg hy)

theorem sub_le_self (hx : x.isFinite) (hy : 0 ≤ y) : x - y ≤ x := add_le_self hx (neg_le_zero hy)

/-! ## Products -/

theorem zero_le_finite_iff {a : Bool} {m : Magnitude} :
    0 ≤ finite a m ↔ a = false ∨ m.units = 0 := by
  rw [le_iff, place_ofNat_zero, place_finite, signed]
  cases a <;> simp

theorem signed_of_zero_le {a : Bool} {m : Magnitude} (hx : 0 ≤ finite a m) :
    signed a m = m.units := by
  rcases zero_le_finite_iff.mp hx with rfl | hunits
  · rfl
  · rw [signed, hunits]
    split_ifs <;> rfl

/-- A product of numbers from zero on is the rounded product of their magnitudes. -/
theorem place_mul_of_nonneg {a b : Bool} {m n : Magnitude} (hx : 0 ≤ finite a m)
    (hy : 0 ≤ finite b n) : (finite a m * finite b n).place =
      some (reach (Magnitude.nearest (m.units * n.units) Magnitude.one) : Int) := by
  rw [zero_le_finite_iff] at hx hy
  rw [finite_mul]
  have hsign : (a ^^ b) = false ∨ m.units * n.units = 0 := by
    rcases hx with rfl | hm
    · rcases hy with rfl | hn
      · exact .inl rfl
      · exact .inr (by rw [hn, Nat.mul_zero])
    · exact .inr (by rw [hm, Nat.zero_mul])
  rcases hsign with hsign | hzero
  · rw [hsign, place_ofQuotient_false]
  · rw [hzero, ← place_ofQuotient_false, ofQuotient_zero, ofQuotient_zero, place_zero, place_zero]

theorem zero_le_mul {x y : Binary64} (hx : x.isFinite) (hy : y.isFinite) (hx0 : 0 ≤ x)
    (hy0 : 0 ≤ y) : 0 ≤ x * y := by
  cases x with
  | nan | infinite => cases hx
  | finite a m =>
      cases y with
      | nan | infinite => cases hy
      | finite b n =>
          exact le_of_places place_ofNat_zero (place_mul_of_nonneg hx0 hy0) (Int.natCast_nonneg _)

/-- A larger second factor does not make a product smaller. -/
theorem mul_mono_right {x y z : Binary64} (hx : x.isFinite) (hy : y.isFinite) (hz : z.isFinite)
    (hx0 : 0 ≤ x) (hy0 : 0 ≤ y) (hyz : y ≤ z) : x * y ≤ x * z := by
  cases x with
  | nan | infinite => cases hx
  | finite a m =>
      cases y with
      | nan | infinite => cases hy
      | finite b n =>
          cases z with
          | nan | infinite => cases hz
          | finite c k =>
              have hz0 : 0 ≤ finite c k := le_trans hy0 hyz
              have hunits := place_le hyz (place_finite b n) (place_finite c k)
              rw [signed_of_zero_le hy0, signed_of_zero_le hz0, Int.ofNat_le] at hunits
              refine le_of_places (place_mul_of_nonneg hx0 hy0) (place_mul_of_nonneg hx0 hz0) ?_
              rw [Int.ofNat_le]
              exact reach_mono (Magnitude.nearest_mono (Nat.mul_le_mul_left _ hunits) _)

/-! ## Ends and sizes -/

theorem le_max_right (hy : y ≠ .nan) : y ≤ x.max y := by
  by_cases hx : x = .nan
  · rw [max, if_pos hx]
    exact le_self hy
  · exact (max_cases hx hy).2.2

theorem min_le_right (hy : y ≠ .nan) : x.min y ≤ y := by
  by_cases hx : x = .nan
  · rw [min, if_pos hx]
    exact le_self hy
  · exact (min_cases hx hy).2.2

theorem max_le (hx : x ≤ z) (hy : y ≤ z) : x.max y ≤ z := by
  unfold max
  split_ifs <;> assumption

theorem le_min (hy : x ≤ y) (hz : x ≤ z) : x ≤ y.min z := by
  unfold min
  split_ifs <;> assumption

theorem clamp_le (hx : x ≤ z) (hlow : low ≤ z) : x.clamp low high ≤ z := by
  unfold clamp
  split_ifs with _ hhigh
  · exact hlow
  · exact le_trans (le_of_lt hhigh) hx
  · exact hx

theorem le_clamp (hx : z ≤ x) (hhigh : z ≤ high) : z ≤ x.clamp low high := by
  unfold clamp
  split_ifs with hlow
  · exact le_trans hx (le_of_lt hlow)
  · exact hhigh
  · exact hx

theorem clamp_between (hx : x ≠ .nan) (hrange : low ≤ high) :
    low ≤ x.clamp low high ∧ x.clamp low high ≤ high := by
  obtain ⟨hlow, hhigh⟩ := ne_nan_of_le hrange
  unfold clamp
  split_ifs with hless hgreater
  · exact ⟨le_self hlow, hrange⟩
  · exact ⟨hrange, le_self hhigh⟩
  · exact ⟨le_of_not_lt hx hlow hless, le_of_not_lt hhigh hx hgreater⟩

theorem clamp_mono (hxy : x ≤ y) (hrange : low ≤ high) : x.clamp low high ≤ y.clamp low high := by
  obtain ⟨hx, hy⟩ := ne_nan_of_le hxy
  obtain ⟨-, hhigh⟩ := ne_nan_of_le hrange
  by_cases hless : x < low
  · rw [clamp, if_pos hless]
    exact (clamp_between hy hrange).1
  by_cases hgreater : high < x
  · rw [clamp, if_neg hless, if_pos hgreater]
    exact le_clamp (le_trans (le_of_lt hgreater) hxy) (le_self hhigh)
  · rw [clamp, if_neg hless, if_neg hgreater]
    exact le_clamp hxy (le_of_not_lt hhigh hx hgreater)

theorem exists_place_of_isFinite (hx : x.isFinite) :
    ∃ a, x.place = some a ∧ -(Magnitude.limit : Int) < a ∧ a < Magnitude.limit := by
  cases x with
  | nan | infinite => cases hx
  | finite negative m =>
      have hsize : m.units < Magnitude.limit := m.representable.1
      refine ⟨_, place_finite negative m, ?_, ?_⟩ <;> rw [signed] <;> split_ifs <;> omega

/-- A number between two finite ones is finite. -/
theorem isFinite_of_le (hlow : low.isFinite) (hhigh : high.isFinite) (hx : low ≤ x)
    (hx' : x ≤ high) : x.isFinite := by
  obtain ⟨a, b, ha, hb, hab⟩ := le_iff.mp hx
  obtain ⟨b', c, hb', hc, hbc⟩ := le_iff.mp hx'
  obtain ⟨a', ha', hlow, -⟩ := exists_place_of_isFinite hlow
  obtain ⟨c', hc', -, hhigh⟩ := exists_place_of_isFinite hhigh
  cases ha.symm.trans ha'
  cases hb.symm.trans hb'
  cases hc.symm.trans hc'
  obtain ⟨negative, m, rfl⟩ := exists_finite_of_place hb (by omega) (by omega)
  rfl

theorem isFinite_zero : (0 : Binary64).isFinite := by
  rw [ofNat_zero]
  rfl

theorem isFinite_max (hx : x.isFinite) (hy : y.isFinite) : (x.max y).isFinite := by
  unfold max
  split_ifs <;> assumption

theorem zero_le_abs (hx : x ≠ .nan) : 0 ≤ x.abs := by
  obtain ⟨a, ha⟩ := Option.ne_none_iff_exists'.mp (mt place_eq_none_iff.mp hx)
  refine le_of_places place_ofNat_zero ?_ (Int.natCast_nonneg a.natAbs)
  rw [place_abs, ha, Option.map_some]

theorem between_of_abs_le (hx : x.abs ≤ y) : -y ≤ x ∧ x ≤ y := by
  obtain ⟨a, b, ha, hb, hab⟩ := le_iff.mp hx
  rw [place_abs] at ha
  obtain ⟨c, hc, rfl⟩ := Option.map_eq_some_iff.mp ha
  refine ⟨le_of_places (a := -b) ?_ hc (by omega), le_of_places hc hb (by omega)⟩
  rw [place_neg, hb, Option.map_some]

end Binary64

end RewardPlot
