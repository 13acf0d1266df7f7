import RewardPlot.Proofs.Binary64.Value
/-!
# Part of the way between two numbers

The way from one number to another is rounded, its product with a share is rounded again, and so is
the sum with the first number.  A way that is not exact has at least `2 ^ 53` units, and there a
share that stays away from `1` leaves more room than both errors take, so the sum does not go past
the second number.  The format is symmetric: the way down is the way up, upside down.
-/

namespace RewardPlot.Binary64

variable {x y share share' : Binary64} {a b : Int}

/-! ## Sums and products -/

/-- A sum that is not exact is large. -/
theorem add_exact_or_large (hxy : (x + y).isFinite) :
    |(x + y).toRat - (x.toRat + y.toRat)| ≤ |x.toRat + y.toRat| / 2 ^ 53 ∧
      ((x + y).toRat = x.toRat + y.toRat ∨ 2 ^ 54 * halfUnit ≤ |x.toRat + y.toRat|) := by
  obtain ⟨hx, hy⟩ := isFinite_of_add hxy
  obtain ⟨a, ha, hxa⟩ := exists_place_toRat hx
  obtain ⟨b, hb, hyb⟩ := exists_place_toRat hy
  obtain ⟨r, hr, hnear⟩ := near_of_add hxy ha hb
  have hone := one_pos_rat
  have hsum : x.toRat + y.toRat = (a + b : Int) / Magnitude.one := by
    rw [hxa, hyb, ← add_div, Int.cast_add]
  rw [toRat_eq hxy hr, hsum]
  generalize a + b = exact at hnear
  constructor
  · have hcast : (2 ^ 53 * (r - exact).natAbs : ℚ) ≤ exact.natAbs := by exact_mod_cast hnear
    rw [Nat.cast_natAbs, Nat.cast_natAbs, Int.cast_abs, Int.cast_abs] at hcast
    rw [← sub_div, ← Int.cast_sub, abs_div, abs_div, Nat.abs_cast, div_right_comm,
      div_le_div_iff_of_pos_right hone]
    linarith
  · rcases eq_or_ne r exact with rfl | hne
    · exact .inl rfl
    · have hlarge : 2 ^ 53 ≤ exact.natAbs := by omega
      have hcast : (2 ^ 53 : ℚ) ≤ exact.natAbs := by exact_mod_cast hlarge
      rw [Nat.cast_natAbs, Int.cast_abs] at hcast
      refine .inr ?_
      rw [abs_div, Nat.abs_cast, le_div_iff₀ hone, halfUnit, ← div_div, mul_assoc,
        div_mul_cancel₀ _ hone.ne']
      linarith

theorem sub_exact_or_large (hxy : (x - y).isFinite) :
    |(x - y).toRat - (x.toRat - y.toRat)| ≤ |x.toRat - y.toRat| / 2 ^ 53 ∧
      ((x - y).toRat = x.toRat - y.toRat ∨ 2 ^ 54 * halfUnit ≤ |x.toRat - y.toRat|) := by
  have hneg := toRat_neg (isFinite_of_sub hxy).2
  rw [sub_eq_add_neg x.toRat, ← hneg]
  exact add_exact_or_large hxy

/-- A second summand that fits below a number does not take the sum past it. -/
theorem add_le_of_toRat_le (hx : x.isFinite) (hs : share.isFinite) (hy : y.isFinite)
    (hle : x.toRat + share.toRat ≤ y.toRat) : x + share ≤ y := by
  obtain ⟨a, ha, hxa⟩ := exists_place_toRat hx
  obtain ⟨s, hs', hsa⟩ := exists_place_toRat hs
  have hone := one_pos_rat
  cases y with
  | nan | infinite => cases hy
  | finite negative m =>
      rw [toRat_eq hy (place_finite negative m), hxa, hsa, ← add_div,
        div_le_div_iff_of_pos_right hone] at hle
      have hle' : a + s ≤ signed negative m := by exact_mod_cast hle
      refine (le_congr (place_add hx hs ha hs') ?_).mpr (ofUnits_mono hle')
      rw [place_finite, place_ofUnits_signed]

/-- A factor of at most `1` does not make a number larger. -/
theorem mul_le_self (hx : x.isFinite) (hshare : share.isFinite) (hx0 : 0 ≤ x) (hshare0 : 0 ≤ share)
    (hle : share ≤ 1) : x * share ≤ x := by
  cases x with
  | nan | infinite => cases hx
  | finite a m =>
      cases share with
      | nan | infinite => cases hshare
      | finite b n =>
          have hunits := place_le hle (place_finite b n) (place_ofNat (i := 1) (by decide))
          rw [signed_of_zero_le hshare0, Int.natCast_one, Int.one_mul, Int.ofNat_le] at hunits
          refine le_of_places (place_mul_of_nonneg hx0 hshare0) (place_finite a m) ?_
          rw [signed_of_zero_le hx0, Int.ofNat_le]
          refine Nat.le_trans (Nat.min_le_left _ _) ?_
          exact Magnitude.nearest_le Magnitude.one_pos m.representable.2
            (Nat.mul_le_mul_left _ hunits)

theorem mul_swap (hx : x.isFinite) (hy : y.isFinite) : x * y = y * x := by
  cases x with
  | nan | infinite => cases hx
  | finite a m =>
      cases y with
      | nan | infinite => cases hy
      | finite b n => rw [finite_mul, finite_mul, Bool.xor_comm, Nat.mul_comm]

theorem place_mul_zero (hx : x.isFinite) (hy : y.place = some 0) : (x * y).place = some 0 := by
  obtain rfl | ⟨a, b, rfl, -⟩ := eq_or_zeros_of_place_eq (hy.trans (place_zero false).symm)
  all_goals
    cases x with
    | nan | infinite => cases hx
    | finite c m =>
        rw [zero, finite_mul, Nat.mul_zero, ofQuotient_zero, place_zero]

/-! ## Upside down -/

theorem neg_ofQuotient (negative : Bool) (num den : Nat) :
    -ofQuotient negative num den = ofQuotient (!negative) num den := by
  unfold ofQuotient
  split_ifs <;> rfl

theorem place_ofUnits_neg (u : Int) : (ofUnits (-u)).place = (-ofUnits u).place := by
  rw [ofUnits, ofUnits, neg_ofQuotient, Int.natAbs_neg]
  rcases eq_or_ne u 0 with rfl | hu
  · rw [Int.natAbs_zero, ofQuotient_zero, ofQuotient_zero, place_zero, place_zero]
  · have hsign : decide (-u < 0) = !decide (u < 0) := by
      rw [← decide_not, decide_eq_decide]
      omega
    rw [hsign]

theorem place_neg_add_neg (hx : x.isFinite) (hy : y.isFinite) :
    (-x + -y).place = (-(x + y)).place := by
  obtain ⟨a, ha, -⟩ := exists_place_of_isFinite hx
  obtain ⟨b, hb, -⟩ := exists_place_of_isFinite hy
  have ha' : (-x).place = some (-a) := by rw [place_neg, ha, Option.map_some]
  have hb' : (-y).place = some (-b) := by rw [place_neg, hb, Option.map_some]
  rw [place_add (isFinite_neg hx) (isFinite_neg hy) ha' hb', place_neg, place_add hx hy ha hb,
    ← Int.neg_add, place_ofUnits_neg, place_neg]

theorem neg_neg_self (x : Binary64) : - -x = x := by
  change neg (neg x) = x
  cases x with
  | nan => rfl
  | infinite a | finite a m => rw [neg, neg, Bool.not_not]

theorem neg_le_neg_iff : -x ≤ -y ↔ y ≤ x := by
  refine ⟨fun hle => ?_, neg_le_neg⟩
  have hback := neg_le_neg hle
  rwa [neg_neg_self, neg_neg_self] at hback

theorem neg_mul_of_isFinite (hx : x.isFinite) (hy : y.isFinite) : -x * y = -(x * y) := by
  cases x with
  | nan | infinite => cases hx
  | finite a m =>
      cases y with
      | nan | infinite => cases hy
      | finite b n =>
          have hneg : -finite a m = finite (!a) m := rfl
          rw [hneg, finite_mul, finite_mul, neg_ofQuotient, Bool.not_xor]

/-! ## Part of the way -/

/-- Some share of the way from one number to another. -/
def partway (x y share : Binary64) : Binary64 := x + (y - x) * share

/-- A share that stays away from the whole way. -/
structure InnerShare (share : Binary64) : Prop where
  isFinite : share.isFinite
  nonneg : 0 ≤ share
  toRat_le : share.toRat ≤ 1 - 1 / 2 ^ 13

theorem InnerShare.le_one (hshare : InnerShare share) : share ≤ 1 := by
  rw [le_iff_toRat_le hshare.isFinite isFinite_one, toRat_one]
  linarith [hshare.toRat_le]

/-- No share of the way is where it begins. -/
theorem place_partway_zero (hxy : (y - x).isFinite) (hshare : share.place = some 0) :
    (partway x y share).place = x.place := by
  have hway : ((y - x) * share).place = (0 : Binary64).place :=
    (place_mul_zero hxy hshare).trans place_ofNat_zero.symm
  exact (add_congr rfl hway).trans (place_add_ofNat_zero (isFinite_of_sub hxy).2)

section

variable (hxy : (y - x).isFinite) (hshare : InnerShare share)

include hxy hshare

/-! ### Upwards -/

theorem way_between (hle : x ≤ y) : 0 ≤ (y - x) * share ∧ (y - x) * share ≤ y - x := by
  obtain ⟨hy, hx⟩ := isFinite_of_sub hxy
  have hdifference := zero_le_sub hy hx hle
  exact ⟨zero_le_mul hxy hshare.isFinite hdifference hshare.nonneg,
    mul_le_self hxy hshare.isFinite hdifference hshare.nonneg hshare.le_one⟩

theorem isFinite_way_up (hle : x ≤ y) : ((y - x) * share).isFinite := by
  obtain ⟨hlow, hhigh⟩ := way_between hxy hshare hle
  exact isFinite_of_le isFinite_zero hxy hlow hhigh

/-- The rounded part of the way is no longer than the exact way. -/
theorem toRat_way_le (hle : x ≤ y) : ((y - x) * share).toRat ≤ y.toRat - x.toRat := by
  obtain ⟨hy, hx⟩ := isFinite_of_sub hxy
  have hfinite := isFinite_way_up hxy hshare hle
  have hdistance : 0 ≤ y.toRat - x.toRat := sub_nonneg.mpr ((le_iff_toRat_le hx hy).mp hle)
  obtain ⟨herror, hexact | hlarge⟩ := sub_exact_or_large hxy
  -- A short way may be a few units long, where half a unit is too much for the error of a product.
  · rw [← hexact, ← le_iff_toRat_le hfinite hxy]
    exact (way_between hxy hshare hle).2
  · have hdifference := (toRat_nonneg_iff hxy).mpr (zero_le_sub hy hx hle)
    have hshare0 := (toRat_nonneg_iff hshare.isFinite).mpr hshare.nonneg
    have hpart := mul_le_mul_of_nonneg_left hshare.toRat_le hdifference
    have hproduct := (abs_le.mp (near_mul_of_isFinite hxy hshare.isFinite hfinite).error).2
    rw [abs_of_nonneg (mul_nonneg hdifference hshare0)] at hproduct
    rw [abs_of_nonneg hdistance] at hlarge herror
    have hrounded := (abs_le.mp herror).2
    linarith

theorem partway_up (hle : x ≤ y) : x ≤ partway x y share ∧ partway x y share ≤ y := by
  obtain ⟨hy, hx⟩ := isFinite_of_sub hxy
  have hway := toRat_way_le hxy hshare hle
  refine ⟨le_add_self hx (way_between hxy hshare hle).1, ?_⟩
  exact add_le_of_toRat_le hx (isFinite_way_up hxy hshare hle) hy (by linarith)

theorem partway_up_mono (hle : x ≤ y) (hshare' : InnerShare share') (hshares : share ≤ share') :
    partway x y share ≤ partway x y share' := by
  obtain ⟨hy, hx⟩ := isFinite_of_sub hxy
  exact add_mono_right hx (mul_mono_right hxy hshare.isFinite hshare'.isFinite
    (zero_le_sub hy hx hle) hshare.nonneg hshares)

/-! ### Downwards -/

omit hshare in
theorem place_difference_neg : (-y - -x).place = (-(y - x)).place := by
  obtain ⟨hy, hx⟩ := isFinite_of_sub hxy
  exact place_neg_add_neg hy (isFinite_neg hx)

omit hshare in
theorem isFinite_difference_neg : (-y - -x).isFinite := by
  rw [isFinite_congr (place_difference_neg hxy)]
  exact isFinite_neg hxy

theorem place_way_neg : ((-y - -x) * share).place = (-((y - x) * share)).place := by
  rw [mul_congr (place_difference_neg hxy), neg_mul_of_isFinite hxy hshare.isFinite]

theorem isFinite_way : ((y - x) * share).isFinite := by
  obtain ⟨hy, hx⟩ := isFinite_of_sub hxy
  rcases le_or_le (ne_nan_of_isFinite hx) (ne_nan_of_isFinite hy) with hle | hle
  · exact isFinite_way_up hxy hshare hle
  · have hneg := isFinite_way_up (isFinite_difference_neg hxy) hshare (neg_le_neg hle)
    rw [isFinite_congr (place_way_neg hxy hshare)] at hneg
    rw [← neg_neg_self ((y - x) * share)]
    exact isFinite_neg hneg

/-- The way between the opposite numbers is the same way, upside down. -/
theorem place_partway_neg : (partway (-x) (-y) share).place = (-partway x y share).place := by
  obtain ⟨hy, hx⟩ := isFinite_of_sub hxy
  exact (add_congr rfl (place_way_neg hxy hshare)).trans
    (place_neg_add_neg hx (isFinite_way hxy hshare))

theorem partway_down (hle : y ≤ x) : y ≤ partway x y share ∧ partway x y share ≤ x := by
  obtain ⟨hlow, hhigh⟩ := partway_up (isFinite_difference_neg hxy) hshare (neg_le_neg hle)
  have hplace := place_partway_neg hxy hshare
  rw [le_congr rfl hplace, neg_le_neg_iff] at hlow
  rw [le_congr hplace rfl, neg_le_neg_iff] at hhigh
  exact ⟨hhigh, hlow⟩

theorem partway_down_mono (hle : y ≤ x) (hshare' : InnerShare share') (hshares : share ≤ share') :
    partway x y share' ≤ partway x y share := by
  have hmono :=
    partway_up_mono (isFinite_difference_neg hxy) hshare (neg_le_neg hle) hshare' hshares
  rwa [le_congr (place_partway_neg hxy hshare) (place_partway_neg hxy hshare'),
    neg_le_neg_iff] at hmono

/-! ### Both ways -/

theorem isFinite_partway : (partway x y share).isFinite := by
  obtain ⟨hy, hx⟩ := isFinite_of_sub hxy
  rcases le_or_le (ne_nan_of_isFinite hx) (ne_nan_of_isFinite hy) with hle | hle
  · obtain ⟨hlow, hhigh⟩ := partway_up hxy hshare hle
    exact isFinite_of_le hx hy hlow hhigh
  · obtain ⟨hlow, hhigh⟩ := partway_down hxy hshare hle
    exact isFinite_of_le hy hx hlow hhigh

section

variable {size : ℚ} (hx : |x.toRat| ≤ size) (hy : |y.toRat| ≤ size)

include hx hy

/-- The rounded part of the way is near the exact one, for the size of the two numbers. -/
theorem way_near :
    |((y - x) * share).toRat - (y.toRat - x.toRat) * share.toRat| ≤
        41 / 10 * size / 2 ^ 53 + halfUnit ∧
      |((y - x) * share).toRat| ≤ 22 / 10 * size + halfUnit := by
  have hshare0 := (toRat_nonneg_iff hshare.isFinite).mpr hshare.nonneg
  have hshare1 := (le_iff_toRat_le hshare.isFinite isFinite_one).mp hshare.le_one
  rw [toRat_one] at hshare1
  obtain ⟨hdifference, -⟩ := sub_exact_or_large hxy
  have hproduct := (near_mul_of_isFinite hxy hshare.isFinite (isFinite_way hxy hshare)).error
  generalize ((y - x) * share).toRat = product at hproduct ⊢
  generalize (y - x).toRat = difference at hdifference hproduct
  generalize share.toRat = part at hshare0 hshare1 hproduct ⊢
  have hpart (q : ℚ) : |q * part| ≤ |q| := by
    rw [abs_mul, abs_of_nonneg hshare0]
    exact mul_le_of_le_one_right (abs_nonneg q) hshare1
  have hway : |y.toRat - x.toRat| ≤ 2 * size := by
    rw [abs_le] at hx hy ⊢
    constructor <;> linarith
  have hdifference' : |difference - (y.toRat - x.toRat)| ≤ 2 * size / 2 ^ 53 :=
    hdifference.trans (by linarith)
  have herror := (hpart _).trans hdifference'
  have hsize : |difference * part| ≤ 21 / 10 * size := by
    refine (hpart _).trans ?_
    rw [abs_le] at hway hdifference' ⊢
    constructor <;> linarith
  have hproduct' : |product - difference * part| ≤ 21 / 10 * size / 2 ^ 53 + halfUnit :=
    hproduct.trans (by linarith)
  rw [sub_mul] at herror
  rw [abs_le] at herror hsize hproduct'
  constructor
  · rw [abs_le]
    constructor <;> linarith
  · rw [abs_le]
    constructor <;> linarith

/-- The number is near the exact part of the way, for the size of the two numbers. -/
theorem partway_near :
    |(partway x y share).toRat - (x.toRat + (y.toRat - x.toRat) * share.toRat)| ≤
      size / 2 ^ 50 + 2 * halfUnit := by
  obtain ⟨herror, hsize⟩ := way_near hxy hshare hx hy
  have hunit := halfUnit_pos
  have hsum : |(partway x y share).toRat - (x.toRat + ((y - x) * share).toRat)| ≤
      (32 / 10 * size + halfUnit) / 2 ^ 53 := by
    refine (add_exact_or_large (isFinite_partway hxy hshare)).1.trans ?_
    refine div_le_div_of_nonneg_right ?_ (by norm_num)
    rw [abs_le] at hx hsize ⊢
    constructor <;> linarith
  rw [abs_le] at herror hsum ⊢
  constructor <;> linarith

end

end

end RewardPlot.Binary64
