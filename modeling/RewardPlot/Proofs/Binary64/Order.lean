import RewardPlot.Binary64.Arithmetic
import Mathlib.Data.Int.Order.Basic
/-!
# Places on the number line

Two numbers have one place exactly when they are equal or zeros of different signs.  Numbers
are compared by their places, and what the operations give has the same place whichever zeros
they were given.
-/

namespace RewardPlot.Binary64

variable {x x' y y' z : Binary64}

theorem place_infinite (negative : Bool) :
    (infinite negative).place =
      some (if negative then -(Magnitude.limit : Int) else Magnitude.limit) := by
  cases negative <;> rfl

theorem place_finite (negative : Bool) (m : Magnitude) :
    (finite negative m).place = some (signed negative m) := by
  cases negative <;> rfl

theorem place_eq_none_iff : x.place = none ↔ x = .nan := by
  cases x with
  | nan => exact ⟨fun _ => rfl, fun _ => rfl⟩
  | infinite negative => simp only [place_infinite, reduceCtorEq]
  | finite negative m => simp only [place_finite, reduceCtorEq]

/-! ## Comparisons -/

theorem lt_iff : x < y ↔ ∃ a b, x.place = some a ∧ y.place = some b ∧ a < b := by
  change x.before y = true ↔ _
  unfold before
  cases x.place <;> cases y.place <;> simp

theorem coincides_iff : x.coincides y ↔ ∃ a, x.place = some a ∧ y.place = some a := by
  unfold coincides
  cases x.place with
  | none => simp
  | some a =>
      cases y.place with
      | none => simp
      | some b => simp [eq_comm (a := b)]

theorem place_eq_of_coincides (h : x.coincides y) : x.place = y.place := by
  obtain ⟨a, hx, hy⟩ := coincides_iff.mp h
  rw [hx, hy]

theorem coincides_of_place_eq (hx : x ≠ .nan) (hplace : x.place = y.place) : x.coincides y := by
  obtain ⟨a, ha⟩ := Option.ne_none_iff_exists'.mp (mt place_eq_none_iff.mp hx)
  exact coincides_iff.mpr ⟨a, ha, hplace ▸ ha⟩

theorem le_iff : x ≤ y ↔ ∃ a b, x.place = some a ∧ y.place = some b ∧ a ≤ b := by
  change (x.before y || x.coincides y) = true ↔ _
  unfold before coincides
  cases x.place <;> cases y.place <;> simp [Int.le_iff_lt_or_eq]

theorem place_le {a b : Int} (hxy : x ≤ y) (hx : x.place = some a) (hy : y.place = some b) :
    a ≤ b := by
  obtain ⟨a', b', hx', hy', hab⟩ := le_iff.mp hxy
  cases hx.symm.trans hx'
  cases hy.symm.trans hy'
  exact hab

theorem le_self (hx : x ≠ .nan) : x ≤ x := by
  obtain ⟨a, ha⟩ := Option.ne_none_iff_exists'.mp (mt place_eq_none_iff.mp hx)
  exact le_iff.mpr ⟨a, a, ha, ha, Int.le_refl a⟩

theorem le_trans (hxy : x ≤ y) (hyz : y ≤ z) : x ≤ z := by
  obtain ⟨a, b, ha, hb, hab⟩ := le_iff.mp hxy
  obtain ⟨b', c, hb', hc, hbc⟩ := le_iff.mp hyz
  cases hb.symm.trans hb'
  exact le_iff.mpr ⟨a, c, ha, hc, Int.le_trans hab hbc⟩

theorem coincides_of_le (hxy : x ≤ y) (hyx : y ≤ x) : x.coincides y := by
  obtain ⟨a, b, ha, hb, hab⟩ := le_iff.mp hxy
  obtain ⟨b', a', hb', ha', hba⟩ := le_iff.mp hyx
  cases ha.symm.trans ha'
  cases hb.symm.trans hb'
  cases Int.le_antisymm hab hba
  exact coincides_iff.mpr ⟨a, ha, hb⟩

theorem le_of_not_lt (hx : x ≠ .nan) (hy : y ≠ .nan) (hlt : ¬x < y) : y ≤ x := by
  obtain ⟨a, ha⟩ := Option.ne_none_iff_exists'.mp (mt place_eq_none_iff.mp hx)
  obtain ⟨b, hb⟩ := Option.ne_none_iff_exists'.mp (mt place_eq_none_iff.mp hy)
  refine le_iff.mpr ⟨b, a, hb, ha, ?_⟩
  exact Int.not_lt.mp fun hab => hlt (lt_iff.mpr ⟨a, b, ha, hb, hab⟩)

theorem le_of_lt (hlt : x < y) : x ≤ y := by
  obtain ⟨a, b, ha, hb, hab⟩ := lt_iff.mp hlt
  exact le_iff.mpr ⟨a, b, ha, hb, Int.le_of_lt hab⟩

theorem le_or_le (hx : x ≠ .nan) (hy : y ≠ .nan) : x ≤ y ∨ y ≤ x := by
  by_cases hlt : y < x
  · exact .inr (le_of_lt hlt)
  · exact .inl (le_of_not_lt hy hx hlt)

theorem lt_of_le_of_lt (hxy : x ≤ y) (hyz : y < z) : x < z := by
  obtain ⟨a, b, ha, hb, hab⟩ := le_iff.mp hxy
  obtain ⟨b', c, hb', hc, hbc⟩ := lt_iff.mp hyz
  cases hb.symm.trans hb'
  exact lt_iff.mpr ⟨a, c, ha, hc, by omega⟩

theorem lt_of_lt_of_le (hxy : x < y) (hyz : y ≤ z) : x < z := by
  obtain ⟨a, b, ha, hb, hab⟩ := lt_iff.mp hxy
  obtain ⟨b', c, hb', hc, hbc⟩ := le_iff.mp hyz
  cases hb.symm.trans hb'
  exact lt_iff.mpr ⟨a, c, ha, hc, by omega⟩

theorem not_lt_of_le (hxy : x ≤ y) : ¬y < x := by
  intro hyx
  obtain ⟨a, b, ha, hb, hab⟩ := lt_iff.mp (lt_of_le_of_lt hxy hyx)
  cases ha.symm.trans hb
  omega

/-! ## The smaller and the larger of two numbers -/

theorem min_cases (hx : x ≠ .nan) (hy : y ≠ .nan) :
    (x.min y = x ∨ x.min y = y) ∧ x.min y ≤ x ∧ x.min y ≤ y := by
  rw [min, if_neg hx]
  split
  · next hlt => exact ⟨.inr rfl, le_of_lt hlt, le_self hy⟩
  · next hlt => exact ⟨.inl rfl, le_self hx, le_of_not_lt hy hx hlt⟩

theorem max_cases (hx : x ≠ .nan) (hy : y ≠ .nan) :
    (x.max y = x ∨ x.max y = y) ∧ x ≤ x.max y ∧ y ≤ x.max y := by
  rw [max, if_neg hx]
  split
  · next hlt => exact ⟨.inr rfl, le_of_lt hlt, le_self hy⟩
  · next hlt => exact ⟨.inl rfl, le_self hx, le_of_not_lt hx hy hlt⟩

theorem nan_min (y : Binary64) : nan.min y = y := if_pos rfl

theorem nan_max (y : Binary64) : nan.max y = y := if_pos rfl

theorem min_nan (x : Binary64) : x.min nan = x := by
  unfold min
  split_ifs with hx hlt
  · exact hx.symm
  · obtain ⟨a, -, ha, -⟩ := lt_iff.mp hlt
    cases ha
  · rfl

theorem max_nan (x : Binary64) : x.max nan = x := by
  unfold max
  split_ifs with hx hlt
  · exact hx.symm
  · obtain ⟨-, b, -, hb, -⟩ := lt_iff.mp hlt
    cases hb
  · rfl

theorem min_of_lt (hlt : y < x) : x.min y = y := by
  rw [min, if_pos hlt, ite_self]

theorem max_of_lt (hlt : x < y) : x.max y = y := by
  rw [max, if_pos hlt, ite_self]

theorem min_of_not_lt (hx : x ≠ .nan) (hlt : ¬y < x) : x.min y = x := by
  rw [min, if_neg hx, if_neg hlt]

theorem max_of_not_lt (hx : x ≠ .nan) (hlt : ¬x < y) : x.max y = x := by
  rw [max, if_neg hx, if_neg hlt]

/-- Of equal numbers the first one is taken, however they are grouped. -/
theorem min_assoc (x y z : Binary64) : (x.min y).min z = x.min (y.min z) := by
  by_cases hx : x = .nan
  · rw [hx, nan_min, nan_min]
  by_cases hy : y = .nan
  · rw [hy, min_nan, nan_min]
  by_cases hz : z = .nan
  · rw [hz, min_nan, min_nan]
  by_cases hyx : y < x
  · rw [min_of_lt hyx, min_of_lt (lt_of_le_of_lt (min_cases hy hz).2.1 hyx)]
  rw [min_of_not_lt hx hyx]
  by_cases hzy : z < y
  · rw [min_of_lt hzy]
  · have hle : x ≤ z := le_trans (le_of_not_lt hy hx hyx) (le_of_not_lt hz hy hzy)
    rw [min_of_not_lt hy hzy, min_of_not_lt hx hyx, min_of_not_lt hx (not_lt_of_le hle)]

theorem max_assoc (x y z : Binary64) : (x.max y).max z = x.max (y.max z) := by
  by_cases hx : x = .nan
  · rw [hx, nan_max, nan_max]
  by_cases hy : y = .nan
  · rw [hy, max_nan, nan_max]
  by_cases hz : z = .nan
  · rw [hz, max_nan, max_nan]
  by_cases hxy : x < y
  · rw [max_of_lt hxy, max_of_lt (lt_of_lt_of_le hxy (max_cases hy hz).2.1)]
  rw [max_of_not_lt hx hxy]
  by_cases hyz : y < z
  · rw [max_of_lt hyz]
  · have hle : z ≤ x := le_trans (le_of_not_lt hy hz hyz) (le_of_not_lt hx hy hxy)
    rw [max_of_not_lt hy hyz, max_of_not_lt hx hxy, max_of_not_lt hx (not_lt_of_le hle)]

theorem place_max {a b : Int} (hx : x.place = some a) (hy : y.place = some b) :
    (x.max y).place = some (Max.max a b) := by
  have hnan : x ≠ .nan := by
    rintro rfl
    cases hx
  by_cases hlt : x < y
  · obtain ⟨a', b', ha', hb', hab⟩ := lt_iff.mp hlt
    cases hx.symm.trans ha'
    cases hy.symm.trans hb'
    rw [max_of_lt hlt, hy, Int.max_eq_right (Int.le_of_lt hab)]
  · have hle : b ≤ a := Int.not_lt.mp fun hab => hlt (lt_iff.mpr ⟨a, b, hx, hy, hab⟩)
    rw [max_of_not_lt hnan hlt, hx, Int.max_eq_left hle]

theorem min_ne_nan (hy : y ≠ .nan) : x.min y ≠ .nan := by
  rw [min]
  split_ifs <;> assumption

theorem max_ne_nan (hy : y ≠ .nan) : x.max y ≠ .nan := by
  rw [max]
  split_ifs <;> assumption

/-! ## Finite numbers -/

theorem ne_nan_of_isFinite (hx : x.isFinite) : x ≠ .nan := by
  rintro rfl
  cases hx

theorem isFinite_neg (hx : x.isFinite) : (-x).isFinite := by
  cases x with
  | nan | infinite => cases hx
  | finite => rfl

theorem isFinite_abs (hx : x.isFinite) : x.abs.isFinite := by
  cases x with
  | nan | infinite => cases hx
  | finite => rfl

/-! ## Operations on places -/

theorem eq_nan_congr (hx : x.place = x'.place) : x = .nan ↔ x' = .nan := by
  rw [← place_eq_none_iff, hx, place_eq_none_iff]

theorem lt_congr (hx : x.place = x'.place) (hy : y.place = y'.place) : x < y ↔ x' < y' := by
  rw [lt_iff, lt_iff, hx, hy]

theorem coincides_congr (hx : x.place = x'.place) (hy : y.place = y'.place) :
    x.coincides y = x'.coincides y' := by
  rw [coincides, coincides, hx, hy]

theorem min_congr (hx : x.place = x'.place) (hy : y.place = y'.place) :
    (x.min y).place = (x'.min y').place := by
  unfold min
  simp only [eq_nan_congr hx, lt_congr hy hx]
  split_ifs <;> assumption

theorem max_congr (hx : x.place = x'.place) (hy : y.place = y'.place) :
    (x.max y).place = (x'.max y').place := by
  unfold max
  simp only [eq_nan_congr hx, lt_congr hx hy]
  split_ifs <;> assumption

theorem clamp_congr (hx : x.place = x'.place) (low high : Binary64) :
    (x.clamp low high).place = (x'.clamp low high).place := by
  unfold clamp
  simp only [lt_congr hx rfl, lt_congr rfl hx]
  split_ifs <;> simp only [hx]

theorem place_neg : (-x).place = x.place.map (- ·) := by
  change x.neg.place = _
  cases x with
  | nan => rfl
  | infinite negative | finite negative m =>
      cases negative
      · rfl
      · exact congrArg some (Int.neg_neg _).symm

theorem place_abs : x.abs.place = x.place.map fun a => (a.natAbs : Int) := by
  cases x with
  | nan => rfl
  | infinite negative | finite negative m =>
      have hsize (n : Nat) : (n : Int) = ((n : Int).natAbs : Int) := by
        rw [Int.natAbs_natCast]
      cases negative
      · exact congrArg some (hsize _)
      · exact congrArg some ((hsize _).trans (congrArg Nat.cast (Int.natAbs_neg _).symm))

theorem finite_eq_zero {m : Magnitude} (hunits : m.units = 0) (negative : Bool) :
    finite negative m = zero negative := by
  obtain ⟨units, hrepresentable⟩ := m
  subst hunits
  rfl

theorem finite_eq_of_units {m n : Magnitude} (hunits : m.units = n.units) : m = n := by
  obtain ⟨units, hrepresentable⟩ := m
  obtain ⟨units', hrepresentable'⟩ := n
  subst hunits
  rfl

theorem infinite_ne_finite (a b : Bool) (m : Magnitude) :
    (infinite a).place ≠ (finite b m).place := by
  have hsize : m.units < Magnitude.limit := m.representable.1
  rw [place_infinite, place_finite, signed, Ne, Option.some.injEq]
  split_ifs <;> omega

/-- Numbers of one place differ at most in the sign of a zero. -/
theorem eq_or_zeros_of_place_eq (hplace : x.place = y.place) :
    x = y ∨ ∃ a b, x = zero a ∧ y = zero b := by
  cases x with
  | nan => exact .inl (place_eq_none_iff.mp hplace.symm).symm
  | infinite a =>
      cases y with
      | nan => cases place_eq_none_iff.mp hplace
      | infinite b =>
          have hlimit : 0 < Magnitude.limit := Magnitude.representable_zero.1
          rw [place_infinite, place_infinite, Option.some.injEq] at hplace
          have hsign : a = b := by
            by_contra hne
            split_ifs at hplace <;> first | omega | simp_all
          exact .inl (by rw [hsign])
      | finite b n => exact absurd hplace (infinite_ne_finite a b n)
  | finite a m =>
      cases y with
      | nan => cases place_eq_none_iff.mp hplace
      | infinite b => exact absurd hplace.symm (infinite_ne_finite b a m)
      | finite b n =>
          rw [place_finite, place_finite, signed, signed, Option.some.injEq] at hplace
          by_cases hsign : a = b
          · subst hsign
            have hunits : m.units = n.units := by
              split_ifs at hplace <;> omega
            exact .inl (by rw [finite_eq_of_units hunits])
          · have hm : m.units = 0 := by
              cases a <;> cases b <;> simp at hsign hplace <;> omega
            have hn : n.units = 0 := by
              cases a <;> cases b <;> simp at hsign hplace <;> omega
            exact .inr ⟨a, b, finite_eq_zero hm a, finite_eq_zero hn b⟩

/-! ## Arithmetic on places -/

theorem place_zero (negative : Bool) : (zero negative).place = some 0 := by
  cases negative <;> rfl

theorem signed_zero (negative : Bool) :
    signed negative ⟨0, Magnitude.representable_zero⟩ = 0 := by
  cases negative <;> rfl

theorem ofQuotient_eq_finite {negative : Bool} {num den : Nat}
    (hlimit : Magnitude.nearest num den < Magnitude.limit) :
    ofQuotient negative num den =
      finite negative ⟨_, Magnitude.representable_nearest hlimit⟩ :=
  dif_pos hlimit

theorem ofQuotient_eq_infinite {negative : Bool} {num den : Nat}
    (hlimit : Magnitude.limit ≤ Magnitude.nearest num den) :
    ofQuotient negative num den = infinite negative :=
  dif_neg (Nat.not_lt.mpr hlimit)

theorem ofQuotient_eq_zero {negative : Bool} {num den : Nat}
    (hnearest : Magnitude.nearest num den = 0) :
    ofQuotient negative num den = zero negative := by
  have hlimit : Magnitude.nearest num den < Magnitude.limit := by
    rw [hnearest]
    exact Magnitude.representable_zero.1
  rw [ofQuotient_eq_finite hlimit]
  exact finite_eq_zero hnearest negative

theorem ofQuotient_zero (negative : Bool) (den : Nat) :
    ofQuotient negative 0 den = zero negative := by
  apply ofQuotient_eq_zero
  simp [Magnitude.nearest, roundHalfEven]

theorem ofQuotient_ne_nan (negative : Bool) (num den : Nat) :
    ofQuotient negative num den ≠ .nan := by
  unfold ofQuotient
  split <;> simp

theorem ofNat_ne_nan (n : Nat) : ofNat n ≠ .nan := by
  rw [ofNat, ofFraction]
  exact ofQuotient_ne_nan _ _ _

theorem finite_mul (a b : Bool) (m n : Magnitude) :
    finite a m * finite b n = ofQuotient (a ^^ b) (m.units * n.units) Magnitude.one := by
  show mul _ _ = _
  rw [mul]

theorem finite_div {a b : Bool} {m n : Magnitude} (hn : n.units ≠ 0) :
    finite a m / finite b n = ofQuotient (a ^^ b) (m.units * Magnitude.one) n.units := by
  show div _ _ = _
  rw [div, if_neg hn]

/-- The sign with which a sum vanishes has no part in its place. -/
theorem place_finite_add (a b : Bool) (m n : Magnitude) :
    (finite a m + finite b n).place = (ofUnits (signed a m + signed b n)).place := by
  change (add (finite a m) (finite b n)).place = _
  unfold add
  dsimp only
  split
  · next htotal =>
    rw [htotal, ofUnits, Int.natAbs_zero, ofQuotient_zero, place_zero, place_zero]
  · rfl

theorem place_zero_add (a b : Bool) (y : Binary64) : (zero a + y).place = (zero b + y).place := by
  cases y with
  | nan | infinite => rfl
  | finite c n =>
      unfold zero
      rw [place_finite_add, place_finite_add, signed_zero, signed_zero]

theorem place_add_zero (x : Binary64) (a b : Bool) : (x + zero a).place = (x + zero b).place := by
  cases x with
  | nan | infinite => rfl
  | finite c n =>
      unfold zero
      rw [place_finite_add, place_finite_add, signed_zero, signed_zero]

theorem add_congr (hx : x.place = x'.place) (hy : y.place = y'.place) :
    (x + y).place = (x' + y').place := by
  have hleft : (x + y).place = (x' + y).place := by
    obtain rfl | ⟨a, b, rfl, rfl⟩ := eq_or_zeros_of_place_eq hx
    · rfl
    · exact place_zero_add a b y
  obtain rfl | ⟨a, b, rfl, rfl⟩ := eq_or_zeros_of_place_eq hy
  · exact hleft
  · exact hleft.trans (place_add_zero x' a b)

theorem sub_congr (hx : x.place = x'.place) (hy : y.place = y'.place) :
    (x - y).place = (x' - y').place := by
  change (x + -y).place = (x' + -y').place
  apply add_congr hx
  rw [place_neg, place_neg, hy]

theorem place_zero_mul (a b : Bool) (y : Binary64) : (zero a * y).place = (zero b * y).place := by
  change (mul (zero a) y).place = (mul (zero b) y).place
  cases y with
  | nan | infinite => rfl
  | finite c n =>
      unfold zero mul
      simp only [Nat.zero_mul, ofQuotient_zero, place_zero]

theorem mul_congr (hx : x.place = x'.place) (y : Binary64) : (x * y).place = (x' * y).place := by
  obtain rfl | ⟨a, b, rfl, rfl⟩ := eq_or_zeros_of_place_eq hx
  · rfl
  · exact place_zero_mul a b y

end RewardPlot.Binary64
