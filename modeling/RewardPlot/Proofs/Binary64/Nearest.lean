import RewardPlot.Proofs.Binary64.Monotone
import Mathlib.Algebra.Order.Field.Basic
import Mathlib.Algebra.Order.Field.Rat
import Mathlib.Data.Nat.Dist
import Mathlib.Tactic.FieldSimp
import Mathlib.Tactic.Linarith
/-!
# The nearest number

A quotient is rounded to the number of the format that lies nearest to it, of two such numbers
to the one whose last digit is even.  From the middle between the largest number and the limit
on it is infinite.  No other number has these properties.
-/

namespace RewardPlot

theorem cast_dist (a b : Nat) : (Nat.dist a b : ℚ) = |(a : ℚ) - b| := by
  rcases Nat.le_total a b with hle | hle
  · rw [Nat.dist_eq_sub_of_le hle, Nat.cast_sub hle, abs_sub_comm,
      abs_of_nonneg (sub_nonneg.mpr (Nat.cast_le.mpr hle))]
  · rw [Nat.dist_eq_sub_of_le_right hle, Nat.cast_sub hle,
      abs_of_nonneg (sub_nonneg.mpr (Nat.cast_le.mpr hle))]

/-- No whole number is nearer to the quotient, and one that is as near leaves an even one. -/
theorem dist_roundHalfEven_le {num den whole : Nat} (hden : 0 < den)
    (hne : whole ≠ roundHalfEven num den) :
    Nat.dist (roundHalfEven num den * den) num ≤ Nat.dist (whole * den) num ∧
      (Nat.dist (whole * den) num = Nat.dist (roundHalfEven num den * den) num →
        2 ∣ roundHalfEven num den) := by
  have hdivision := Nat.div_add_mod num den
  have hmod := Nat.mod_lt num hden
  rw [Nat.mul_comm] at hdivision
  generalize hrounded : roundHalfEven num den = rounded at hne ⊢
  have hside : (whole + 1) * den ≤ rounded * den ∨ (rounded + 1) * den ≤ whole * den := by
    rcases Nat.lt_or_gt_of_ne hne with hlt | hgt
    · exact .inl (Nat.mul_le_mul_right den hlt)
    · exact .inr (Nat.mul_le_mul_right den hgt)
  unfold roundHalfEven at hrounded
  dsimp only at hrounded
  rw [Nat.add_mul, Nat.add_mul, Nat.one_mul] at hside
  unfold Nat.dist
  split at hrounded
  · subst hrounded
    rw [Nat.add_mul, Nat.one_mul] at hside ⊢
    omega
  · subst hrounded
    omega

namespace Magnitude

/-! ## The nearest magnitude -/

/-- The last of the digits that are kept is even. -/
def EndsEven (units : Nat) : Prop := 2 * spacing units ∣ units

theorem spacing_dvd_spacing {a b : Nat} (hle : a ≤ b) : spacing a ∣ spacing b :=
  Nat.pow_dvd_pow 2 (Nat.sub_le_sub_right (log2_mono hle) 52)

/-- A whole number of 53 digits that is even ends evenly, whatever its place. -/
theorem endsEven_mul_two_pow {n e : Nat} (hn : n ≤ 2 ^ 53) (heven : 2 ∣ n) :
    EndsEven (n * 2 ^ e) := by
  obtain ⟨k, rfl⟩ := heven
  have hk : k ≤ 2 ^ 52 := by omega
  have hplace : 2 * k * 2 ^ e = k * 2 ^ (e + 1) := by
    rw [Nat.pow_succ']
    grind
  rw [EndsEven, hplace]
  by_cases htop : k = 2 ^ 52
  · subst htop
    rw [← Nat.pow_add, spacing, Nat.log2_two_pow, ← Nat.pow_succ']
    exact Nat.pow_dvd_pow 2 (by omega)
  · refine Nat.dvd_trans ?_ (Nat.dvd_mul_left _ _)
    rw [spacing, ← Nat.pow_succ']
    apply Nat.pow_dvd_pow
    by_cases hzero : k = 0
    · subst hzero
      simp
    · have hlt : k * 2 ^ (e + 1) < 2 ^ (53 + e) := by
        have hk' : k < 2 ^ 52 := by omega
        rw [show 53 + e = 52 + (e + 1) by omega, Nat.pow_add 2 52 (e + 1)]
        exact Nat.mul_lt_mul_of_pos_right hk' (Nat.two_pow_pos _)
      have hne : k * 2 ^ (e + 1) ≠ 0 := Nat.mul_ne_zero hzero (Nat.two_pow_pos _).ne'
      have hlog := (Nat.log2_lt hne).mpr hlt
      omega

/-- Numbers that are no multiple of the spacing at a quotient lie below its first digit. -/
theorem lt_of_not_spacing_dvd {num den units : Nat} (hdvd : spacing units ∣ units)
    (hnot : ¬spacing (num / den) ∣ units) :
    units < 2 ^ 52 * spacing (num / den) ∧ 2 ^ 52 * spacing (num / den) * den ≤ num := by
  have hlog : units.log2 - 52 < (num / den).log2 - 52 := by
    by_contra hle
    exact hnot (Nat.dvd_trans (Nat.pow_dvd_pow 2 (Nat.not_lt.mp hle)) hdvd)
  have hpower : 2 ^ 52 * spacing (num / den) = 2 ^ (num / den).log2 := by
    rw [spacing, ← Nat.pow_add]
    congr 1
    omega
  have hquotient : num / den ≠ 0 := by
    intro hzero
    rw [hzero, Nat.log2_zero] at hlog
    omega
  constructor
  · rw [hpower]
    exact Nat.lt_of_lt_of_le Nat.lt_log2_self (Nat.pow_le_pow_right (by decide) (by omega))
  · rw [hpower]
    exact Nat.le_trans (Nat.mul_le_mul_right _ (Nat.log2_self_le hquotient))
      (Nat.div_mul_le_self num den)

/-- No other number of the format is nearer to the quotient, and one that is as near leaves a
number that ends evenly. -/
theorem dist_nearest_le {num den units : Nat} (hden : 0 < den) (hdvd : spacing units ∣ units)
    (hne : units ≠ nearest num den) :
    Nat.dist (nearest num den * den) num ≤ Nat.dist (units * den) num ∧
      (Nat.dist (units * den) num = Nat.dist (nearest num den * den) num →
        EndsEven (nearest num den)) := by
  have hstep := Nat.mul_pos hden (spacing_pos (num / den))
  have hround := roundHalfEven_spacing_le num den
  rw [nearest_mul]
  by_cases hgrid : spacing (num / den) ∣ units
  · obtain ⟨whole, rfl⟩ := hgrid
    have hunits : spacing (num / den) * whole * den = whole * (den * spacing (num / den)) := by
      grind
    have hwhole : whole ≠ roundHalfEven num (den * spacing (num / den)) := by
      rintro rfl
      exact hne (Nat.mul_comm _ _)
    rw [hunits]
    obtain ⟨hle, heven⟩ := dist_roundHalfEven_le hstep hwhole
    exact ⟨hle, fun hsame => endsEven_mul_two_pow hround (heven hsame)⟩
  -- Any other number lies below a power of two that is itself among the multiples.
  · obtain ⟨hlow, hhigh⟩ := lt_of_not_spacing_dvd hdvd hgrid
    have hpower : Nat.dist
        (roundHalfEven num (den * spacing (num / den)) * (den * spacing (num / den))) num ≤
        Nat.dist (2 ^ 52 * (den * spacing (num / den))) num := by
      by_cases hsame : 2 ^ 52 = roundHalfEven num (den * spacing (num / den))
      · rw [← hsame]
      · exact (dist_roundHalfEven_le hstep hsame).1
    have hless : units * den < 2 ^ 52 * spacing (num / den) * den :=
      Nat.mul_lt_mul_of_pos_right hlow hden
    have hassoc : 2 ^ 52 * (den * spacing (num / den)) = 2 ^ 52 * spacing (num / den) * den := by
      grind
    rw [hassoc] at hpower
    unfold Nat.dist at hpower ⊢
    omega

/-! ## The end of the range -/

/-- Half-way between the last number below a power of two and that power the digits turn over. -/
theorem nearest_halfway (k : Nat) :
    nearest ((2 ^ 54 - 1) * 2 ^ (k + 1)) 2 = 2 ^ 53 * 2 ^ (k + 1) := by
  have hpos := Nat.two_pow_pos k
  have hquotient : (2 ^ 54 - 1) * 2 ^ (k + 1) / 2 = (2 ^ 54 - 1) * 2 ^ k := by
    rw [Nat.pow_succ 2 k]
    omega
  have hlog : ((2 ^ 54 - 1) * 2 ^ k).log2 = 53 + k := by
    rw [Nat.log2_eq_iff (by omega), Nat.pow_add, show 53 + k + 1 = 54 + k by omega,
      Nat.pow_add 2 54]
    omega
  have hspacing : spacing ((2 ^ 54 - 1) * 2 ^ (k + 1) / 2) = 2 ^ (k + 1) := by
    rw [hquotient, spacing, hlog, show 53 + k - 52 = k + 1 by omega]
  have hdigits : roundHalfEven (2 ^ 54 - 1) 2 = 2 ^ 53 := by decide
  rw [nearest, hspacing, roundHalfEven_mul_right _ _ (Nat.two_pow_pos _), hdigits]

theorem topSpacing_eq_two_pow : ∃ k, topSpacing = 2 ^ (k + 1) := by
  have hpower : ∀ e n, n = 2 ^ e → 0 < e → ∃ k, n = 2 ^ (k + 1) := by
    rintro e n rfl he
    exact ⟨e - 1, by rw [Nat.sub_add_cancel he]⟩
  exact hpower _ _ topSpacing.eq_1 (by decide)

/-- From the middle between the largest number and the limit on nothing is rounded to a
number. -/
theorem limit_le_nearest_iff {num den : Nat} (hden : 0 < den) :
    limit ≤ nearest num den ↔ (2 ^ 54 - 1) * (topSpacing * den) ≤ 2 * num := by
  constructor
  · intro hlimit
    by_contra hless
    have hfinite : nearest num den < limit := nearest_lt_limit (by omega)
    omega
  · intro hbound
    have hmiddle : nearest ((2 ^ 54 - 1) * topSpacing) 2 = limit := by
      obtain ⟨k, hk⟩ := topSpacing_eq_two_pow
      rw [limit_eq, hk]
      exact nearest_halfway k
    calc
      limit = nearest ((2 ^ 54 - 1) * topSpacing * den) (2 * den) := by
        rw [nearest_mul_right _ _ hden, hmiddle]
      _ ≤ nearest (num * 2) (2 * den) := by
        apply nearest_mono
        rw [Nat.mul_assoc]
        omega
      _ = nearest num den := by rw [Nat.mul_comm 2 den, nearest_mul_right _ _ Nat.two_pos]

/-! ## Rational numbers -/

/-- The rational number that a magnitude is. -/
def toRat (m : Magnitude) : ℚ := m.units / one

/-- How far a magnitude is from a quotient, counted in parts that divide both. -/
theorem abs_toRat_sub (m : Magnitude) (num : Nat) {den : Nat} (hden : 0 < den) :
    |m.toRat - num / den| = Nat.dist (m.units * den) (one * num) / (one * den : Nat) := by
  have hone : (one : ℚ) ≠ 0 := Nat.cast_ne_zero.mpr one_pos.ne'
  have hden' : (den : ℚ) ≠ 0 := Nat.cast_ne_zero.mpr hden.ne'
  have hparts : m.toRat - num / den =
      ((m.units * den : Nat) - (one * num : Nat) : ℚ) / (one * den : Nat) := by
    rw [toRat, div_sub_div _ _ hone hden', Nat.cast_mul, Nat.cast_mul, Nat.cast_mul]
  rw [hparts, abs_div, ← cast_dist, Nat.abs_cast]

theorem toRat_lt_toRat_iff {m n : Magnitude} : m.toRat < n.toRat ↔ m.units < n.units := by
  rw [toRat, toRat, div_lt_div_iff_of_pos_right (Nat.cast_pos.mpr one_pos), Nat.cast_lt]

/-- No other magnitude is nearer to the size. -/
def Nearest (m : Magnitude) (size : ℚ) : Prop :=
  ∀ n : Magnitude, |m.toRat - size| ≤ |n.toRat - size|

theorem Nearest.not_between {m n k : Magnitude} {size : ℚ} (hm : m.Nearest size)
    (hn : n.Nearest size) (hlow : m.units < k.units) : n.units ≤ k.units := by
  by_contra hhigh
  have hlow' : m.toRat < k.toRat := toRat_lt_toRat_iff.mpr hlow
  have hhigh' : k.toRat < n.toRat := toRat_lt_toRat_iff.mpr (Nat.lt_of_not_le hhigh)
  rcases le_total k.toRat size with hside | hside
  · have hnearer := (neg_le_abs (m.toRat - size)).trans (hm k)
    rw [abs_of_nonpos (sub_nonpos.mpr hside)] at hnearer
    linarith
  · have hnearer := (le_abs_self (n.toRat - size)).trans (hn k)
    rw [abs_of_nonneg (sub_nonneg.mpr hside)] at hnearer
    linarith

/-- Below the limit a number plus its spacing is a number again. -/
theorem representable_add_spacing (m : Magnitude) (hlimit : m.units + spacing m.units < limit) :
    Representable (m.units + spacing m.units) := by
  refine ⟨hlimit, ?_⟩
  obtain ⟨whole, hwhole⟩ := m.representable.2
  have hlt : spacing m.units * whole < spacing m.units * 2 ^ 53 := by
    rw [← hwhole, Nat.mul_comm]
    exact lt_mul_spacing m.units
  have hsum : m.units + spacing m.units = (whole + 1) * spacing m.units := by
    rw [Nat.add_mul, Nat.one_mul, Nat.mul_comm whole, ← hwhole]
  rw [hsum, spacing]
  exact spacing_dvd_mul_two_pow (Nat.lt_of_mul_lt_mul_left hlt)

/-- Of two numbers with none between them only one ends evenly. -/
theorem Nearest.le_of_endsEven {m n : Magnitude} {size : ℚ} (hm : m.Nearest size)
    (hn : n.Nearest size) (hm' : EndsEven m.units) (hn' : EndsEven n.units) :
    n.units ≤ m.units := by
  by_contra hlt
  have hstep := spacing_pos m.units
  have hdvd : spacing m.units ∣ n.units - m.units :=
    Nat.dvd_sub ((spacing_dvd_spacing (by omega)).trans n.representable.2) m.representable.2
  have hle := Nat.le_of_dvd (by omega) hdvd
  have hlimit := n.representable.1
  have hnext : n.units ≤ m.units + spacing m.units := by
    have hrepresentable := representable_add_spacing m (by omega)
    exact hm.not_between hn (k := ⟨_, hrepresentable⟩) (Nat.lt_add_of_pos_right hstep)
  have hsum : n.units - m.units = spacing m.units := by omega
  have heven : 2 * spacing m.units ∣ n.units - m.units :=
    Nat.dvd_sub ((Nat.mul_dvd_mul_left 2 (spacing_dvd_spacing (by omega))).trans hn') hm'
  rw [hsum] at heven
  have hdouble := Nat.le_of_dvd hstep heven
  omega

end Magnitude

namespace Binary64

open Magnitude

/-- The middle between the largest number and the limit. -/
def overflowFrom : Nat := 2 ^ 1024 - 2 ^ 970

theorem overflowFrom_mul : 2 * one * overflowFrom = (2 ^ 54 - 1) * topSpacing := by
  -- The powers are too large to be computed, so their exponents are kept apart.
  have hpowers : ∀ {a b c d m n from'}, m = 2 ^ a → n = 2 ^ d → from' = 2 ^ c - 2 ^ b →
      c = 54 + b → d = a + b + 1 → 2 * m * from' = (2 ^ 54 - 1) * n := by
    rintro a b c d m n from' rfl rfl rfl rfl rfl
    have hfront : 2 ^ (54 + b) - 2 ^ b = (2 ^ 54 - 1) * 2 ^ b := by
      rw [Nat.pow_add 2 54 b, Nat.sub_one_mul]
    have hback : 2 ^ (a + b + 1) = 2 * 2 ^ a * 2 ^ b := by
      rw [Nat.pow_succ', Nat.pow_add, Nat.mul_assoc]
    rw [hfront, hback, Nat.mul_left_comm]
  exact hpowers one.eq_1 topSpacing.eq_1 overflowFrom.eq_1 rfl rfl

/-- What a size with a sign is rounded to: the nearest number, of two that are equally near the
one whose last digit is even, and from the end of the range on what is infinite. -/
inductive Rounds (negative : Bool) (size : ℚ) : Binary64 → Prop where
  | infinite (hsize : overflowFrom ≤ size) : Rounds negative size (.infinite negative)
  | finite {m : Magnitude} (hsize : size < overflowFrom)
      (hnearest : m.Nearest size)
      (heven : ∀ n ≠ m, |n.toRat - size| = |m.toRat - size| → EndsEven m.units) :
      Rounds negative size (.finite negative m)

theorem overflowFrom_le_div_iff (num : Nat) {den : Nat} (hden : 0 < den) :
    (overflowFrom : ℚ) ≤ num / den ↔ limit ≤ nearest (one * num) den := by
  have hden' : (0 : ℚ) < den := Nat.cast_pos.mpr hden
  have hfactor : (2 ^ 54 - 1) * (topSpacing * den) = 2 * one * (overflowFrom * den) := by
    rw [← Nat.mul_assoc, ← overflowFrom_mul, Nat.mul_assoc]
  rw [le_div_iff₀ hden', ← Nat.cast_mul, Nat.cast_le, limit_le_nearest_iff hden, hfactor,
    ← Nat.mul_assoc 2 one num]
  exact (Nat.mul_le_mul_left_iff (Nat.mul_pos Nat.two_pos Magnitude.one_pos)).symm

theorem rounds_ofQuotient (negative : Bool) (num : Nat) {den : Nat} (hden : 0 < den) :
    Rounds negative (num / den) (ofQuotient negative (one * num) den) := by
  have hparts : (0 : ℚ) < (one * den : Nat) := Nat.cast_pos.mpr (Nat.mul_pos Magnitude.one_pos hden)
  rcases Nat.lt_or_ge (nearest (one * num) den) limit with hfinite | hinfinite
  · have hsize : (num / den : ℚ) < overflowFrom := by
      rw [← not_le, overflowFrom_le_div_iff num hden]
      omega
    rw [ofQuotient_eq_finite hfinite]
    refine .finite hsize ?_ ?_
    · intro n
      rw [abs_toRat_sub _ num hden, abs_toRat_sub _ num hden, div_le_div_iff_of_pos_right hparts,
        Nat.cast_le]
      by_cases hsame : n.units = nearest (one * num) den
      · rw [hsame]
      · exact (dist_nearest_le hden n.representable.2 hsame).1
    · intro n hne hequal
      rw [abs_toRat_sub _ num hden, abs_toRat_sub _ num hden, div_left_inj' hparts.ne',
        Nat.cast_inj] at hequal
      have hunits : n.units ≠ nearest (one * num) den :=
        fun hsame => hne (finite_eq_of_units hsame)
      exact (dist_nearest_le hden n.representable.2 hunits).2 hequal
  · rw [ofQuotient_eq_infinite hinfinite]
    exact .infinite ((overflowFrom_le_div_iff num hden).mpr hinfinite)

theorem Rounds.unique {negative : Bool} {size : ℚ} {x y : Binary64}
    (hx : Rounds negative size x) (hy : Rounds negative size y) : x = y := by
  cases hx with
  | infinite hsize =>
      cases hy with
      | infinite => rfl
      | finite hsize' => exact absurd hsize hsize'.not_ge
  | @finite m hsize hm heven =>
      cases hy with
      | infinite hsize' => exact absurd hsize' hsize.not_ge
      | @finite n _ hn heven' =>
          by_cases hsame : m = n
          · rw [hsame]
          · have hequal := le_antisymm (hm n) (hn m)
            have hm' := heven n (Ne.symm hsame) hequal.symm
            have hn' := heven' m hsame hequal
            have hunits := Nat.le_antisymm (hn.le_of_endsEven hm hn' hm')
              (hm.le_of_endsEven hn hm' hn')
            rw [finite_eq_of_units hunits]

theorem rounds_iff {negative : Bool} {num den : Nat} (hden : 0 < den) {x : Binary64} :
    Rounds negative (num / den) x ↔ x = ofQuotient negative (one * num) den := by
  constructor
  · exact fun hx => hx.unique (rounds_ofQuotient negative num hden)
  · intro hx
    rw [hx]
    exact rounds_ofQuotient negative num hden

end Binary64

end RewardPlot
