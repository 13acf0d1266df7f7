import RewardPlot.Decimal.Shortest
import RewardPlot.Proofs.Binary64.Rounding
/-!
# Shortest decimals read back

Seventeen digits always suffice: the nearer of the two decimals with so many digits beside a
magnitude rounds to it.  The shortest decimal is therefore always found on one of the grids.
-/

namespace RewardPlot

/-! ## Widths and leading places -/

namespace Decimal

theorem width_le_iff {n k : Nat} : width n ≤ k ↔ n < 10 ^ k := by
  rw [width]
  by_cases hn : n = 0
  · rw [if_pos hn, hn]
    exact ⟨fun _ => Nat.pow_pos (by decide), fun _ => Nat.zero_le k⟩
  · rw [if_neg hn]
    rcases Nat.eq_zero_or_pos k with rfl | hk
    · have hlength := Nat.length_toDigits_pos (b := 10) (n := n)
      omega
    · exact Nat.length_toDigits_le_iff (by decide) hk

theorem lt_pow_width (n : Nat) : n < 10 ^ width n := width_le_iff.mp (Nat.le_refl _)

theorem pow_le_of_lt_width {n k : Nat} (hk : k < width n) : 10 ^ k ≤ n := by
  have hwidth : ¬width n ≤ k := by omega
  rw [width_le_iff] at hwidth
  omega

theorem width_pos {n : Nat} (hn : 0 < n) : 0 < width n := by
  have hwidth : ¬width n ≤ 0 := by
    rw [width_le_iff]
    omega
  omega

theorem leadingPlace_le {num den : Nat} (hnum : 0 < num) (hden : 0 < den) :
    den * 10 ^ (leadingPlace num den).toNat ≤ num * 10 ^ (-leadingPlace num den).toNat := by
  rw [leadingPlace]
  split
  · next hle =>
    have hquotient : 0 < num / den := Nat.div_pos hle hden
    have hwidth := width_pos hquotient
    have hpower : 10 ^ (width (num / den) - 1) ≤ num / den := pow_le_of_lt_width (by omega)
    rw [show ((width (num / den) : Int) - 1).toNat = width (num / den) - 1 by omega,
      show (-((width (num / den) : Int) - 1)).toNat = 0 by omega]
    rw [Nat.le_div_iff_mul_le hden, Nat.mul_comm] at hpower
    omega
  · next hlt =>
    generalize hw : width ((den + num - 1) / num - 1) = w
    have hquotient := lt_pow_width ((den + num - 1) / num - 1)
    rw [hw] at hquotient
    have hceiling : (den + num - 1) / num < 10 ^ w + 1 := by omega
    rw [Nat.div_lt_iff_lt_mul hnum, Nat.add_mul] at hceiling
    rw [show (-(w : Int)).toNat = 0 by omega, show (- -(w : Int)).toNat = w by omega,
      Nat.mul_comm num]
    omega

theorem lt_leadingPlace_succ {num den : Nat} (hnum : 0 < num) (hden : 0 < den) :
    num * 10 ^ (-(leadingPlace num den + 1)).toNat <
      den * 10 ^ (leadingPlace num den + 1).toNat := by
  rw [leadingPlace]
  split
  · next hle =>
    have hquotient := lt_pow_width (num / den)
    rw [show (((width (num / den) : Int) - 1) + 1).toNat = width (num / den) by omega,
      show (-(((width (num / den) : Int) - 1) + 1)).toNat = 0 by omega]
    rw [Nat.div_lt_iff_lt_mul hden, Nat.mul_comm] at hquotient
    omega
  · next hlt =>
    generalize hw : width ((den + num - 1) / num - 1) = w
    have hceiling : 2 ≤ (den + num - 1) / num := by
      rw [Nat.le_div_iff_mul_le hnum]
      omega
    have hwidth : 0 < w := by
      rw [← hw]
      exact width_pos (by omega)
    have hpower : 10 ^ (w - 1) ≤ (den + num - 1) / num - 1 :=
      pow_le_of_lt_width (by omega)
    have hpower' : 10 ^ (w - 1) + 1 ≤ (den + num - 1) / num := by omega
    rw [Nat.le_div_iff_mul_le hnum, Nat.add_mul, Nat.mul_comm] at hpower'
    rw [show (-(w : Int) + 1).toNat = 0 by omega,
      show (-(-(w : Int) + 1)).toNat = w - 1 by omega]
    omega

/-- Every magnitude has its leading place within the first 324 after the point. -/
theorem neg_le_leadingPlace {units : Nat} (hunits : 0 < units) :
    -324 ≤ leadingPlace units Magnitude.one := by
  rw [leadingPlace]
  split
  · omega
  · have hquotient : (Magnitude.one + units - 1) / units - 1 < 10 ^ 324 := by
      have hone : Magnitude.one < 10 ^ 324 := by decide +kernel
      have hmul : Magnitude.one ≤ units * Magnitude.one := Nat.le_mul_of_pos_left _ hunits
      have hlt : (Magnitude.one + units - 1) / units < Magnitude.one + 1 := by
        apply Nat.div_lt_of_lt_mul
        rw [Nat.mul_add_one]
        omega
      omega
    have hwidth := width_le_iff.mpr hquotient
    omega

/-! ## Grids -/

def gridStep (exponent : Int) : Nat := Magnitude.one * 10 ^ exponent.toNat

theorem gridStep_pos (exponent : Int) : 0 < gridStep exponent :=
  Nat.mul_pos Magnitude.one_pos (Nat.pow_pos (by decide))

/-- The powers of ten of a grid with `n + 1` digits and of the leading place cancel out. -/
theorem pow_toNat_sub (place : Int) (n : Nat) :
    10 ^ (place - n).toNat * 10 ^ n * 10 ^ (-place).toNat =
      10 ^ place.toNat * 10 ^ (-(place - n)).toNat := by
  rw [← Nat.pow_add, ← Nat.pow_add, ← Nat.pow_add]
  congr 1
  omega

theorem grid_le {units : Nat} (hunits : 0 < units) (n : Nat) :
    10 ^ n * gridStep (leadingPlace units Magnitude.one - n) ≤
      units * 10 ^ (-(leadingPlace units Magnitude.one - n)).toNat := by
  have hplace := leadingPlace_le hunits Magnitude.one_pos
  generalize leadingPlace units Magnitude.one = place at hplace
  have hpowers := pow_toNat_sub place n
  have hpos : 0 < 10 ^ (-place).toNat := Nat.pow_pos (by decide)
  refine Nat.le_of_mul_le_mul_right ?_ hpos
  calc 10 ^ n * (Magnitude.one * 10 ^ (place - n).toNat) * 10 ^ (-place).toNat
      = Magnitude.one * (10 ^ (place - n).toNat * 10 ^ n * 10 ^ (-place).toNat) := by grind
    _ = Magnitude.one * 10 ^ place.toNat * 10 ^ (-(place - n)).toNat := by
        rw [hpowers, Nat.mul_assoc]
    _ ≤ units * 10 ^ (-place).toNat * 10 ^ (-(place - n)).toNat := Nat.mul_le_mul_right _ hplace
    _ = units * 10 ^ (-(place - n)).toNat * 10 ^ (-place).toNat := Nat.mul_right_comm _ _ _

theorem lt_grid {units : Nat} (hunits : 0 < units) (n : Nat) :
    units * 10 ^ (-(leadingPlace units Magnitude.one - n)).toNat <
      10 ^ (n + 1) * gridStep (leadingPlace units Magnitude.one - n) := by
  have hplace := lt_leadingPlace_succ hunits Magnitude.one_pos
  generalize leadingPlace units Magnitude.one = place at hplace
  have hpowers := pow_toNat_sub (place + 1) (n + 1)
  rw [show place + 1 - (n + 1 : Nat) = place - n by omega] at hpowers
  refine Nat.lt_of_mul_lt_mul_right (a := 10 ^ (-(place + 1)).toNat) ?_
  calc units * 10 ^ (-(place - n)).toNat * 10 ^ (-(place + 1)).toNat
      = units * 10 ^ (-(place + 1)).toNat * 10 ^ (-(place - n)).toNat := Nat.mul_right_comm _ _ _
    _ < Magnitude.one * 10 ^ (place + 1).toNat * 10 ^ (-(place - n)).toNat :=
        Nat.mul_lt_mul_of_pos_right hplace (Nat.pow_pos (by decide))
    _ = Magnitude.one * (10 ^ (place - n).toNat * 10 ^ (n + 1) * 10 ^ (-(place + 1)).toNat) := by
        rw [hpowers, Nat.mul_assoc]
    _ = 10 ^ (n + 1) * (Magnitude.one * 10 ^ (place - n).toNat) * 10 ^ (-(place + 1)).toNat := by
        grind

/-- A multiple of a fine grid that is at most half of its step away rounds back. -/
theorem nearestUnits_eq {units significand : Nat} {exponent : Int} (hunits : 0 < units)
    (hdvd : Magnitude.spacing units ∣ units)
    (hfine : 10 ^ 16 * gridStep exponent ≤ units * 10 ^ (-exponent).toNat)
    (habove : 2 * (significand * gridStep exponent) ≤
      2 * (units * 10 ^ (-exponent).toNat) + gridStep exponent)
    (hbelow : 2 * (units * 10 ^ (-exponent).toNat) ≤
      2 * (significand * gridStep exponent) + gridStep exponent) :
    (Decimal.mk significand exponent).nearestUnits = units := by
  have hstep := gridStep_pos exponent
  have hnum : Magnitude.one * (Decimal.mk significand exponent).num =
      significand * gridStep exponent := Nat.mul_left_comm _ _ _
  have hden : (Decimal.mk significand exponent).den = 10 ^ (-exponent).toNat := rfl
  rw [nearestUnits, hnum, hden]
  apply Magnitude.nearest_eq_of_close hunits hdvd
  · omega
  · omega

theorem nearer_spec (tie : Tie) (units : Nat) (d : Decimal) :
    nearer tie units d = d ∨ nearer tie units d = d.next := by
  delta nearer
  cases compareMiddle units d with
  | lt => exact .inl rfl
  | gt => exact .inr rfl
  | eq =>
    dsimp only
    split
    · exact .inl rfl
    · exact .inr rfl
theorem onGrid?_spec {tie : Tie} {units : Nat} {exponent : Int} {d : Decimal}
    (hgrid : onGrid? tie units exponent = some d) :
    (d = below units exponent ∨ d = (below units exponent).next) ∧ d.nearestUnits = units := by
  rw [onGrid?] at hgrid
  split at hgrid
  · next hlow =>
    split at hgrid
    · next hnext =>
      rw [← Option.some.inj hgrid]
      rcases nearer_spec tie units (below units exponent) with hnearer | hnearer
      · rw [hnearer]
        exact ⟨.inl rfl, hlow⟩
      · rw [hnearer]
        exact ⟨.inr rfl, hnext⟩
    · rw [← Option.some.inj hgrid]
      exact ⟨.inl rfl, hlow⟩
  · split at hgrid
    · next hnext =>
      rw [← Option.some.inj hgrid]
      exact ⟨.inr rfl, hnext⟩
    · cases hgrid

theorem onGrid?_isSome {tie : Tie} {units : Nat} {exponent : Int}
    (hrounds : (below units exponent).nearestUnits = units ∨
      (below units exponent).next.nearestUnits = units) :
    (onGrid? tie units exponent).isSome := by
  rw [onGrid?]
  split
  · split <;> rfl
  · next hlow =>
    rw [if_pos (hrounds.resolve_left hlow)]
    rfl

theorem below_bounds (units : Nat) (exponent : Int) :
    (below units exponent).significand * gridStep exponent ≤ units * 10 ^ (-exponent).toNat ∧
      units * 10 ^ (-exponent).toNat <
        ((below units exponent).significand + 1) * gridStep exponent :=
  ⟨Nat.div_mul_le_self _ _,
    Nat.lt_mul_of_div_lt (Nat.lt_succ_self _) (gridStep_pos exponent)⟩

/-- On the grid with seventeen digits the nearer neighbour rounds back. -/
theorem onGrid?_seventeen (tie : Tie) {units : Nat} (hunits : 0 < units)
    (hdvd : Magnitude.spacing units ∣ units) :
    (onGrid? tie units (leadingPlace units Magnitude.one - (16 : Nat))).isSome := by
  have hfine := grid_le hunits 16
  generalize leadingPlace units Magnitude.one - (16 : Nat) = exponent at hfine
  obtain ⟨hlow, hnext⟩ := below_bounds units exponent
  have hnext' := Nat.add_mul (below units exponent).significand 1 (gridStep exponent)
  apply onGrid?_isSome
  by_cases hcloser : 2 * (units * 10 ^ (-exponent).toNat) ≤
      2 * ((below units exponent).significand * gridStep exponent) + gridStep exponent
  · have habove : 2 * ((below units exponent).significand * gridStep exponent) ≤
        2 * (units * 10 ^ (-exponent).toNat) + gridStep exponent := by omega
    exact .inl (nearestUnits_eq hunits hdvd hfine habove hcloser)
  · have habove : 2 * (((below units exponent).significand + 1) * gridStep exponent) ≤
        2 * (units * 10 ^ (-exponent).toNat) + gridStep exponent := by omega
    have hbelow : 2 * (units * 10 ^ (-exponent).toNat) ≤
        2 * (((below units exponent).significand + 1) * gridStep exponent) +
          gridStep exponent := by omega
    exact .inr (nearestUnits_eq hunits hdvd hfine habove hbelow)

/-! ## What is found -/

/-- A decimal stands for a magnitude: it rounds to it and has at most seventeen digits. -/
structure StandsFor (d : Decimal) (units : Nat) : Prop where
  positive : 0 < d.significand
  short : d.significand ≤ 10 ^ 17
  place : leadingPlace units Magnitude.one - 16 ≤ d.exponent
  rounds : d.nearestUnits = units

theorem standsFor_of_onGrid? {tie : Tie} {units n : Nat} {d : Decimal} (hunits : 0 < units)
    (hn : n < 17)
    (hgrid : onGrid? tie units (leadingPlace units Magnitude.one - n) = some d) :
    d.StandsFor units := by
  have hlow := grid_le hunits n
  have hhigh := lt_grid hunits n
  obtain ⟨hbeside, hrounds⟩ := onGrid?_spec hgrid
  obtain ⟨hbelow, hnext⟩ :=
    below_bounds units (leadingPlace units Magnitude.one - n)
  have hpower : 0 < 10 ^ n := Nat.pow_pos (by decide)
  have hpower' : 10 ^ (n + 1) ≤ 10 ^ 17 := Nat.pow_le_pow_right (by decide) hn
  have hge := Nat.lt_of_mul_lt_mul_right (Nat.lt_of_le_of_lt hlow hnext)
  have hlt := Nat.lt_of_mul_lt_mul_right (Nat.lt_of_le_of_lt hbelow hhigh)
  rcases hbeside with rfl | rfl
  · refine ⟨by omega, by omega, ?_, hrounds⟩
    show leadingPlace units Magnitude.one - 16 ≤ leadingPlace units Magnitude.one - n
    omega
  · refine ⟨Nat.succ_pos _, Nat.le_trans hlt hpower', ?_, hrounds⟩
    show leadingPlace units Magnitude.one - 16 ≤ leadingPlace units Magnitude.one - n
    omega

theorem nearestUnits_div_ten {d : Decimal} (hzero : d.significand % 10 = 0) :
    (Decimal.mk (d.significand / 10) (d.exponent + 1)).nearestUnits = d.nearestUnits := by
  have hsignificand : d.significand = d.significand / 10 * 10 := by omega
  by_cases hexponent : 0 ≤ d.exponent
  · have hnum : (Decimal.mk (d.significand / 10) (d.exponent + 1)).num = d.num := by
      rw [num, num, show (d.exponent + 1).toNat = d.exponent.toNat + 1 by omega, Nat.pow_succ',
        ← Nat.mul_assoc, ← hsignificand]
    have hden : (Decimal.mk (d.significand / 10) (d.exponent + 1)).den = d.den := by
      rw [den, den, show (-(d.exponent + 1)).toNat = (-d.exponent).toNat by omega]
    rw [nearestUnits, nearestUnits, hnum, hden]
  · have hnum : (Decimal.mk (d.significand / 10) (d.exponent + 1)).num * 10 = d.num := by
      rw [num, num, show (d.exponent + 1).toNat = 0 by omega,
        show d.exponent.toNat = 0 by omega, Nat.pow_zero, Nat.mul_one, Nat.mul_one,
        ← hsignificand]
    have hden : (Decimal.mk (d.significand / 10) (d.exponent + 1)).den * 10 = d.den := by
      rw [den, den, ← Nat.pow_succ]
      congr 1
      show (-(d.exponent + 1)).toNat + 1 = (-d.exponent).toNat
      omega
    rw [nearestUnits, nearestUnits, ← hnum, ← hden, ← Nat.mul_assoc]
    exact (Magnitude.nearest_mul_right _ _ (by decide)).symm

theorem StandsFor.trimZeros_go {units : Nat} (fuel : Nat) {d : Decimal}
    (h : d.StandsFor units) : (trimZeros.go fuel d).StandsFor units := by
  induction fuel generalizing d with
  | zero => exact h
  | succ fuel ih =>
      rw [trimZeros.go]
      split
      · next hzero =>
        have hpositive := h.positive
        have hshort := h.short
        have hplace := h.place
        apply ih
        refine ⟨?_, ?_, ?_, (nearestUnits_div_ten hzero).trans h.rounds⟩
        · show 0 < d.significand / 10
          omega
        · show d.significand / 10 ≤ 10 ^ 17
          omega
        · show leadingPlace units Magnitude.one - 16 ≤ d.exponent + 1
          omega
      · exact h

/-- The shortest decimal stands for its magnitude. -/
theorem shortest_standsFor (tie : Tie) {units : Nat} (hunits : 0 < units)
    (hdvd : Magnitude.spacing units ∣ units) : (shortest tie units).StandsFor units := by
  rw [shortest]
  generalize hfound : (List.range 17).findSome? _ = found
  cases found with
  | some d =>
      obtain ⟨n, hn, hgrid⟩ := List.exists_of_findSome?_eq_some hfound
      exact (standsFor_of_onGrid? hunits (List.mem_range.mp hn) hgrid).trimZeros_go _
  | none =>
      have hgrid := List.findSome?_eq_none_iff.mp hfound 16 (by decide)
      have hsome := onGrid?_seventeen tie hunits hdvd
      rw [hgrid] at hsome
      cases hsome

end Decimal

end RewardPlot
