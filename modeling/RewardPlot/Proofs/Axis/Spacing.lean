import RewardPlot.Proofs.Axis.Multiples
/-!
# The spacing of key points

A scale that is of the order of the distance is divided until there are few multiples.  A division
that is taken leaves a step that is no small part of the distance, and one that is refused shows
that the step before it is no large part.  A scale that is divided by ten again and again becomes
too small to be divided once more, so the division ends.
-/

namespace RewardPlot.Axis

open Binary64 (ceiling halfUnit Near)

/-- A scale whose parts are still such steps. -/
structure ScaleFor (span : ℚ) (scale : Binary64) : Prop where
  isFinite : scale.isFinite
  low : span / 14 ≤ scale.toRat
  high : scale.toRat ≤ 105 * span

/-- The rounding of a count is off by a half, and hardly more. -/
theorem rounded_near {quotient : Binary64} {parts : Nat} (hquotient : quotient.isFinite)
    (hsize : |quotient.toRat| ≤ 4000) (hparts : parts ≤ 10) :
    (1 + quotient * .ofNat parts).round.isFinite ∧
      |(1 + quotient * .ofNat parts).round.toRat - (1 + quotient.toRat * parts)| ≤ 51 / 100 := by
  have hceiling := Binary64.two_pow_100_le_ceiling
  have hunit := Binary64.halfUnit_le_power
  have hfinite := Binary64.isFinite_ofNat (n := parts) (by omega)
  have hvalue := Binary64.toRat_ofNat (n := parts) (by omega)
  have hparts0 : (0 : ℚ) ≤ parts := Nat.cast_nonneg parts
  have hparts10 : (parts : ℚ) ≤ 10 := by exact_mod_cast hparts
  have hexact : |quotient.toRat * (Binary64.ofNat parts).toRat| ≤ 40000 := by
    rw [hvalue, abs_mul, abs_of_nonneg hparts0]
    have hmul := mul_le_mul hsize hparts10 hparts0 (by norm_num)
    linarith
  have hproduct := Binary64.near_mul hquotient hfinite (by linarith)
  obtain ⟨hproductLow, hproductHigh⟩ := hproduct.bounds hexact
  rw [hvalue] at hexact hproductLow hproductHigh
  rw [abs_le] at hexact
  have hexact' : |(1 : Binary64).toRat + (quotient * .ofNat parts).toRat| ≤ 50000 := by
    rw [Binary64.toRat_one, abs_le]
    constructor <;> linarith
  have hsum := Binary64.near_add Binary64.isFinite_one hproduct.isFinite (by linarith)
  obtain ⟨hsumLow, hsumHigh⟩ := hsum.bounds hexact'
  rw [Binary64.toRat_one] at hexact' hsumLow hsumHigh
  rw [abs_le] at hexact'
  obtain ⟨hround, hnear⟩ := Binary64.round_near hsum.isFinite
    (abs_le.mpr ⟨by linarith, by linarith⟩)
  rw [abs_le] at hnear
  refine ⟨hround, abs_le.mpr ⟨?_, ?_⟩⟩ <;> linarith

/-- From the quotient of the distance of two multiples by a scale to their count. -/
theorem count_mul_scale {count quotient extent span step scale parts : ℚ} (hspan : 0 < span)
    (hscale : span / 14 ≤ scale) (hparts : 0 ≤ parts) (hparts' : parts ≤ 10)
    (hcount : |count - (1 + quotient * parts)| ≤ 51 / 100)
    (hquotient : |quotient * scale - extent| ≤ span / 10 ^ 9)
    (hlow : span - 2 * step - span / 10 ^ 5 ≤ extent) (hhigh : extent ≤ span + span / 10 ^ 5)
    (hstep : |step * parts - scale| ≤ span / 10 ^ 9) :
    span * parts - 13 / 5 * scale ≤ (count - 1) * scale ∧
      (count - 1) * scale ≤ span * parts + 3 / 5 * scale := by
  have hscale0 : 0 ≤ scale := by linarith
  rw [abs_le] at hcount hquotient hstep
  have hspanParts := mul_le_mul_of_nonneg_left hparts' hspan.le
  have hcountLow := mul_le_mul_of_nonneg_right hcount.1 hscale0
  have hcountHigh := mul_le_mul_of_nonneg_right hcount.2 hscale0
  have hquotientLow := mul_le_mul_of_nonneg_right hquotient.1 hparts
  have hquotientHigh := mul_le_mul_of_nonneg_right hquotient.2 hparts
  have hextentLow := mul_le_mul_of_nonneg_right hlow hparts
  have hextentHigh := mul_le_mul_of_nonneg_right hhigh hparts
  constructor <;> linarith

namespace Apart

variable {low high x scale : Binary64} {span : ℚ} {parts : Nat} (hspan : Apart low high span)

include hspan

/-! ## Parts of a scale -/

theorem part_near (parts : Nat) (hscale : ScaleFor span scale) (hparts : 2 ≤ parts)
    (hparts' : parts ≤ 10) :
    (scale / .ofNat parts).isFinite ∧
      |(scale / .ofNat parts).toRat * parts - scale.toRat| ≤ span / 10 ^ 9 := by
  have hpos := hspan.pos
  have hunit := hspan.halfUnit_le
  have hunitPos := Binary64.halfUnit_pos
  have hscaleHigh := hscale.high
  have hscalePos : 0 < scale.toRat := lt_of_lt_of_le (by linarith) hscale.low
  have hcount := Binary64.toRat_ofNat (n := parts) (by omega)
  have hparts2 : (2 : ℚ) ≤ parts := by exact_mod_cast hparts
  have hparts10 : (parts : ℚ) ≤ 10 := by exact_mod_cast hparts'
  have hsize : |scale.toRat / (Binary64.ofNat parts).toRat| ≤ 15 / 16 * ceiling := by
    have hle := abs_le.mp (Binary64.abs_toRat_lt hscale.isFinite).le
    have htwo : 15 / 16 * ceiling * 2 ≤ 15 / 16 * ceiling * parts :=
      mul_le_mul_of_nonneg_left hparts2 (by linarith)
    rw [hcount, abs_of_pos (div_pos hscalePos (by linarith)), div_le_iff₀ (by linarith)]
    linarith
  have hnear := Binary64.near_div hscale.isFinite (Binary64.isFinite_ofNat (by omega))
    (by rw [hcount]; linarith) hsize
  refine ⟨hnear.isFinite, ?_⟩
  rw [hcount] at hnear
  have hproduct := hnear.mul_divisor (by linarith)
  rw [abs_of_pos hscalePos] at hproduct
  have hunitParts : halfUnit * parts ≤ halfUnit * 10 :=
    mul_le_mul_of_nonneg_left hparts10 hunitPos.le
  linarith

theorem stepFor_part (hscale : ScaleFor span scale) (hparts : 2 ≤ parts) (hparts' : parts ≤ 10) :
    StepFor span (scale / .ofNat parts) := by
  have hpos := hspan.pos
  have hceiling := hspan.span_le
  have hlow := hscale.low
  have hhigh := hscale.high
  have hsmall := abs_le.mp (Binary64.abs_toRat_lt hscale.isFinite).le
  have hparts2 : (2 : ℚ) ≤ parts := by exact_mod_cast hparts
  have hparts10 : (parts : ℚ) ≤ 10 := by exact_mod_cast hparts'
  obtain ⟨hfinite, hnear⟩ := hspan.part_near parts hscale hparts hparts'
  rw [abs_le] at hnear
  have hstepPos : 0 ≤ (scale / .ofNat parts).toRat := by
    by_contra hneg
    have hproduct := mul_neg_of_neg_of_pos (not_le.mp hneg) (show (0 : ℚ) < parts by linarith)
    linarith
  have htwo := mul_le_mul_of_nonneg_left hparts2 hstepPos
  have hten := mul_le_mul_of_nonneg_left hparts10 hstepPos
  refine ⟨hfinite, ?_, ?_, ?_⟩ <;> linarith

/-- The quotient that a count is rounded from. -/
theorem quotient_near (hscale : ScaleFor span scale) (hx : x.isFinite)
    (hsize : |x.toRat| ≤ 230 * span) : (x / scale).isFinite ∧
      |(x / scale).toRat| ≤ 4000 ∧ |(x / scale).toRat * scale.toRat - x.toRat| ≤ span / 10 ^ 9 := by
  have hpos := hspan.pos
  have hlow := hscale.low
  have hscalePos : 0 < scale.toRat := by linarith
  have hceiling := Binary64.two_pow_100_le_ceiling
  have hunit := Binary64.halfUnit_le_power
  have hexact : |x.toRat / scale.toRat| ≤ 3500 := by
    rw [abs_div, abs_of_pos hscalePos, div_le_iff₀ hscalePos]
    linarith
  have hnear := Binary64.near_div hx hscale.isFinite hscalePos.ne' (by linarith)
  obtain ⟨hnearLow, hnearHigh⟩ := hnear.bounds hexact
  have hproduct := hnear.mul_divisor hscalePos
  have hunitScale : halfUnit * scale.toRat ≤ 1 / 2 ^ 107 * (105 * span) :=
    mul_le_mul hunit hscale.high hscalePos.le (by norm_num)
  rw [abs_le] at hexact
  refine ⟨hnear.isFinite, abs_le.mpr ⟨by linarith, by linarith⟩, by linarith⟩

/-- A count of multiples, less one, is hardly different from the quotient of the distance by the
part of the scale, or at most two less. -/
theorem multiplesBetween_near (hscale : ScaleFor span scale) (hparts : 2 ≤ parts)
    (hparts' : parts ≤ 10) : ∃ count : ℚ,
      (majorLines < multiplesBetween low high scale (.ofNat parts) ↔ 11 ≤ count) ∧
        span * parts - 13 / 5 * scale.toRat ≤ (count - 1) * scale.toRat ∧
          (count - 1) * scale.toRat ≤ span * parts + 3 / 5 * scale.toRat := by
  have hpos := hspan.pos
  have hstep := hspan.stepFor_part hscale hparts hparts'
  have hstepHigh := hstep.high
  obtain ⟨-, hpart⟩ := hspan.part_near parts hscale hparts hparts'
  obtain ⟨hextent, hextentLow, hextentHigh⟩ := hspan.extent_bounds hstep
  obtain ⟨hquotient, hquotientSize, hquotientNear⟩ := hspan.quotient_near hscale hextent
    (abs_le.mpr ⟨by linarith, by linarith⟩)
  obtain ⟨hround, hroundNear⟩ := rounded_near hquotient hquotientSize hparts'
  have hparts10 : (parts : ℚ) ≤ 10 := by exact_mod_cast hparts'
  have hproduct := count_mul_scale hpos hscale.low (Nat.cast_nonneg parts) hparts10 hroundNear
    hquotientNear hextentLow hextentHigh hpart
  refine ⟨_, ?_, hproduct⟩
  have hcount := Binary64.lt_toCount_iff (n := majorLines) hround (by decide)
  have hmost : (majorLines + 1 : ℚ) = 11 := by norm_num [majorLines]
  rwa [hmost] at hcount

/-- Where there are few multiples, the part is no small part of the distance. -/
theorem le_of_few (hscale : ScaleFor span scale) (hparts : 2 ≤ parts) (hparts' : parts ≤ 10)
    (hfew : ¬majorLines < multiplesBetween low high scale (.ofNat parts)) :
    span * parts ≤ 13 * scale.toRat := by
  obtain ⟨count, hcount, hlow, -⟩ := hspan.multiplesBetween_near hscale hparts hparts'
  have hscalePos : 0 ≤ scale.toRat := le_trans (by linarith [hspan.pos]) hscale.low
  rw [hcount, not_le] at hfew
  have hmul := mul_le_mul_of_nonneg_right hfew.le hscalePos
  linarith

/-- Where there are many, it is no large part. -/
theorem le_of_many (hscale : ScaleFor span scale) (hparts : 2 ≤ parts) (hparts' : parts ≤ 10)
    (hmany : majorLines < multiplesBetween low high scale (.ofNat parts)) :
    9 * scale.toRat ≤ span * parts := by
  obtain ⟨count, hcount, -, hhigh⟩ := hspan.multiplesBetween_near hscale hparts hparts'
  have hscalePos : 0 ≤ scale.toRat := le_trans (by linarith [hspan.pos]) hscale.low
  rw [hcount] at hmany
  have hmul := mul_le_mul_of_nonneg_right hmany hscalePos
  linarith

end Apart

/-! ## Division of a scale -/

theorem refine_eq (most : Nat) (low high scale : Binary64) :
    refine most low high scale [2, 5, 10] scale =
      if most < multiplesBetween low high scale (.ofNat 2) then (scale, true)
      else if most < multiplesBetween low high scale (.ofNat 5) then (scale / .ofNat 2, true)
      else if most < multiplesBetween low high scale (.ofNat 10) then (scale / .ofNat 5, true)
      else (scale / .ofNat 10, false) :=
  rfl

theorem settle_of_many {most fuel : Nat} {low high step : Binary64} {s : Spacing}
    (hrefine : refine most low high s.step [2, 5, 10] s.step = (step, true)) :
    settle most low high (fuel + 1) s = some ⟨step, s.grain⟩ := by
  rw [settle, hrefine]
  rfl

theorem settle_of_few {most fuel : Nat} {low high step : Binary64} {s : Spacing}
    (hrefine : refine most low high s.step [2, 5, 10] s.step = (step, false)) :
    settle most low high (fuel + 1) s = settle most low high fuel ⟨s.step / 10, s.grain / 10⟩ := by
  rw [settle, hrefine]
  rfl

/-! ## The first spacing -/

/-- The spacing to begin with, given a scale for the distance. -/
def spacingFor (most : Nat) (span scale : Binary64) : Spacing :=
  if most < 1 + (span / scale).floor.toCount then ⟨scale * 10, scale / 10 * 10⟩
  else ⟨scale, scale / 10⟩

theorem firstSpacing_eq (most : Nat) (span : Binary64) :
    firstSpacing most span = spacingFor most span span.decadeScale :=
  rfl

/-- There are many multiples of a scale if the quotient by it is ten at least. -/
theorem many_iff {quotient : Binary64} (hquotient : quotient.isFinite) :
    majorLines < 1 + quotient.floor.toCount ↔ 10 ≤ quotient.toRat := by
  obtain ⟨hfloor, hwhole⟩ := Binary64.toRat_floor hquotient
  have hcount := Binary64.lt_toCount_iff (n := 9) hfloor (by decide)
  have hten : ((9 : Nat) + 1 : ℚ) = (10 : Int) := by norm_num
  rw [hten, hwhole, Int.cast_le, Int.le_floor, Int.cast_ofNat] at hcount
  rw [← hcount, majorLines]
  omega

/-- A scale within a factor of a hundred of a distance. -/
structure OfOrder (scale distance : Binary64) : Prop where
  isFinite : scale.isFinite
  low : distance.toRat / 100 ≤ scale.toRat
  high : scale.toRat ≤ 100 * distance.toRat

/-! ## Settling -/

/-- A spacing that is fit to make the key points with. -/
structure Settled (span : ℚ) (s : Spacing) : Prop where
  step_isFinite : s.step.isFinite
  step_low : span / 14 ≤ s.step.toRat
  step_high : s.step.toRat ≤ 3 / 10 * span
  grain_isFinite : s.grain.isFinite
  grain_low : span / 200 ≤ s.grain.toRat
  grain_high : s.grain.toRat ≤ span / 7

/-- A spacing that is still to be divided: the grain is a tenth of the step. -/
structure Settling (span : ℚ) (s : Spacing) : Prop where
  scale : ScaleFor span s.step
  grain_isFinite : s.grain.isFinite
  grain_near : |10 * s.grain.toRat - s.step.toRat| ≤ span / 10 ^ 6

namespace Apart

variable {low high : Binary64} {span : ℚ} {s : Spacing} (hspan : Apart low high span)

include hspan

/-- The step becomes fit, or it is divided by ten. -/
theorem refine_cases (hs : Settling span s) :
    (∃ step, refine majorLines low high s.step [2, 5, 10] s.step = (step, true) ∧
      Settled span ⟨step, s.grain⟩) ∨
    (refine majorLines low high s.step [2, 5, 10] s.step = (s.step / .ofNat 10, false) ∧
      span * 10 ≤ 13 * s.step.toRat) := by
  have hpos := hspan.pos
  have hscale := hs.scale
  have hlow := hscale.low
  have hgrain := abs_le.mp hs.grain_near
  rw [refine_eq]
  split_ifs with htwo hfive hten
  · have hmany := hspan.le_of_many hscale (by decide) (by decide) htwo
    rw [Nat.cast_ofNat] at hmany
    exact .inl ⟨_, rfl, ⟨hscale.isFinite, hlow, by linarith, hs.grain_isFinite, by linarith,
      by linarith⟩⟩
  · have hfew := hspan.le_of_few hscale (by decide) (by decide) htwo
    have hmany := hspan.le_of_many hscale (by decide) (by decide) hfive
    obtain ⟨hstep, hnear⟩ := hspan.part_near 2 hscale (by decide) (by decide)
    rw [abs_le] at hnear
    rw [Nat.cast_ofNat] at hfew hmany hnear
    exact .inl ⟨_, rfl, ⟨hstep, by linarith, by linarith, hs.grain_isFinite, by linarith,
      by linarith⟩⟩
  · have hfew := hspan.le_of_few hscale (by decide) (by decide) hfive
    have hmany := hspan.le_of_many hscale (by decide) (by decide) hten
    obtain ⟨hstep, hnear⟩ := hspan.part_near 5 hscale (by decide) (by decide)
    rw [abs_le] at hnear
    rw [Nat.cast_ofNat] at hfew hmany hnear
    exact .inl ⟨_, rfl, ⟨hstep, by linarith, by linarith, hs.grain_isFinite, by linarith,
      by linarith⟩⟩
  · have hfew := hspan.le_of_few hscale (by decide) (by decide) hten
    rw [Nat.cast_ofNat] at hfew
    exact .inr ⟨rfl, hfew⟩

theorem div_ten_near {x : Binary64} (hx : x.isFinite) (hsize : |x.toRat| ≤ 4 * 10 ^ 6 * span)
    (hsize' : |x.toRat| ≤ ceiling) : (x / 10).isFinite ∧
      |10 * (x / 10).toRat - x.toRat| ≤ span / 10 ^ 8 := by
  have hpos := hspan.pos
  have hceiling := hspan.span_le
  have hten := Binary64.toRat_ofNat (n := 10) (by decide)
  have hliteral : (10 : Binary64) = .ofNat 10 := rfl
  rw [Nat.cast_ofNat] at hten
  have hexact : |x.toRat / (Binary64.ofNat 10).toRat| = |x.toRat| / 10 := by
    rw [hten, abs_div, abs_of_pos (show (0 : ℚ) < 10 by norm_num)]
  have hnear := Binary64.near_div hx (Binary64.isFinite_ofNat (n := 10) (by decide))
    (by rw [hten]; norm_num) (by linarith)
  obtain ⟨hlow, hhigh⟩ := hspan.near_bounds hnear (by linarith)
  rw [hten] at hlow hhigh
  rw [hliteral]
  refine ⟨hnear.isFinite, abs_le.mpr ⟨?_, ?_⟩⟩ <;> linarith

theorem mul_ten_near {x : Binary64} (hx : x.isFinite) (hsize : |10 * x.toRat| ≤ 4 * 10 ^ 6 * span)
    (hsize' : |10 * x.toRat| ≤ 15 / 16 * ceiling) : (x * 10).isFinite ∧
      |(x * 10).toRat - 10 * x.toRat| ≤ span / 10 ^ 9 := by
  have hten := Binary64.toRat_ofNat (n := 10) (by decide)
  have hliteral : (10 : Binary64) = .ofNat 10 := rfl
  rw [Nat.cast_ofNat] at hten
  have hexact : x.toRat * (Binary64.ofNat 10).toRat = 10 * x.toRat := by rw [hten, mul_comm]
  rw [← hexact] at hsize'
  have hnear := Binary64.near_mul hx (Binary64.isFinite_ofNat (n := 10) (by decide)) hsize'
  rw [hexact] at hnear
  obtain ⟨hlow, hhigh⟩ := hspan.near_bounds hnear hsize
  rw [hliteral]
  refine ⟨hnear.isFinite, abs_le.mpr ⟨?_, ?_⟩⟩ <;> linarith

theorem distance_near : (high - low).isFinite ∧ |(high - low).toRat - span| ≤ span / 10 ^ 9 := by
  have hpos := hspan.pos
  have hceiling := hspan.span_le
  have heq := hspan.span_eq
  obtain ⟨hfinite, hlow, hhigh⟩ := hspan.sub_bounds hspan.high_isFinite hspan.low_isFinite
    (abs_le.mpr ⟨by linarith, by linarith⟩) (abs_le.mpr ⟨by linarith, by linarith⟩)
  refine ⟨hfinite, abs_le.mpr ⟨?_, ?_⟩⟩ <;> linarith

/-- The quotient of the distance by a scale of its order. -/
theorem distance_div_near {scale : Binary64} (hscale : OfOrder scale (high - low)) :
    ((high - low) / scale).isFinite ∧
      |((high - low) / scale).toRat * scale.toRat - span| ≤ span / 10 ^ 8 := by
  have hpos := hspan.pos
  have hceiling := Binary64.two_pow_100_le_ceiling
  obtain ⟨hdistance, hdistanceNear⟩ := hspan.distance_near
  have hlow := hscale.low
  have hhigh := hscale.high
  rw [abs_le] at hdistanceNear
  have hdistancePos : 0 < (high - low).toRat := by linarith
  have hscalePos : 0 < scale.toRat := by linarith
  have hsize : |(high - low).toRat / scale.toRat| ≤ 101 := by
    rw [abs_div, abs_of_pos hscalePos, div_le_iff₀ hscalePos, abs_of_pos hdistancePos]
    linarith
  have hquotient := Binary64.near_div hdistance hscale.isFinite hscalePos.ne' (by linarith)
  have hproduct := hquotient.mul_divisor hscalePos
  have hunit : halfUnit * scale.toRat ≤ 1 / 2 ^ 107 * (101 * span) :=
    mul_le_mul Binary64.halfUnit_le_power (by linarith) hscalePos.le (by norm_num)
  rw [abs_of_pos hdistancePos, abs_le] at hproduct
  refine ⟨hquotient.isFinite, abs_le.mpr ⟨?_, ?_⟩⟩ <;> linarith

/-- The first spacing is of the order of the distance. -/
theorem settling_spacingFor {scale : Binary64} (hscale : OfOrder scale (high - low)) :
    Settling span (spacingFor majorLines (high - low) scale) ∧
      (spacingFor majorLines (high - low) scale).step.toRat ≤ 102 * span := by
  have hpos := hspan.pos
  have hceiling := hspan.span_le
  obtain ⟨-, hdistanceNear⟩ := hspan.distance_near
  obtain ⟨hquotient, hproduct⟩ := hspan.distance_div_near hscale
  have hlow := hscale.low
  have hhigh := hscale.high
  rw [abs_le] at hdistanceNear hproduct
  have hscalePos : 0 < scale.toRat := by linarith
  have hsize := (Binary64.abs_toRat_lt hscale.isFinite).le
  obtain ⟨htenth, htenthNear⟩ := hspan.div_ten_near hscale.isFinite
    (abs_le.mpr ⟨by linarith, by linarith⟩) hsize
  rw [abs_le] at htenthNear
  rw [spacingFor]
  split_ifs with hlarge
  · rw [many_iff hquotient] at hlarge
    have hmul := mul_le_mul_of_nonneg_right hlarge hscalePos.le
    obtain ⟨hstep, hstepNear⟩ := hspan.mul_ten_near hscale.isFinite
      (abs_le.mpr ⟨by linarith, by linarith⟩) (abs_le.mpr ⟨by linarith, by linarith⟩)
    obtain ⟨hgrain, hgrainNear⟩ := hspan.mul_ten_near htenth
      (abs_le.mpr ⟨by linarith, by linarith⟩) (abs_le.mpr ⟨by linarith, by linarith⟩)
    rw [abs_le] at hstepNear hgrainNear
    refine ⟨⟨⟨hstep, ?_, ?_⟩, hgrain, abs_le.mpr ⟨?_, ?_⟩⟩, ?_⟩ <;> linarith
  · rw [many_iff hquotient, not_le] at hlarge
    have hmul := mul_le_mul_of_nonneg_right hlarge.le hscalePos.le
    refine ⟨⟨⟨hscale.isFinite, ?_, ?_⟩, htenth, abs_le.mpr ⟨?_, ?_⟩⟩, ?_⟩ <;> linarith

/-- Dividing by ten keeps the grain a tenth of the step. -/
theorem settling_div_ten (hs : Settling span s) (hfew : span * 10 ≤ 13 * s.step.toRat) :
    Settling span ⟨s.step / 10, s.grain / 10⟩ ∧ (s.step / 10).toRat ≤ s.step.toRat / 9 := by
  have hpos := hspan.pos
  have hceiling := hspan.span_le
  have hscale := hs.scale
  have hhigh := hscale.high
  have hgrain := abs_le.mp hs.grain_near
  have hstepSize := (Binary64.abs_toRat_lt hscale.isFinite).le
  have hgrainSize := (Binary64.abs_toRat_lt hs.grain_isFinite).le
  obtain ⟨hstep, hstepNear⟩ := hspan.div_ten_near hscale.isFinite
    (abs_le.mpr ⟨by linarith, by linarith⟩) hstepSize
  obtain ⟨hgrain', hgrainNear⟩ := hspan.div_ten_near hs.grain_isFinite
    (abs_le.mpr ⟨by linarith, by linarith⟩) hgrainSize
  rw [abs_le] at hstepNear hgrainNear
  refine ⟨⟨⟨hstep, ?_, ?_⟩, hgrain', abs_le.mpr ⟨?_, ?_⟩⟩, ?_⟩ <;> linarith

/-- A step cannot be divided by ten for ever. -/
theorem settle_ends (fuel : Nat) (hs : Settling span s)
    (hstep : s.step.toRat ≤ 9 ^ fuel * (span / 20)) :
    ∃ s', settle majorLines low high fuel s = some s' ∧ Settled span s' := by
  induction fuel generalizing s with
  | zero =>
      have hpos := hspan.pos
      have hlow := hs.scale.low
      rw [pow_zero, one_mul] at hstep
      linarith
  | succ fuel ih =>
      rcases hspan.refine_cases hs with ⟨step, hrefine, hsettled⟩ | ⟨hrefine, hfew⟩
      · exact ⟨_, settle_of_many hrefine, hsettled⟩
      · obtain ⟨hs', hle⟩ := hspan.settling_div_ten hs hfew
        rw [settle_of_few hrefine]
        apply ih hs'
        rw [pow_succ] at hstep
        linarith

end Apart

end RewardPlot.Axis
