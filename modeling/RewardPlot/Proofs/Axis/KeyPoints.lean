import RewardPlot.Proofs.Axis.Spacing
/-!
# Key points end

The march through the key points goes on by a step, or by a step and a grain, and the step is no
small part of the distance.  So the end is reached after a few rounds, and what is added up on the
way stays well inside the range.
-/

namespace RewardPlot.Axis

open Binary64 (ceiling)

theorem epsilon_bounds : Binary64.epsilon.isFinite ∧
    99 / 100 / 2 ^ 52 ≤ Binary64.epsilon.toRat ∧ Binary64.epsilon.toRat ≤ 101 / 100 / 2 ^ 52 := by
  have hunit := Binary64.halfUnit_le_power
  have hceiling := Binary64.two_pow_100_le_ceiling
  have hexact : ((1 : Nat) / (2 ^ 52 : Nat) : ℚ) = 1 / 2 ^ 52 := by
    rw [Nat.cast_one, Nat.cast_pow, Nat.cast_ofNat]
  have hnear := Binary64.near_ofFraction (Nat.two_pow_pos 52) (le_of_eq_of_le hexact (by linarith))
  rw [hexact] at hnear
  have hsize : |(1 / 2 ^ 52 : ℚ)| ≤ 1 / 2 ^ 52 := by rw [abs_of_pos (by norm_num)]
  obtain ⟨hlow, hhigh⟩ := hnear.bounds hsize
  rw [Binary64.epsilon]
  refine ⟨hnear.isFinite, ?_, ?_⟩ <;> linarith

/-! ## The march -/

theorem march_of_past {last base rel : Binary64} {s : Spacing} (fuel : Nat)
    (hpast : ¬-Binary64.epsilon ≤ last - rel - base) :
    march last base s (fuel + 1) rel = some [] := by
  rw [march, if_neg hpast]

theorem march_of_left {last base rel : Binary64} {s : Spacing} (fuel : Nat)
    (hleft : -Binary64.epsilon ≤ last - rel - base) :
    ∃ rel', (rel' = rel ∨ rel' = rel + s.grain) ∧ march last base s (fuel + 1) rel =
      (march last base s fuel (rel' + s.step)).map ((rel' + base) :: ·) := by
  rw [march, if_pos hleft]
  by_cases hbefore : (rel / s.grain).round * s.grain < 0
  · exact ⟨rel + s.grain, .inr rfl, by rw [if_pos hbefore]⟩
  · exact ⟨rel, .inl rfl, by rw [if_neg hbefore]⟩

/-- A march from a base to the last point. -/
structure Route (low high : Binary64) (span : ℚ) (last base : Binary64) : Prop where
  last_isFinite : last.isFinite
  last_low : high.toRat - 31 / 100 * span ≤ last.toRat
  last_high : last.toRat ≤ high.toRat + span / 100
  base_isFinite : base.isFinite
  base_low : low.toRat - 15 / 100 * span ≤ base.toRat
  base_high : base.toRat ≤ low.toRat + 31 / 100 * span

/-- How far a march has come above its base. -/
structure Progress (span : ℚ) (rel : Binary64) : Prop where
  isFinite : rel.isFinite
  low : -(span / 10) ≤ rel.toRat
  high : rel.toRat ≤ 17 / 10 * span + Binary64.epsilon.toRat

namespace Apart

variable {low high last base rel : Binary64} {span : ℚ} {s : Spacing}
  (hspan : Apart low high span) (hepsilon : Binary64.epsilon.toRat ≤ 2 * span)
  (hroute : Route low high span last base)

include hspan hepsilon hroute

/-- What is left of the way. -/
theorem remaining_bounds (hrel : Progress span rel) : (last - rel - base).isFinite ∧
    |(last - rel - base).toRat - (last.toRat - rel.toRat - base.toRat)| ≤ span / 10 ^ 8 := by
  have hpos := hspan.pos
  have hceiling := hspan.span_le
  have hceiling' := Binary64.two_pow_100_le_ceiling
  obtain ⟨-, hepsilonLow, hepsilonHigh⟩ := epsilon_bounds
  have heq := hspan.span_eq
  have hlow := abs_le.mp hspan.low_le
  have hlowSize := abs_le.mp hspan.low_size
  have hhigh := abs_le.mp hspan.high_le
  have hhighSize := abs_le.mp hspan.high_size
  obtain ⟨hlast, hlastLow, hlastHigh, hbase, hbaseLow, hbaseHigh⟩ := hroute
  have hrelLow := hrel.low
  have hrelHigh := hrel.high
  obtain ⟨hrest, hrestLow, hrestHigh⟩ := hspan.sub_bounds hlast hrel.isFinite
    (abs_le.mpr ⟨by linarith, by linarith⟩) (abs_le.mpr ⟨by linarith, by linarith⟩)
  obtain ⟨hfinite, hfiniteLow, hfiniteHigh⟩ := hspan.sub_bounds hrest hbase
    (abs_le.mpr ⟨by linarith, by linarith⟩) (abs_le.mpr ⟨by linarith, by linarith⟩)
  refine ⟨hfinite, abs_le.mpr ⟨?_, ?_⟩⟩ <;> linarith

/-- While something is left, the way is hardly longer than the distance. -/
theorem rel_le_of_remaining (hrel : Progress span rel)
    (hleft : -Binary64.epsilon ≤ last - rel - base) :
    rel.toRat ≤ last.toRat - base.toRat + Binary64.epsilon.toRat + span / 10 ^ 8 := by
  obtain ⟨hfinite, hnear⟩ := hspan.remaining_bounds hepsilon hroute hrel
  obtain ⟨hepsilonFinite, -⟩ := epsilon_bounds
  rw [Binary64.le_iff_toRat_le (Binary64.isFinite_neg hepsilonFinite) hfinite,
    Binary64.toRat_neg hepsilonFinite] at hleft
  rw [abs_le] at hnear
  linarith

/-- One round of the march, whether a grain is added or not. -/
theorem round_bounds (hs : Settled span s) (hrel : Progress span rel)
    (hleft : -Binary64.epsilon ≤ last - rel - base) {rel' : Binary64}
    (hrel' : rel' = rel ∨ rel' = rel + s.grain) :
    (rel' + base).isFinite ∧ Progress span (rel' + s.step) ∧
      rel.toRat + span / 15 ≤ (rel' + s.step).toRat := by
  have hpos := hspan.pos
  have hceiling := hspan.span_le
  have hceiling' := Binary64.two_pow_100_le_ceiling
  obtain ⟨-, hepsilonLow, hepsilonHigh⟩ := epsilon_bounds
  have heq := hspan.span_eq
  have hlow := abs_le.mp hspan.low_le
  have hlowSize := abs_le.mp hspan.low_size
  have hhigh := abs_le.mp hspan.high_le
  have hhighSize := abs_le.mp hspan.high_size
  have hrelLe := hspan.rel_le_of_remaining hepsilon hroute hrel hleft
  obtain ⟨hlast, hlastLow, hlastHigh, hbase, hbaseLow, hbaseHigh⟩ := hroute
  obtain ⟨hstep, hstepLow, hstepHigh, hgrain, hgrainLow, hgrainHigh⟩ := hs
  have hrelLow := hrel.low
  obtain ⟨hfinite', hle, hle'⟩ : rel'.isFinite ∧ rel.toRat ≤ rel'.toRat ∧
      rel'.toRat ≤ rel.toRat + s.grain.toRat + span / 10 ^ 9 := by
    rcases hrel' with rfl | rfl
    · exact ⟨hrel.isFinite, le_refl _, by linarith⟩
    · obtain ⟨hsum, hsumLow, hsumHigh⟩ := hspan.add_bounds hrel.isFinite hgrain
        (abs_le.mpr ⟨by linarith, by linarith⟩) (abs_le.mpr ⟨by linarith, by linarith⟩)
      exact ⟨hsum, by linarith, hsumHigh⟩
  obtain ⟨hpoint, -, -⟩ := hspan.add_bounds hfinite' hbase
    (abs_le.mpr ⟨by linarith, by linarith⟩) (abs_le.mpr ⟨by linarith, by linarith⟩)
  obtain ⟨hnext, hnextLow, hnextHigh⟩ := hspan.add_bounds hfinite' hstep
    (abs_le.mpr ⟨by linarith, by linarith⟩) (abs_le.mpr ⟨by linarith, by linarith⟩)
  exact ⟨hpoint, ⟨hnext, by linarith, by linarith⟩, by linarith⟩

/-- The march comes to the end, and all its points are finite. -/
theorem march_ends (fuel : Nat) (hs : Settled span s) (hrel : Progress span rel)
    (hfuel : 4 * span ≤ rel.toRat + fuel * (span / 15)) :
    ∃ points, march last base s (fuel + 1) rel = some points ∧ ∀ x ∈ points, x.isFinite := by
  have hpos := hspan.pos
  have heq := hspan.span_eq
  induction fuel generalizing rel with
  | zero =>
      by_cases hleft : -Binary64.epsilon ≤ last - rel - base
      · have hrelLe := hspan.rel_le_of_remaining hepsilon hroute hrel hleft
        have hlastHigh := hroute.last_high
        have hbaseLow := hroute.base_low
        rw [Nat.cast_zero, zero_mul, add_zero] at hfuel
        linarith
      · exact ⟨[], march_of_past 0 hleft, fun x hx => absurd hx List.not_mem_nil⟩
  | succ fuel ih =>
      by_cases hleft : -Binary64.epsilon ≤ last - rel - base
      · obtain ⟨rel', hrel', hmarch⟩ := march_of_left (s := s) (fuel + 1) hleft
        obtain ⟨hpoint, hnext, hle⟩ :=
          hspan.round_bounds hepsilon hroute hs hrel hleft hrel'
        rw [Nat.cast_succ, add_mul, one_mul] at hfuel
        obtain ⟨points, hpoints, hfinite⟩ := ih hnext (by linarith)
        rw [hmarch, hpoints]
        exact ⟨_, rfl, List.forall_mem_cons.mpr ⟨hpoint, hfinite⟩⟩
      · exact ⟨[], march_of_past _ hleft, fun x hx => absurd hx List.not_mem_nil⟩

end Apart

/-! ## All key points -/

/-- The key points between two numbers, given a scale for their distance. -/
def keyPointsFor (most : Nat) (low high scale : Binary64) : Option (List Binary64) :=
  if (low - high).abs < .epsilon then some [low]
  else do
    let s ← settle most low high rounds (spacingFor most (high - low) scale)
    let left := firstFrom low s.step
    let base := (left / s.grain).floor * s.grain
    march (lastUpTo high s.step) base s rounds (left - base)

theorem keyPointsFor_of_near {most : Nat} {low high scale : Binary64}
    (hnear : (low - high).abs < .epsilon) : keyPointsFor most low high scale = some [low] := by
  rw [keyPointsFor, if_pos hnear]

theorem keyPointsFor_of_settle {most : Nat} {low high scale : Binary64} {s : Spacing}
    (hfar : ¬(low - high).abs < .epsilon)
    (hsettle : settle most low high rounds (spacingFor most (high - low) scale) = some s) :
    keyPointsFor most low high scale =
      march (lastUpTo high s.step) ((firstFrom low s.step / s.grain).floor * s.grain) s rounds
        (firstFrom low s.step - (firstFrom low s.step / s.grain).floor * s.grain) := by
  rw [keyPointsFor, if_neg hfar, hsettle, Option.bind_eq_bind, Option.bind_some]

theorem keyPointsBetween_eq (most : Nat) (low high : Binary64) :
    keyPointsBetween most low high = keyPointsFor most low high (high - low).decadeScale := by
  rw [keyPointsBetween, keyPointsFor, firstSpacing_eq]

namespace Apart

variable {low high : Binary64} {span : ℚ} {s : Spacing} (hspan : Apart low high span)

include hspan

theorem epsilon_le (hfar : ¬(low - high).abs < .epsilon) :
    Binary64.epsilon.toRat ≤ 2 * span := by
  have hpos := hspan.pos
  have hceiling := hspan.span_le
  have heq := hspan.span_eq
  obtain ⟨hfinite, hlow, hhigh⟩ := hspan.sub_bounds hspan.low_isFinite hspan.high_isFinite
    (abs_le.mpr ⟨by linarith, by linarith⟩) (abs_le.mpr ⟨by linarith, by linarith⟩)
  rw [Binary64.lt_iff_toRat_lt (Binary64.isFinite_abs hfinite) epsilon_bounds.1, not_lt,
    Binary64.toRat_abs hfinite] at hfar
  exact le_trans hfar (abs_le.mpr ⟨by linarith, by linarith⟩)

theorem stepFor_step (hs : Settled span s) : StepFor span s.step := by
  have hpos := hspan.pos
  have hceiling := hspan.span_le
  obtain ⟨hstep, hlow, hhigh, -⟩ := hs
  refine ⟨hstep, ?_, ?_, ?_⟩ <;> linarith

theorem stepFor_grain (hs : Settled span s) : StepFor span s.grain := by
  have hpos := hspan.pos
  have hceiling := hspan.span_le
  obtain ⟨-, -, -, hgrain, hlow, hhigh⟩ := hs
  refine ⟨hgrain, ?_, ?_, ?_⟩ <;> linarith

/-- Where the march goes, and where it starts. -/
theorem route (hs : Settled span s) :
    let left := firstFrom low s.step
    let base := (left / s.grain).floor * s.grain
    Route low high span (lastUpTo high s.step) base ∧ Progress span (left - base) := by
  intro left base
  have hpos := hspan.pos
  have hceiling := hspan.span_le
  have hstep := hs.step_high
  have hgrain := hs.grain_high
  have hlow := abs_le.mp hspan.low_le
  have hlowSize := abs_le.mp hspan.low_size
  obtain ⟨⟨hleft, hleftLow, hleftHigh⟩, -⟩ := hspan.firstFrom_bounds (hspan.stepFor_step hs)
  obtain ⟨⟨hlast, hlastLow, hlastHigh⟩, -⟩ := hspan.lastUpTo_bounds (hspan.stepFor_step hs)
  have hsmall : |left.toRat| ≤ 401 / 1000 * ceiling := by
    rw [abs_le]
    constructor <;> linarith
  obtain ⟨hbase, hbaseLow, hbaseHigh, -⟩ := hspan.multipleUpTo (hspan.stepFor_grain hs) hleft
    (abs_le.mpr ⟨by linarith, by linarith⟩) (by linarith)
  obtain ⟨hrel, hrelLow, hrelHigh⟩ := hspan.sub_bounds hleft hbase
    (abs_le.mpr ⟨by linarith, by linarith⟩) (abs_le.mpr ⟨by linarith, by linarith⟩)
  obtain ⟨-, hepsilon, -⟩ := epsilon_bounds
  refine ⟨⟨hlast, ?_, ?_, hbase, ?_, ?_⟩, ⟨hrel, ?_, ?_⟩⟩ <;> linarith

theorem keyPointsFor_ends {scale : Binary64} (hfar : ¬(low - high).abs < .epsilon)
    (hscale : OfOrder scale (high - low)) :
    ∃ points, keyPointsFor majorLines low high scale = some points ∧
      ∀ x ∈ points, x.isFinite := by
  have hpos := hspan.pos
  have hepsilon := hspan.epsilon_le hfar
  obtain ⟨hsettling, hstep⟩ := hspan.settling_spacingFor hscale
  have hrounds : (9 : ℚ) ^ 4 ≤ 9 ^ rounds := pow_le_pow_right₀ (by norm_num) (by decide)
  have hmul := mul_le_mul_of_nonneg_right hrounds (show 0 ≤ span / 20 by linarith)
  obtain ⟨s, hsettle, hsettled⟩ := hspan.settle_ends rounds hsettling (by linarith)
  obtain ⟨hroute, hrel⟩ := hspan.route hsettled
  have hrelLow := hrel.low
  have hsucc : rounds = 9999 + 1 := rfl
  rw [keyPointsFor_of_settle hfar hsettle, hsucc]
  apply hspan.march_ends hepsilon hroute 9999 hsettled hrel
  rw [Nat.cast_ofNat]
  linarith

end Apart

end RewardPlot.Axis
