import RewardPlot.Proofs.Axis.KeyPoints
import RewardPlot.Proofs.Axis.MinorGrid
import RewardPlot.Proofs.Binary64.Decade
/-!
# The key points of charts

The ends of the axes of a chart are not too large for their distance: positions are counted from
zero, and the room beside the values is a part of their size.  So the loops that make the key
points end on both axes, with any scale that is of the order of the distance.
-/

namespace RewardPlot

open Binary64 (ceiling)

namespace Axis

/-- An axis between different numbers within the limit, whose distance is no small part of
them. -/
structure Readable (axis : Axis) : Prop where
  start_isFinite : axis.start.isFinite
  stop_isFinite : axis.stop.isFinite
  start_le : |axis.start.toRat| ≤ ceiling / 4
  stop_le : |axis.stop.toRat| ≤ ceiling / 4
  start_lt_stop : axis.start.toRat < axis.stop.toRat
  start_size : |axis.start.toRat| ≤ 2 * 10 ^ 6 * (axis.stop.toRat - axis.start.toRat)
  stop_size : |axis.stop.toRat| ≤ 2 * 10 ^ 6 * (axis.stop.toRat - axis.start.toRat)

/-- The key points of an axis, given a scale for the distance of its ends. -/
def keyPointsWith? (axis : Axis) (scale : Binary64) : Option (List Binary64) :=
  keyPointsFor majorLines (axis.start.min axis.stop) (axis.start.max axis.stop) scale

/-- The distance that the scale is chosen for. -/
def distance (axis : Axis) : Binary64 := axis.start.max axis.stop - axis.start.min axis.stop

theorem keyPoints?_eq (axis : Axis) :
    axis.keyPoints? = axis.keyPointsWith? axis.distance.decadeScale :=
  keyPointsBetween_eq majorLines _ _

namespace Readable

variable {axis : Axis} (haxis : axis.Readable)

include haxis

theorem min_max : axis.start.min axis.stop = axis.start ∧ axis.start.max axis.stop = axis.stop := by
  have hlt := haxis.start_lt_stop
  rw [← Binary64.lt_iff_toRat_lt haxis.start_isFinite haxis.stop_isFinite] at hlt
  exact ⟨Binary64.min_of_not_lt (Binary64.ne_nan_of_isFinite haxis.start_isFinite)
    (Binary64.not_lt_of_le (Binary64.le_of_lt hlt)), Binary64.max_of_lt hlt⟩

/-- Ends that are told apart lie far enough from each other for what follows. -/
theorem apart (hfar : ¬(axis.start - axis.stop).abs < .epsilon) :
    Apart axis.start axis.stop (axis.stop.toRat - axis.start.toRat) := by
  obtain ⟨hstart, hstop, hstartLe, hstopLe, hlt, hstartSize, hstopSize⟩ := haxis
  refine ⟨hstart, hstop, rfl, hstartLe, hstopLe, hstartSize, hstopSize, ?_⟩
  obtain ⟨hepsilon, hepsilonLow, -⟩ := epsilon_bounds
  have hunit := Binary64.halfUnit_le_power
  rw [abs_le] at hstartLe hstopLe
  have hsize : |axis.start.toRat - axis.stop.toRat| = axis.stop.toRat - axis.start.toRat := by
    rw [abs_sub_comm, abs_of_pos (sub_pos.mpr hlt)]
  have hnear := Binary64.near_sub hstart hstop (by linarith)
  obtain ⟨hlow, hhigh⟩ := hnear.bounds (le_of_eq hsize)
  rw [Binary64.lt_iff_toRat_lt (Binary64.isFinite_abs hnear.isFinite) hepsilon, not_lt,
    Binary64.toRat_abs hnear.isFinite, le_abs] at hfar
  rcases hfar with hfar | hfar <;> linarith

theorem keyPointsWith?_ends {scale : Binary64} (hscale : OfOrder scale axis.distance) :
    ∃ points, axis.keyPointsWith? scale = some points ∧ ∀ x ∈ points, x.isFinite := by
  obtain ⟨hmin, hmax⟩ := haxis.min_max
  rw [distance, hmin, hmax] at hscale
  rw [keyPointsWith?, hmin, hmax]
  by_cases hfar : (axis.start - axis.stop).abs < .epsilon
  · rw [keyPointsFor_of_near hfar]
    exact ⟨_, rfl, List.forall_mem_singleton.mpr haxis.start_isFinite⟩
  · exact (haxis.apart hfar).keyPointsFor_ends hfar hscale

/-- The power of ten that the scale is chosen as is of the order of the distance. -/
theorem ofOrder_decadeScale (hfar : ¬(axis.start - axis.stop).abs < .epsilon) :
    OfOrder axis.distance.decadeScale axis.distance := by
  have hspan := haxis.apart hfar
  have hge := hspan.span_ge
  have hceiling := hspan.span_le
  obtain ⟨hmin, hmax⟩ := haxis.min_max
  obtain ⟨hfinite, hnear⟩ := hspan.distance_near
  rw [abs_le] at hnear
  rw [distance, hmin, hmax]
  obtain ⟨hscale, hlow, hhigh⟩ :=
    Binary64.decadeScale_bounds hfinite (by linarith) (by linarith)
  refine ⟨hscale, ?_, ?_⟩ <;> linarith

theorem keyPoints?_ends :
    ∃ points, axis.keyPoints? = some points ∧ ∀ x ∈ points, x.isFinite := by
  rw [keyPoints?_eq]
  by_cases hfar : (axis.start - axis.stop).abs < .epsilon
  · obtain ⟨hmin, hmax⟩ := haxis.min_max
    rw [keyPointsWith?, hmin, hmax, keyPointsFor_of_near hfar]
    exact ⟨_, rfl, List.forall_mem_singleton.mpr haxis.start_isFinite⟩
  · exact haxis.keyPointsWith?_ends (haxis.ofOrder_decadeScale hfar)

end Readable

theorem minorPoints?_ends {axis : Axis} (ticks : UInt64) {majors : List Binary64}
    (hmajors : axis.keyPoints? = some majors) :
    ∃ minors, axis.minorPoints? ticks = some minors := by
  rw [minorPoints?, hmajors, Option.map_some]
  split_ifs
  · exact ⟨_, rfl⟩
  · exact ⟨_, rfl⟩

/-! ## The axes of a chart -/

theorem readable_ofLength {n : Nat} (hn : n < 2 ^ 64) : (ofLength n).Readable := by
  obtain ⟨k, hk, hk', hlength⟩ : ∃ k, 1 ≤ k ∧ k ≤ 2 ^ 64 ∧ ofLength n = ⟨0, .ofNat k⟩ :=
    ⟨_, Nat.le_max_right _ _, by omega, rfl⟩
  have hceiling := Binary64.two_pow_100_le_ceiling
  have hunit := Binary64.halfUnit_le_power
  have hkLow : (1 : ℚ) ≤ k := by exact_mod_cast hk
  have hkHigh : (k : ℚ) ≤ 2 ^ 64 := by exact_mod_cast hk'
  have hexact : ((k : ℚ) / (1 : Nat)) = k := by rw [Nat.cast_one, div_one]
  have hnear := Binary64.near_ofFraction Nat.one_pos (le_of_eq_of_le hexact (by linarith))
  rw [hexact, ← Binary64.ofNat] at hnear
  obtain ⟨hlow, hhigh⟩ := hnear.bounds (le_of_eq (abs_of_pos (by linarith)))
  have hstop : |(Binary64.ofNat k).toRat| = (Binary64.ofNat k).toRat := abs_of_pos (by linarith)
  have hstart : |(0 : Binary64).toRat| = 0 := by rw [Binary64.toRat_zero, abs_zero]
  rw [hlength]
  constructor <;> dsimp only
  · exact Binary64.isFinite_zero
  · exact hnear.isFinite
  · linarith
  · linarith
  · rw [Binary64.toRat_zero]
    linarith
  · rw [hstart, Binary64.toRat_zero]
    linarith
  · rw [hstop, Binary64.toRat_zero]
    linarith

theorem readable_of_room {axis : Axis} {low high : Binary64} (hlow : -endLimit ≤ low)
    (hle : low ≤ high) (hhigh : high ≤ endLimit) (haxis : axis =
      ⟨(low - room low high).max (-endLimit), (high + room low high).min endLimit⟩) :
    axis.Readable := by
  obtain ⟨hproper, hstart, hstop, a, b, s, e, ha, hb, hs, he, hsize, hsize'⟩ :=
    span_of_room hlow hle hhigh haxis
  have hlt := hproper.start_lt_stop
  have hlimit := hproper.limit_le_start
  have hlimit' := hproper.stop_le_limit
  have hstartPlace := Binary64.place_le hstart hs ha
  have hstopPlace := Binary64.place_le hstop hb he
  have hspan : axis.stop.toRat - axis.start.toRat = (e - s : Int) / Magnitude.one := by
    rw [Binary64.toRat_eq hproper.stop_isFinite he, Binary64.toRat_eq hproper.start_isFinite hs,
      ← sub_div, Int.cast_sub]
  have hstartSize := size_toRat_le (d := e - s) hproper.start_isFinite hs (by omega)
  have hstopSize := size_toRat_le (d := e - s) hproper.stop_isFinite he (by omega)
  rw [← hspan] at hstartSize hstopSize
  refine ⟨hproper.start_isFinite, hproper.stop_isFinite,
    (abs_toRat_le hlimit (Binary64.le_trans (Binary64.le_of_lt hlt) hlimit')).2,
    (abs_toRat_le (Binary64.le_trans hlimit (Binary64.le_of_lt hlt)) hlimit').2, ?_, ?_, ?_⟩
  · exact (Binary64.lt_iff_toRat_lt hproper.start_isFinite hproper.stop_isFinite).mp hlt
  · linarith [abs_nonneg axis.start.toRat]
  · linarith [abs_nonneg axis.stop.toRat]

theorem readable_ofBounds {b : Bounds} (hle : b.low ≤ b.high) : (ofBounds (some b)).Readable :=
  readable_of_room
    (Binary64.clamp_between (Binary64.ne_nan_of_le hle).1 neg_endLimit_le_endLimit).1
    (Binary64.clamp_mono hle neg_endLimit_le_endLimit)
    (Binary64.clamp_between (Binary64.ne_nan_of_le hle).2 neg_endLimit_le_endLimit).2 rfl

end Axis

theorem Bounds.Spans.low_le_high {b : Bounds} {bs : List Bounds} (hb : b.Spans bs)
    (hbs : ∀ x ∈ bs, x.low ≤ x.high) : b.low ≤ b.high := by
  obtain ⟨x, hx, hlow⟩ := hb.low_mem
  rw [hlow]
  exact Binary64.le_trans (hbs x hx) (hb.le_high x hx)

namespace Chart

theorem low_le_high {c : Chart} {b : Bounds} (hb : c.bounds? = some b) : b.low ≤ b.high := by
  refine (bounds?_spans hb).low_le_high fun x hx => ?_
  obtain ⟨s, -, hs⟩ := List.mem_filterMap.mp hx
  refine (Trace.bounds?_spans hs).low_le_high fun y hy => ?_
  obtain ⟨v, hv, rfl⟩ := List.mem_map.mp hy
  exact Binary64.le_self (Binary64.ne_nan_of_isFinite (List.mem_filter.mp hv).2)

theorem readable_yAxis (c : Chart) : c.yAxis.Readable := by
  rw [yAxis]
  cases hb : c.bounds? with
  | none => exact Axis.readable_ofLength (n := 0) (by decide)
  | some b => exact Axis.readable_ofBounds (low_le_high hb)

/-- On both axes of a chart the loops that make the key points end, with each scale that is within
a factor of a hundred of the distance and with the one that is taken, and all key points are
finite.  So the minor grid is made too. -/
theorem keyPoints_end (c : Chart) (hlength : c.maxLength < 2 ^ 64) :
    ∀ axis ∈ [c.xAxis, c.yAxis],
      (∀ scale, Axis.OfOrder scale axis.distance →
        ∃ points, axis.keyPointsWith? scale = some points ∧ ∀ x ∈ points, x.isFinite) ∧
      (∃ points, axis.keyPoints? = some points ∧ ∀ x ∈ points, x.isFinite) ∧
      ∀ ticks, ∃ minors, axis.minorPoints? ticks = some minors := by
  intro axis haxis
  have hreadable : axis.Readable := by
    rcases List.mem_pair.mp haxis with rfl | rfl
    · exact Axis.readable_ofLength hlength
    · exact readable_yAxis c
  obtain ⟨points, hpoints, hfinite⟩ := hreadable.keyPoints?_ends
  exact ⟨fun scale hscale => hreadable.keyPointsWith?_ends hscale, ⟨points, hpoints, hfinite⟩,
    fun ticks => Axis.minorPoints?_ends ticks hpoints⟩

theorem keyPoints_of_wideChart :
    wideChart.maxLength < 2 ^ 64 ∧ Axis.OfOrder 1 wideChart.xAxis.distance ∧
      (∃ points, wideChart.xAxis.keyPointsWith? 1 = some points ∧ ∀ x ∈ points, x.isFinite) ∧
      ∃ minors, wideChart.yAxis.minorPoints? 4 = some minors := by
  have hlength : wideChart.maxLength < 2 ^ 64 := by decide
  have hdistance : wideChart.xAxis.distance.toRat = 4 := by
    have haxis : wideChart.xAxis = ⟨0, .ofNat 4⟩ := rfl
    obtain ⟨hmin, hmax⟩ := (Axis.readable_ofLength hlength).min_max
    rw [← xAxis, haxis] at hmin hmax
    rw [haxis, Axis.distance, hmin, hmax]
    dsimp only
    rw [Binary64.toRat_sub_zero (Binary64.isFinite_ofNat (by decide)),
      Binary64.toRat_ofNat (by decide), Nat.cast_ofNat]
  have hscale : Axis.OfOrder 1 wideChart.xAxis.distance := by
    refine ⟨Binary64.isFinite_one, ?_, ?_⟩
    · rw [hdistance, Binary64.toRat_one]
      norm_num
    · rw [hdistance, Binary64.toRat_one]
      norm_num
  obtain ⟨hpoints, -⟩ := keyPoints_end wideChart hlength _ List.mem_cons_self
  obtain ⟨-, -, hminors⟩ := keyPoints_end wideChart hlength _
    (List.mem_cons_of_mem _ List.mem_cons_self)
  exact ⟨hlength, hscale, hpoints 1 hscale, hminors 4⟩

end Chart

end RewardPlot
