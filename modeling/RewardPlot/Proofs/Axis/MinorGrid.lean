import RewardPlot.Axis.MinorGrid
import RewardPlot.Proofs.Axis.Span
import RewardPlot.Proofs.Binary64.Value
/-!
# The minor grid stays finite

The grid is laid out only after its step and the number of its steps have been checked.  A count
that is finite has come from a quotient, a start and a way back that are finite too, and on an
axis within the limit these are no longer than the axis, but for rounding.  So the last point is
finite although its product is rounded again, and the points do not go back.
-/

namespace RewardPlot

namespace Binary64

variable {x y s : Binary64} {i j : Nat}

theorem eq_false_of_zero_le_infinite {negative : Bool} (hx : 0 ≤ infinite negative) :
    negative = false := by
  have hplace := place_le hx place_ofNat_zero (place_infinite negative)
  have hlimit := Magnitude.one_mul_lt_limit (Nat.zero_le (2 ^ 53))
  cases negative
  · rfl
  · rw [if_pos rfl] at hplace
    omega

/-- The whole part of a number from zero on, if it is finite. -/
theorem floor_max_zero (hx : 0 ≤ x) (hfinite : (x.floor.max 0).isFinite) :
    x.isFinite ∧ 0 ≤ (x.floor.max 0).toRat ∧ (x.floor.max 0).toRat ≤ x.toRat := by
  have hx' : x.isFinite := by
    cases x with
    | nan => exact absurd rfl (ne_nan_of_le hx).2
    | infinite negative =>
        have hmax : (infinite false).floor.max 0 = infinite false :=
          max_of_not_lt (fun hnan => by cases hnan) (not_lt_of_le (le_infinite (ofNat_ne_nan 0)))
        rw [eq_false_of_zero_le_infinite hx, hmax] at hfinite
        cases hfinite
    | finite => rfl
  obtain ⟨hfloor, hvalue⟩ := toRat_floor hx'
  have hnonneg := toRat_floor_nonneg hx' ((toRat_nonneg_iff hx').mpr hx)
  have hless : ¬x.floor < 0 := by
    rw [lt_iff_toRat_lt hfloor isFinite_zero, toRat_zero]
    exact not_lt.mpr hnonneg
  rw [max_of_not_lt (ne_nan_of_isFinite hfloor) hless]
  refine ⟨hx', hnonneg, ?_⟩
  rw [hvalue]
  exact Int.floor_le _

theorem mul_ofNat_mono (hs : s.isFinite) (hpos : 0 < s) (hij : i ≤ j) (hj : j ≤ 2 ^ 53) :
    s * ofNat i ≤ s * ofNat j :=
  mul_mono_right hs (isFinite_ofNat (Nat.le_trans hij hj)) (isFinite_ofNat hj) (le_of_lt hpos)
    (zero_le_ofNat i) (ofNat_mono hij)

/-- A count is no larger than the number it comes from. -/
theorem le_of_le_toCount (hx : x.isFinite) (hx0 : 0 ≤ x) (hi : i ≤ x.toCount)
    (hfew : i ≤ maxCount) : (i : ℚ) ≤ x.toRat := by
  cases i with
  | zero =>
      rw [Nat.cast_zero]
      exact (toRat_nonneg_iff hx).mpr hx0
  | succ n =>
      rw [Nat.cast_succ]
      exact (lt_toCount_iff hx hfew).mp hi

theorem toCount_le (hx : x.isFinite) (hle : x ≤ ofNat i) (hi : i < maxCount) (hi' : i ≤ 2 ^ 53) :
    x.toCount ≤ i := by
  by_contra hmore
  have hreach := (lt_toCount_iff hx hi).mp (Nat.lt_of_not_le hmore)
  rw [le_iff_toRat_le hx (isFinite_ofNat hi'), toRat_ofNat hi'] at hle
  linarith

end Binary64

namespace Axis

open Binary64 (ceiling halfUnit isFinite_zero)

variable {axis : Axis} {first second step x : Binary64} {majors more : List Binary64}
  {ticks : UInt64}

/-! ## What is checked and what is laid out -/

def minorStep (first second : Binary64) (ticks : UInt64) : Binary64 :=
  (second - first) / .ofNat (ticks + 1).toNat

/-- The whole steps from the start of the axis to the first key point. -/
def stepsBack (axis : Axis) (first step : Binary64) : Binary64 :=
  ((first - axis.start) / step).floor.max 0

/-- Where the grid begins. -/
def anchor (axis : Axis) (first step : Binary64) : Binary64 :=
  first - stepsBack axis first step * step

/-- The whole steps from there to the end of the axis. -/
def minorCount (axis : Axis) (first step : Binary64) : Binary64 :=
  ((axis.stop - anchor axis first step) / step).floor

def gridPoint (axis : Axis) (first step : Binary64) (i : Nat) : Binary64 :=
  anchor axis first step + step * .ofNat i

/-- The steps that are laid out. -/
structure Laid (axis : Axis) (first step : Binary64) : Prop where
  step_isFinite : step.isFinite
  step_pos : 0 < step
  count_isFinite : (minorCount axis first step).isFinite
  zero_le_count : 0 ≤ minorCount axis first step
  count_le : minorCount axis first step ≤ .ofNat mostMinorSteps

def gridPoints (axis : Axis) (first step : Binary64) : List Binary64 :=
  (List.range ((minorCount axis first step).toCount + 1)).map (gridPoint axis first step)

theorem minorsBetween_of_laid (hlaid : Laid axis first (minorStep first second ticks)) :
    minorsBetween (first :: second :: more) ticks axis =
      (gridPoints axis first (minorStep first second ticks)).filter
        fun x => !isMajor (first :: second :: more) (minorStep first second ticks) x := by
  have hcount : (minorCount axis first (minorStep first second ticks)).isFinite ∧
      0 ≤ minorCount axis first (minorStep first second ticks) ∧
      minorCount axis first (minorStep first second ticks) ≤ .ofNat mostMinorSteps :=
    ⟨hlaid.count_isFinite, hlaid.zero_le_count, hlaid.count_le⟩
  exact (if_pos ⟨hlaid.step_isFinite, hlaid.step_pos⟩).trans (if_pos hcount)

theorem minorsBetween_of_not_laid (hlaid : ¬Laid axis first (minorStep first second ticks)) :
    minorsBetween (first :: second :: more) ticks axis = [] := by
  by_cases hstep : (minorStep first second ticks).isFinite ∧ 0 < minorStep first second ticks
  · refine (if_pos hstep).trans (if_neg fun hcount => hlaid ?_)
    exact ⟨hstep.1, hstep.2, hcount.1, hcount.2.1, hcount.2.2⟩
  · exact if_neg hstep

/-! ## What is laid out is finite -/

theorem abs_toRat_le (hlow : -endLimit ≤ x) (hhigh : x ≤ endLimit) :
    x.isFinite ∧ |x.toRat| ≤ ceiling / 4 := by
  have hx := Binary64.isFinite_of_le isFinite_neg_endLimit isFinite_endLimit hlow hhigh
  obtain ⟨limit, hlimit, -, hquarter⟩ := place_endLimit
  have hone := Binary64.one_pos_rat
  have hend : endLimit.toRat ≤ ceiling / 4 := by
    rw [Binary64.toRat_eq isFinite_endLimit hlimit, ceiling, div_right_comm,
      div_le_div_iff_of_pos_right hone]
    have hcast : ((4 * limit : Int) : ℚ) ≤ (Magnitude.limit : Int) := Int.cast_le.mpr hquarter
    rw [Int.cast_mul, Int.cast_ofNat, Int.cast_natCast] at hcast
    linarith
  rw [Binary64.le_iff_toRat_le isFinite_neg_endLimit hx, Binary64.toRat_neg isFinite_endLimit]
    at hlow
  rw [Binary64.le_iff_toRat_le hx isFinite_endLimit] at hhigh
  refine ⟨hx, abs_le.mpr ⟨?_, ?_⟩⟩ <;> linarith

/-- A count that is finite comes from finite numbers. -/
theorem Laid.isFinite (hlaid : Laid axis first step) :
    ((axis.stop - anchor axis first step) / step).isFinite ∧
      (axis.stop - anchor axis first step).isFinite ∧ (anchor axis first step).isFinite ∧
        (stepsBack axis first step * step).isFinite ∧ (stepsBack axis first step).isFinite := by
  have hquotient := Binary64.isFinite_of_floor hlaid.count_isFinite
  have hlength := Binary64.isFinite_of_div hquotient
  have hanchor := (Binary64.isFinite_of_sub hlength).2
  have hback := (Binary64.isFinite_of_sub hanchor).2
  exact ⟨hquotient, hlength, hanchor, hback, (Binary64.isFinite_of_mul hback).1⟩

section

variable (hstart : -endLimit ≤ axis.start) (hstop : axis.stop ≤ endLimit)
  (hfirst : axis.Contains first) (hlaid : Laid axis first step)

include hstart hstop hfirst

theorem ends_and_first :
    (axis.start.isFinite ∧ |axis.start.toRat| ≤ ceiling / 4) ∧
      (axis.stop.isFinite ∧ |axis.stop.toRat| ≤ ceiling / 4) ∧
        first.isFinite ∧ |first.toRat| ≤ ceiling / 4 := by
  obtain ⟨hlow, hhigh⟩ := hfirst
  exact ⟨abs_toRat_le hstart (Binary64.le_trans (Binary64.le_trans hlow hhigh) hstop),
    abs_toRat_le (Binary64.le_trans (Binary64.le_trans hstart hlow) hhigh) hstop,
    abs_toRat_le (Binary64.le_trans hstart hlow) (Binary64.le_trans hhigh hstop)⟩

include hlaid

/-- The way back is no longer than the distance to the start of the axis, but for rounding. -/
theorem way_back_le :
    0 ≤ (stepsBack axis first step).toRat * step.toRat ∧
      (stepsBack axis first step).toRat * step.toRat ≤
        first.toRat - axis.start.toRat + ceiling / 2 ^ 50 := by
  obtain ⟨⟨hstart', hstartLe⟩, -, hfirst', hfirstLe⟩ := ends_and_first hstart hstop hfirst
  obtain ⟨-, -, -, -, hback⟩ := hlaid.isFinite
  have hpos := (Binary64.toRat_pos_iff hlaid.step_isFinite).mpr hlaid.step_pos
  have hunit := Binary64.halfUnit_le
  have hunit' := Binary64.halfUnit_mul_le hlaid.step_isFinite
  rw [abs_of_pos hpos] at hunit'
  rw [abs_le] at hstartLe hfirstLe
  have hlength : |first.toRat - axis.start.toRat| ≤ ceiling / 2 := by
    rw [abs_le]
    constructor <;> linarith
  have hdistance := Binary64.near_sub hfirst' hstart' (by linarith)
  obtain ⟨-, hdistanceLe⟩ := hdistance.bounds hlength
  have hzero := Binary64.zero_le_sub hfirst' hstart' hfirst.1
  have hnonneg := (Binary64.toRat_nonneg_iff hdistance.isFinite).mpr hzero
  obtain ⟨hquotient, hback0, hbackLe⟩ := Binary64.floor_max_zero
    (Binary64.zero_le_div hdistance.isFinite hlaid.step_isFinite hzero hlaid.step_pos) hback
  have hsteps := (Binary64.near_div_of_isFinite hdistance.isFinite hlaid.step_isFinite hpos.ne'
    hquotient).mul_divisor hpos
  rw [abs_of_nonneg hnonneg, abs_le] at hsteps
  refine ⟨mul_nonneg hback0 hpos.le, ?_⟩
  have hle := mul_le_mul_of_nonneg_right hbackLe hpos.le
  rw [stepsBack]
  linarith

/-- The grid begins at the start of the axis or after it, but for rounding. -/
theorem abs_anchor_le : |(anchor axis first step).toRat| ≤ 26 / 100 * ceiling := by
  obtain ⟨⟨-, hstartLe⟩, -, hfirst', hfirstLe⟩ := ends_and_first hstart hstop hfirst
  obtain ⟨-, -, -, hway, hback⟩ := hlaid.isFinite
  obtain ⟨hway0, hwayLe⟩ := way_back_le hstart hstop hfirst hlaid
  have hunit := Binary64.halfUnit_pos
  have hunit' := Binary64.halfUnit_le
  rw [abs_le] at hstartLe hfirstLe
  have hsize : |(stepsBack axis first step).toRat * step.toRat| ≤ 51 / 100 * ceiling := by
    rw [abs_of_nonneg hway0]
    linarith
  obtain ⟨hproductLow, hproductHigh⟩ :=
    (Binary64.near_mul hback hlaid.step_isFinite (by linarith)).bounds hsize
  have hsize' :
      |first.toRat - (stepsBack axis first step * step).toRat| ≤ 251 / 1000 * ceiling := by
    rw [abs_le]
    constructor <;> linarith
  obtain ⟨hlow, hhigh⟩ := (Binary64.near_sub hfirst' hway (by linarith)).bounds hsize'
  rw [abs_le] at hsize' ⊢
  rw [anchor]
  constructor <;> linarith

/-- No point lies far behind the end of the axis, so no sum and no product overflows. -/
theorem isFinite_gridPoint {i : Nat} (hi : i ≤ (minorCount axis first step).toCount)
    (hfew : i ≤ mostMinorSteps) : (gridPoint axis first step i).isFinite := by
  obtain ⟨-, ⟨hstop', hstopLe⟩, -⟩ := ends_and_first hstart hstop hfirst
  obtain ⟨hquotient, hlength, hanchor, -⟩ := hlaid.isFinite
  have hanchorLe := abs_anchor_le hstart hstop hfirst hlaid
  have hpos := (Binary64.toRat_pos_iff hlaid.step_isFinite).mpr hlaid.step_pos
  have hunit := Binary64.halfUnit_le
  have hunit' := Binary64.halfUnit_mul_le hlaid.step_isFinite
  rw [abs_of_pos hpos] at hunit'
  rw [abs_le] at hstopLe hanchorLe
  have hsize : |axis.stop.toRat - (anchor axis first step).toRat| ≤ 51 / 100 * ceiling := by
    rw [abs_le]
    constructor <;> linarith
  obtain ⟨hlow, hhigh⟩ := (Binary64.near_sub hstop' hanchor (by linarith)).bounds hsize
  have hlengthLe : |(axis.stop - anchor axis first step).toRat| ≤ 52 / 100 * ceiling := by
    rw [abs_le] at hsize ⊢
    constructor <;> linarith
  have hsteps := (Binary64.near_div_of_isFinite hlength hlaid.step_isFinite hpos.ne'
    hquotient).mul_divisor hpos
  have hindex : (i : ℚ) ≤ ((axis.stop - anchor axis first step) / step).toRat := by
    refine le_trans (Binary64.le_of_le_toCount hlaid.count_isFinite hlaid.zero_le_count hi
      (Nat.le_trans hfew (by decide))) ?_
    rw [minorCount, (Binary64.toRat_floor hquotient).2]
    exact Int.floor_le _
  have hindexMul := mul_le_mul_of_nonneg_right hindex hpos.le
  have hindexMul0 := mul_nonneg (Nat.cast_nonneg (α := ℚ) i) hpos.le
  have hfew' : i ≤ 2 ^ 53 := Nat.le_trans hfew (by decide)
  have hproductSize : |step.toRat * (Binary64.ofNat i).toRat| ≤ 53 / 100 * ceiling := by
    rw [Binary64.toRat_ofNat hfew', mul_comm, abs_of_nonneg hindexMul0]
    have hsteps' := (abs_le.mp hsteps).2
    have hlengthLe' := (abs_le.mp hlengthLe).2
    linarith
  have hproduct := Binary64.near_mul hlaid.step_isFinite (Binary64.isFinite_ofNat hfew')
    (by linarith)
  obtain ⟨hproductLow, hproductHigh⟩ := hproduct.bounds hproductSize
  rw [abs_le] at hproductSize
  refine (Binary64.near_add hanchor hproduct.isFinite ?_).isFinite
  rw [abs_le]
  constructor <;> linarith

end

/-! ## The points of the grid -/

theorem Laid.count_toCount_le (hlaid : Laid axis first step) :
    (minorCount axis first step).toCount ≤ mostMinorSteps :=
  Binary64.toCount_le hlaid.count_isFinite hlaid.count_le (by decide) (by decide)

theorem gridPoint_mono (hlaid : Laid axis first step) {i j : Nat} (hij : i ≤ j)
    (hj : j ≤ mostMinorSteps) : gridPoint axis first step i ≤ gridPoint axis first step j :=
  Binary64.add_mono_right hlaid.isFinite.2.2.1
    (Binary64.mul_ofNat_mono hlaid.step_isFinite hlaid.step_pos hij
      (Nat.le_trans hj (by decide)))

theorem gridPoints_sorted (hlaid : Laid axis first step) :
    (gridPoints axis first step).Pairwise (· ≤ ·) := by
  rw [gridPoints, List.pairwise_map]
  refine List.Pairwise.imp_of_mem ?_ List.pairwise_lt_range
  intro i j _ hj hij
  have hcount := hlaid.count_toCount_le
  rw [List.mem_range] at hj
  exact gridPoint_mono hlaid (Nat.le_of_lt hij) (by omega)

theorem not_isMajor_iff : (!isMajor majors step x) = true ↔
    ∀ m ∈ majors, ¬(m - x).abs < step * nearShare := by
  rw [isMajor, Bool.not_eq_true', List.any_eq_false]
  simp only [decide_eq_true_eq]

theorem minorsBetween_cases (majors : List Binary64) (ticks : UInt64) (axis : Axis) :
    minorsBetween majors ticks axis = [] ∨
      ∃ first second more, majors = first :: second :: more ∧
        Laid axis first (minorStep first second ticks) ∧
        minorsBetween majors ticks axis =
          (gridPoints axis first (minorStep first second ticks)).filter
            fun x => !isMajor majors (minorStep first second ticks) x := by
  rcases majors with - | ⟨first, - | ⟨second, more⟩⟩
  · exact .inl rfl
  · exact .inl rfl
  · by_cases hlaid : Laid axis first (minorStep first second ticks)
    · exact .inr ⟨first, second, more, rfl, hlaid, minorsBetween_of_laid hlaid⟩
    · exact .inl (minorsBetween_of_not_laid hlaid)

/-- On an axis within the limit that contains the first of the key points, whatever the others
are, the minor grid has few points.  All of them are finite, they do not go back, and none of
them is near a key point. -/
theorem minorsBetween_safe {axis : Axis} {majors : List Binary64} (ticks : UInt64)
    (hstart : -endLimit ≤ axis.start) (hstop : axis.stop ≤ endLimit)
    (hfirst : ∀ first ∈ majors.head?, axis.Contains first) :
    let points := minorsBetween majors ticks axis
    points.length ≤ 1001 ∧ (∀ x ∈ points, x.isFinite) ∧ points.Pairwise (· ≤ ·) ∧
      ∀ first second more, majors = first :: second :: more →
        ∀ x ∈ points, ∀ m ∈ majors, ¬(m - x).abs < minorStep first second ticks * nearShare := by
  intro points
  obtain hnone | ⟨first, second, more, rfl, hlaid, hpoints⟩ :=
    minorsBetween_cases majors ticks axis
  · rw [show points = [] from hnone]
    refine ⟨Nat.zero_le _, ?_, List.Pairwise.nil, ?_⟩
    · intro x hx
      cases hx
    · intro _ _ _ _ x hx
      cases hx
  · have hcontains := hfirst first rfl
    have hcount := hlaid.count_toCount_le
    rw [show points = _ from hpoints]
    refine ⟨?_, ?_, (gridPoints_sorted hlaid).filter _, ?_⟩
    · refine Nat.le_trans (List.length_filter_le _ _) ?_
      rw [gridPoints, List.length_map, List.length_range]
      exact Nat.succ_le_succ hcount
    · intro x hx
      obtain ⟨i, hi, rfl⟩ := List.mem_map.mp (List.mem_of_mem_filter hx)
      rw [List.mem_range] at hi
      exact isFinite_gridPoint hstart hstop hcontains hlaid (by omega) (by omega)
    · intro first' second' more' hmajors x hx
      cases hmajors
      exact not_isMajor_iff.mp (List.mem_filter.mp hx).2

/-- Key points that are no grid at all. -/
def strayMajors : List Binary64 := [0, endLimit, .nan, .infinite true, 0]

def upToLimit : Axis := ⟨0, endLimit⟩

theorem minorsBetween_strayMajors :
    (∀ first ∈ strayMajors.head?, upToLimit.Contains first) ∧
      (minorsBetween strayMajors 4 upToLimit).length ≤ 1001 ∧
      ∀ x ∈ minorsBetween strayMajors 4 upToLimit, x.isFinite := by
  have hzero : 0 ≤ endLimit := Binary64.le_trans zero_le_leastShare leastShare_le_endLimit
  have hcontains : upToLimit.Contains 0 := by
    rw [Contains, upToLimit]
    dsimp only
    exact ⟨Binary64.le_self (Binary64.ofNat_ne_nan 0), hzero⟩
  have hfirst : ∀ first ∈ strayMajors.head?, upToLimit.Contains first := by
    intro first hfirst
    rwa [← Option.some.inj hfirst]
  have hstart : -endLimit ≤ upToLimit.start := Binary64.neg_le_zero hzero
  have hstop : upToLimit.stop ≤ endLimit := Binary64.le_self endLimit_ne_nan
  obtain ⟨hlength, hfinite, -⟩ := minorsBetween_safe 4 hstart hstop hfirst
  exact ⟨hfirst, hlength, hfinite⟩

end Axis

end RewardPlot
