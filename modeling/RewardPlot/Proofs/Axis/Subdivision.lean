import RewardPlot.Proofs.Axis.MinorGrid
/-!
# The minor grid of whole key points

Where the key points and the ends of an axis are whole numbers, and the ticks divide the distance
of the key points, nothing is rounded.  The grid is then made of all multiples of the step, as
counted from the first key point, that lie on the axis and are no key points.
-/

namespace RewardPlot

namespace Binary64

variable {a b : Int} {s t : Nat}

theorem ofInt_lt_ofInt (ha : a.natAbs ≤ 2 ^ 53) (hb : b.natAbs ≤ 2 ^ 53) (hab : a < b) :
    ofInt a < ofInt b := by
  refine lt_iff.mpr ⟨_, _, place_ofInt ha, place_ofInt hb, ?_⟩
  have hone := Magnitude.one_pos
  exact Int.mul_lt_mul_of_pos_right hab (by omega)

theorem ofNat_max_zero (n : Nat) : (ofNat n).max 0 = ofNat n :=
  max_of_not_lt (ofNat_ne_nan n) (not_lt_of_le (zero_le_ofNat n))

theorem units_share_le {parts : Nat} {c : Magnitude} (hparts : 0 < parts)
    (hc : ofFraction 1 parts = finite false c) : c.units ≤ Magnitude.one := by
  have hdvd := Magnitude.spacing_dvd_whole (n := 1) (by decide)
  rw [Nat.mul_one] at hdvd
  have hle : 1 * Magnitude.one ≤ Magnitude.one * parts := by
    rw [Nat.one_mul]
    exact Nat.le_mul_of_pos_right _ hparts
  have hnearest := Magnitude.nearest_le hparts hdvd hle
  have hplace := congrArg place hc
  rw [ofFraction, place_ofQuotient_false, place_finite, Option.some.injEq] at hplace
  have hreach : reach (Magnitude.nearest (1 * Magnitude.one) parts) ≤ Magnitude.one :=
    Nat.le_trans (Nat.min_le_left _ _) hnearest
  have hsigned : signed false c = c.units := rfl
  omega

/-- A small share is more than nothing and no more than the whole. -/
theorem place_ofNat_mul_share {parts : Nat} (hparts : 0 < parts) (hfew : parts ≤ 2 ^ 20)
    (hs : 0 < s) (hs' : s ≤ 2 ^ 53) :
    ∃ p : Int, (ofNat s * ofFraction 1 parts).place = some p ∧ 0 < p ∧ p ≤ s * Magnitude.one := by
  obtain ⟨c, hc, hlow⟩ := isShare_ofFraction Nat.one_pos hparts hfew (Nat.one_mul parts).symm
  obtain ⟨n, hn, hunits⟩ := ofNat_exact hs'
  have hone := Magnitude.one_pos
  have hpos : 0 < c.units := by
    rw [Nat.pos_iff_ne_zero]
    intro hzero
    rw [hzero, Nat.zero_mul, Nat.mul_zero] at hlow
    omega
  have hle := units_share_le hparts hc
  have hnearestLe : Magnitude.nearest (n.units * c.units) Magnitude.one ≤ Magnitude.one * s := by
    apply Magnitude.nearest_le hone (Magnitude.spacing_dvd_whole hs')
    rw [hunits]
    exact Nat.mul_le_mul_left _ hle
  have hleNearest : 1 ≤ Magnitude.nearest (n.units * c.units) Magnitude.one := by
    apply Magnitude.le_nearest hone
    · rw [Magnitude.spacing_of_small (by decide)]
    · rw [hunits, Nat.one_mul, Nat.mul_assoc]
      exact Nat.le_mul_of_pos_right _ (Nat.mul_pos hs hpos)
  have hreach : reach (Magnitude.nearest (n.units * c.units) Magnitude.one) =
      Magnitude.nearest (n.units * c.units) Magnitude.one := by
    apply Nat.min_eq_left
    have hlimit := Magnitude.one_mul_lt_limit hs'
    omega
  refine ⟨Magnitude.nearest (n.units * c.units) Magnitude.one, ?_, by omega, ?_⟩
  · rw [hn, hc, finite_mul, Bool.xor_self, place_ofQuotient_false, hreach]
  · rw [Int.mul_comm, ← Int.natCast_mul]
    exact Int.ofNat_le.mpr hnearestLe

/-- A whole number is smaller than a small share of the step only if it is zero. -/
theorem ofNat_lt_share_iff {parts : Nat} (hparts : 0 < parts) (hfew : parts ≤ 2 ^ 20)
    (hs : 0 < s) (hs' : s ≤ 2 ^ 53) (ht : t ≤ 2 ^ 53) (hst : s ∣ t) :
    ofNat t < ofNat s * ofFraction 1 parts ↔ t = 0 := by
  obtain ⟨p, hp, hpos, hle⟩ := place_ofNat_mul_share hparts hfew hs hs'
  have hone := Magnitude.one_pos
  rw [lt_iff]
  simp only [place_ofNat ht, hp, Option.some.injEq, exists_and_left, exists_eq_left']
  constructor
  · intro hlt
    by_contra hne
    have hst' := Nat.le_of_dvd (Nat.pos_of_ne_zero hne) hst
    have hmul : (s : Int) * Magnitude.one ≤ t * Magnitude.one :=
      Int.mul_le_mul_of_nonneg_right (Int.ofNat_le.mpr hst') (Int.natCast_nonneg _)
    omega
  · rintro rfl
    rwa [Int.natCast_zero, Int.zero_mul]

end Binary64

theorem filter_map_of_mem {α β : Type} {f : α → β} {p : β → Bool} {q : α → Bool} {l : List α}
    (hpq : ∀ x ∈ l, p (f x) = q x) : (l.map f).filter p = (l.filter q).map f := by
  rw [List.filter_map]
  congr 1
  exact List.filter_congr hpq

namespace Axis

open Binary64 (ofInt)

/-- Key points at whole numbers, as many of them as lie on an axis with whole ends, and ticks
that divide their distance. -/
structure WholeGrid where
  first : Int
  start : Int
  stop : Int
  spacing : Nat
  intervals : Nat
  ticks : Nat
  spacing_pos : 0 < spacing
  intervals_pos : 0 < intervals
  dvd_spacing : ticks + 1 ∣ spacing
  start_le : start ≤ first
  before_start : first - spacing < start
  last_le : first + intervals * spacing ≤ stop
  after_stop : stop < first + (intervals + 1) * spacing
  small_start : start.natAbs < 2 ^ 50
  small_stop : stop.natAbs < 2 ^ 50

namespace WholeGrid

variable (g : WholeGrid) {z j : Int}

def keyPoints : List Binary64 :=
  (List.range (g.intervals + 1)).map fun k : Nat => ofInt (g.first + k * g.spacing)

def axis : Axis := ⟨ofInt g.start, ofInt g.stop⟩

def minorGrid : List Binary64 := minorsBetween g.keyPoints (.ofNat g.ticks) g.axis

def step : Nat := g.spacing / (g.ticks + 1)

/-- The multiple of the step at which the grid begins. -/
def lowest : Int := g.first - (g.first - g.start) / g.step * g.step

theorem step_mul : g.step * (g.ticks + 1) = g.spacing := Nat.div_mul_cancel g.dvd_spacing

theorem step_pos : 0 < g.step := by
  apply Nat.pos_of_ne_zero
  intro hzero
  have hspacing := g.step_mul
  have hpos := g.spacing_pos
  rw [hzero, Nat.zero_mul] at hspacing
  omega

/-- The lowest multiple of the step on the axis, as counted from the first key point. -/
theorem isLeast_lowest :
    IsLeast {z | g.start ≤ z ∧ ∃ j : Int, z = g.first + j * g.step} g.lowest := by
  have hstep : (0 : Int) < g.step := Int.natCast_pos.mpr g.step_pos
  have hdivision := Int.emod_add_mul_ediv (g.first - g.start) g.step
  have hlow := Int.emod_nonneg (g.first - g.start) hstep.ne'
  have hhigh := Int.emod_lt_of_pos (g.first - g.start) hstep
  constructor
  · refine ⟨?_, -((g.first - g.start) / g.step), ?_⟩
    · rw [lowest, Int.mul_comm]
      omega
    · rw [lowest, Int.neg_mul, Int.sub_eq_add_neg]
  · rintro z ⟨hz, j, rfl⟩
    have hj : -j ≤ (g.first - g.start) / g.step := by
      rw [Int.le_ediv_iff_mul_le hstep, Int.neg_mul]
      omega
    have hmul := Int.mul_le_mul_of_nonneg_right hj hstep.le
    rw [Int.neg_mul] at hmul
    rw [lowest]
    omega

/-- The whole steps from the lowest multiple to the end of the axis. -/
def count : Nat := (g.stop - g.lowest).toNat / g.step

/-- All numbers of the grid have less than 53 digits. -/
theorem bounds : g.start.natAbs < 2 ^ 50 ∧ g.stop.natAbs < 2 ^ 50 ∧ g.start ≤ g.lowest ∧
    g.lowest ≤ g.first ∧ g.first ≤ g.stop ∧ g.spacing < 2 ^ 51 ∧ g.step ≤ g.spacing ∧
    g.ticks < g.spacing := by
  have hlast := g.last_le
  have hspacing : (g.spacing : Int) ≤ g.intervals * g.spacing :=
    le_mul_of_one_le_left (Int.natCast_nonneg _) (Int.natCast_pos.mpr g.intervals_pos)
  have hstart := g.isLeast_lowest.1.1
  have hfirst : g.lowest ≤ g.first :=
    g.isLeast_lowest.2 ⟨g.start_le, 0, by rw [Int.zero_mul, Int.add_zero]⟩
  have hsmall := g.small_start
  have hsmall' := g.small_stop
  have hticks := Nat.le_of_dvd g.spacing_pos g.dvd_spacing
  exact ⟨hsmall, hsmall', hstart, hfirst, by omega, by omega, Nat.div_le_self _ _, hticks⟩

/-! ## Nothing is rounded -/

theorem minorStep_eq :
    minorStep (ofInt g.first) (ofInt (g.first + g.spacing)) (.ofNat g.ticks) = .ofNat g.step := by
  have hbounds := g.bounds
  have hparts : (UInt64.ofNat g.ticks + 1).toNat = g.ticks + 1 := by
    have hone : (1 : UInt64).toNat = 1 := rfl
    rw [UInt64.toNat_add, UInt64.toNat_ofNat', hone, Nat.mod_add_mod]
    exact Nat.mod_eq_of_lt (by omega)
  rw [minorStep, hparts, Binary64.ofInt_sub (by omega) (by omega), add_sub_cancel_left,
    Binary64.ofInt_natCast, Binary64.ofNat_div (by omega) (by omega) (by omega), ← g.step_mul,
    Binary64.ofFraction_mul _ (by omega)]

theorem anchor_eq : anchor g.axis (ofInt g.first) (.ofNat g.step) = ofInt g.lowest := by
  have hbounds := g.bounds
  have hback : (((g.first - g.start).toNat / g.step : Nat) : Int) =
      (g.first - g.start) / g.step := by
    rw [Int.natCast_ediv, Int.toNat_of_nonneg (by omega)]
  have hway := Nat.div_mul_le_self (g.first - g.start).toNat g.step
  have hbackLe := Nat.div_le_self (g.first - g.start).toNat g.step
  have hback' : stepsBack g.axis (ofInt g.first) (.ofNat g.step) =
      .ofNat ((g.first - g.start).toNat / g.step) := by
    rw [stepsBack, axis, Binary64.ofInt_sub (by omega) (by omega),
      Binary64.ofInt_of_nonneg (by omega),
      Binary64.floor_ofNat_div (by omega) g.step_pos (by omega), Binary64.ofNat_max_zero]
  rw [anchor, hback', Binary64.ofNat_mul (by omega) (by omega), ← Binary64.ofInt_natCast,
    Binary64.ofInt_sub (by omega) (by omega), Int.natCast_mul, hback]
  rfl

theorem minorCount_eq : minorCount g.axis (ofInt g.first) (.ofNat g.step) = .ofNat g.count := by
  have hbounds := g.bounds
  rw [minorCount, anchor_eq, axis, Binary64.ofInt_sub (by omega) (by omega),
    Binary64.ofInt_of_nonneg (by omega), Binary64.floor_ofNat_div (by omega) g.step_pos (by omega)]
  rfl

theorem count_le : g.count ≤ 2 ^ 51 := by
  have hbounds := g.bounds
  have hdivision := Nat.div_le_self (g.stop - g.lowest).toNat g.step
  rw [count]
  omega

theorem laid_iff : Laid g.axis (ofInt g.first) (.ofNat g.step) ↔ g.count ≤ 1000 := by
  have hcount := g.count_le
  have hbounds := g.bounds
  have hle : Binary64.ofNat g.count ≤ .ofNat mostMinorSteps ↔ g.count ≤ 1000 :=
    Binary64.ofNat_le_ofNat_iff (by omega) (by decide)
  constructor
  · intro hlaid
    have hcountLe := hlaid.count_le
    rwa [minorCount_eq, hle] at hcountLe
  · intro hfew
    refine ⟨Binary64.isFinite_ofNat (by omega), ?_, ?_, ?_, ?_⟩
    · have hpos := Binary64.ofInt_lt_ofInt (a := 0) (b := g.step) (by decide) (by omega)
        (Int.natCast_pos.mpr g.step_pos)
      rwa [Binary64.ofInt_zero, ← Binary64.ofNat_zero, Binary64.ofInt_natCast] at hpos
    · rw [minorCount_eq]
      exact Binary64.isFinite_ofNat (by omega)
    · rw [minorCount_eq]
      exact Binary64.zero_le_ofNat _
    · rwa [minorCount_eq, hle]

theorem gridPoint_eq {i : Nat} (hi : i ≤ g.count) :
    gridPoint g.axis (ofInt g.first) (.ofNat g.step) i = ofInt (g.lowest + g.step * i) := by
  have hbounds := g.bounds
  have hcount := g.count_le
  have hmul := Nat.mul_le_mul_left g.step hi
  have hway := Nat.mul_div_le (g.stop - g.lowest).toNat g.step
  rw [← count] at hway
  rw [gridPoint, anchor_eq, Binary64.ofNat_mul (by omega) (by omega), ← Binary64.ofInt_natCast,
    Binary64.ofInt_add (by omega) (by omega), Int.natCast_mul]

/-! ## Key points and other multiples -/

theorem keyPoints_eq :
    ∃ more, g.keyPoints = ofInt g.first :: ofInt (g.first + g.spacing) :: more := by
  obtain ⟨n, hn⟩ := Nat.exists_eq_succ_of_ne_zero g.intervals_pos.ne'
  rw [keyPoints, hn, List.range_succ_eq_map, List.range_succ_eq_map]
  simp only [List.map_cons, Nat.succ_eq_add_one, zero_add, Nat.cast_zero, Nat.cast_one, zero_mul,
    one_mul, add_zero]
  exact ⟨_, rfl⟩

theorem step_dvd_spacing : (g.step : Int) ∣ g.spacing :=
  Int.natCast_dvd_natCast.mpr ⟨g.ticks + 1, g.step_mul.symm⟩

theorem near_keyPoint_iff (hz : g.start ≤ z ∧ z ≤ g.stop) (hdvd : (g.step : Int) ∣ z - g.first)
    {k : Nat} (hk : k ≤ g.intervals) :
    (ofInt (g.first + k * g.spacing) - ofInt z).abs < .ofNat g.step * nearShare ↔
      z = g.first + k * g.spacing := by
  have hbounds := g.bounds
  have hlast := g.last_le
  have hlow : (0 : Int) ≤ k * g.spacing :=
    Int.mul_nonneg (Int.natCast_nonneg _) (Int.natCast_nonneg _)
  have hhigh : (k * g.spacing : Int) ≤ g.intervals * g.spacing :=
    Int.mul_le_mul_of_nonneg_right (Int.ofNat_le.mpr hk) (Int.natCast_nonneg _)
  have hdvd' : (g.step : Int) ∣ g.first + k * g.spacing - z := by
    have hdifference : g.first + k * g.spacing - z = k * g.spacing - (z - g.first) := by omega
    rw [hdifference]
    exact dvd_sub (Dvd.dvd.mul_left g.step_dvd_spacing _) hdvd
  rw [Binary64.ofInt_sub (by omega) (by omega), Binary64.abs_ofInt (by omega), nearShare,
    Binary64.ofNat_lt_share_iff (by decide) (by decide) g.step_pos (by omega) (by omega)
      (Int.natCast_dvd.mp hdvd')]
  omega

/-- Of the multiples of the step on the axis, the key points are those of their distance. -/
theorem isMajor_iff (hz : g.start ≤ z ∧ z ≤ g.stop) (hdvd : (g.step : Int) ∣ z - g.first) :
    isMajor g.keyPoints (.ofNat g.step) (ofInt z) ↔ (g.spacing : Int) ∣ z - g.first := by
  have hkeyPoint : isMajor g.keyPoints (.ofNat g.step) (ofInt z) ↔
      ∃ k ≤ g.intervals, z = g.first + k * g.spacing := by
    rw [isMajor, List.any_eq_true]
    constructor
    · rintro ⟨m, hm, hnear⟩
      obtain ⟨k, hk, rfl⟩ := List.mem_map.mp hm
      have hk' := Nat.le_of_lt_succ (List.mem_range.mp hk)
      exact ⟨k, hk', (g.near_keyPoint_iff hz hdvd hk').mp (of_decide_eq_true hnear)⟩
    · rintro ⟨k, hk, hzk⟩
      refine ⟨_, List.mem_map.mpr ⟨k, List.mem_range.mpr (Nat.lt_succ_of_le hk), rfl⟩, ?_⟩
      exact decide_eq_true ((g.near_keyPoint_iff hz hdvd hk).mpr hzk)
  rw [hkeyPoint]
  constructor
  · rintro ⟨k, -, rfl⟩
    exact ⟨k, by rw [add_sub_cancel_left, Int.mul_comm]⟩
  · rintro ⟨q, hq⟩
    have hspacing : (0 : Int) < g.spacing := Int.natCast_pos.mpr g.spacing_pos
    have hbefore := g.before_start
    have hafter := g.after_stop
    have hlow : (g.spacing : Int) * (-1) < g.spacing * q := by omega
    have hhigh : (g.spacing : Int) * q < g.spacing * (g.intervals + 1) := by
      rw [Int.mul_comm _ (g.intervals + 1 : Int)]
      omega
    have hlow' := Int.lt_of_mul_lt_mul_left hlow hspacing.le
    have hhigh' := Int.lt_of_mul_lt_mul_left hhigh hspacing.le
    refine ⟨q.toNat, by omega, ?_⟩
    rw [Int.toNat_of_nonneg (by omega), Int.mul_comm]
    omega

/-! ## The grid -/

/-- The multiples of the step on the axis, in order. -/
def multiples : List Int := (List.range (g.count + 1)).map fun i : Nat => g.lowest + g.step * i

/-- Those that are no key points. -/
def between : List Int := g.multiples.filter fun z => ¬(g.spacing : Int) ∣ z - g.first

theorem lowest_dvd : (g.step : Int) ∣ g.lowest - g.first := by
  obtain ⟨-, j, hj⟩ := g.isLeast_lowest.1
  exact ⟨j, by rw [hj, add_sub_cancel_left, Int.mul_comm]⟩

theorem mem_multiples_iff :
    z ∈ g.multiples ↔ (g.start ≤ z ∧ z ≤ g.stop) ∧ (g.step : Int) ∣ z - g.first := by
  have hstep : (0 : Int) < g.step := Int.natCast_pos.mpr g.step_pos
  have hbounds := g.bounds
  rw [multiples, List.mem_map]
  constructor
  · rintro ⟨i, hi, rfl⟩
    have hcount := Nat.le_of_lt_succ (List.mem_range.mp hi)
    rw [count, Nat.le_div_iff_mul_le g.step_pos, Nat.mul_comm] at hcount
    have hway : (g.step * i : Int) = (g.step * i : Nat) := (Int.natCast_mul _ _).symm
    refine ⟨by omega, ?_⟩
    rw [add_sub_right_comm]
    exact dvd_add g.lowest_dvd (Dvd.intro _ rfl)
  · rintro ⟨⟨hstart, hstop⟩, hdvd⟩
    obtain ⟨i, hi⟩ : (g.step : Int) ∣ z - g.lowest := by
      rw [← sub_sub_sub_cancel_right z g.lowest g.first]
      exact dvd_sub hdvd g.lowest_dvd
    have hlowest : g.lowest ≤ z :=
      g.isLeast_lowest.2 ⟨hstart, _, by rw [Int.ediv_mul_cancel hdvd]; omega⟩
    have hi' : 0 ≤ i := by
      by_contra hneg
      have hmul := Int.mul_neg_of_pos_of_neg hstep (Int.not_le.mp hneg)
      omega
    obtain ⟨n, rfl⟩ := Int.eq_ofNat_of_zero_le hi'
    refine ⟨n, ?_, by omega⟩
    rw [List.mem_range, Nat.lt_succ_iff, count, Nat.le_div_iff_mul_le g.step_pos, Nat.mul_comm]
    have hway : (g.step * n : Int) = (g.step * n : Nat) := (Int.natCast_mul _ _).symm
    omega

theorem multiples_sorted : g.multiples.Pairwise (· < ·) := by
  rw [multiples, List.pairwise_map]
  refine List.pairwise_lt_range.imp ?_
  intro i j hij
  have hstep : (0 : Int) < g.step := Int.natCast_pos.mpr g.step_pos
  have hmul := Int.mul_lt_mul_of_pos_left (Int.ofNat_lt.mpr hij) hstep
  omega

theorem gridPoints_eq :
    gridPoints g.axis (ofInt g.first) (.ofNat g.step) = g.multiples.map ofInt := by
  have hcount := g.count_le
  rw [gridPoints, minorCount_eq, Binary64.toCount_ofNat (by omega), multiples, List.map_map]
  apply List.map_congr_left
  intro i hi
  rw [Function.comp_apply, g.gridPoint_eq (Nat.le_of_lt_succ (List.mem_range.mp hi))]

theorem minorGrid_eq : g.minorGrid = if g.count ≤ 1000 then g.between.map ofInt else [] := by
  obtain ⟨more, hmore⟩ := g.keyPoints_eq
  have hstep := g.minorStep_eq
  rw [minorGrid, hmore]
  split_ifs with hfew
  · have hlaid := g.laid_iff.mpr hfew
    rw [← hstep] at hlaid
    have hkept : ∀ z ∈ g.multiples, (!isMajor g.keyPoints (.ofNat g.step) (ofInt z)) =
        decide ¬(g.spacing : Int) ∣ z - g.first := by
      intro z hz
      obtain ⟨haxis, hdvd⟩ := g.mem_multiples_iff.mp hz
      rw [decide_not, Bool.eq_iff_iff.mpr
        ((g.isMajor_iff haxis hdvd).trans decide_eq_true_iff.symm)]
    rw [minorsBetween_of_laid hlaid, hstep, gridPoints_eq, ← hmore, between]
    apply filter_map_of_mem
    exact hkept
  · apply minorsBetween_of_not_laid
    rwa [hstep, laid_iff]

theorem mem_between_iff :
    z ∈ g.between ↔ (g.start ≤ z ∧ z ≤ g.stop) ∧
      ∃ j : Int, z = g.first + j * g.step ∧ ¬(g.ticks + 1 : Int) ∣ j := by
  have hstep : (g.step : Int) ≠ 0 := (Int.natCast_pos.mpr g.step_pos).ne'
  have hspacing : (g.spacing : Int) = g.step * (g.ticks + 1) := by
    rw [← g.step_mul, Int.natCast_mul, Int.natCast_add, Int.natCast_one]
  rw [between, List.mem_filter, mem_multiples_iff, decide_eq_true_eq, and_assoc, hspacing]
  refine and_congr_right fun _ => ?_
  constructor
  · rintro ⟨⟨j, hj⟩, hnot⟩
    rw [hj, Int.mul_dvd_mul_iff_left hstep] at hnot
    exact ⟨j, by rw [Int.mul_comm, ← hj, add_sub_cancel], hnot⟩
  · rintro ⟨j, rfl, hnot⟩
    rw [add_sub_cancel_left, Int.mul_comm j, Int.mul_dvd_mul_iff_left hstep]
    exact ⟨Dvd.intro _ rfl, hnot⟩

theorem between_sorted : g.between.Pairwise (· < ·) := g.multiples_sorted.filter _

/-- The numbers of the grid inside an interval of the key points. -/
def inside (k : Nat) : List Int :=
  g.between.filter fun z => g.first + k * g.spacing < z ∧ z < g.first + (k + 1) * g.spacing

/-- The numbers that divide such an interval. -/
def divisions (k : Nat) : List Int :=
  (List.range g.ticks).map fun i : Nat => g.first + k * g.spacing + (i + 1) * g.step

theorem mem_divisions_iff {k : Nat} : z ∈ g.divisions k ↔
    ∃ i < g.ticks, z = g.first + k * g.spacing + (i + 1) * g.step := by
  simp only [divisions, List.mem_map, List.mem_range, eq_comm]

theorem mem_inside_iff {k : Nat} (hk : k < g.intervals) : z ∈ g.inside k ↔ z ∈ g.divisions k := by
  have hbounds := g.bounds
  have hlast := g.last_le
  have hstep : (0 : Int) < g.step := Int.natCast_pos.mpr g.step_pos
  have hspacing : (g.spacing : Int) = (g.ticks + 1) * g.step := by
    rw [← g.step_mul, Int.natCast_mul, Int.natCast_add, Int.natCast_one, Int.mul_comm]
  have hlow : (0 : Int) ≤ k * g.spacing :=
    Int.mul_nonneg (Int.natCast_nonneg _) (Int.natCast_nonneg _)
  have hhigh : ((k + 1) * g.spacing : Int) ≤ g.intervals * g.spacing :=
    Int.mul_le_mul_of_nonneg_right (by omega) (Int.natCast_nonneg _)
  rw [inside, between, List.mem_filter, List.mem_filter, mem_multiples_iff, mem_divisions_iff,
    decide_eq_true_eq, decide_eq_true_eq]
  rw [Int.add_mul k 1, Int.one_mul] at *
  constructor
  · rintro ⟨⟨⟨-, hdvd⟩, -⟩, hafter, hbefore⟩
    obtain ⟨q, hq⟩ : (g.step : Int) ∣ z - (g.first + k * g.spacing) := by
      rw [← sub_sub]
      exact dvd_sub hdvd (Dvd.dvd.mul_left g.step_dvd_spacing _)
    have hlow' : (g.step * 0 : Int) < g.step * q := by omega
    have hhigh' : (g.step * q : Int) < g.step * (g.ticks + 1) := by
      rw [Int.mul_comm _ (g.ticks + 1 : Int)]
      omega
    have hq0 := Int.lt_of_mul_lt_mul_left hlow' hstep.le
    have hq1 := Int.lt_of_mul_lt_mul_left hhigh' hstep.le
    refine ⟨(q - 1).toNat, by omega, ?_⟩
    rw [Int.toNat_of_nonneg (by omega), Int.sub_add_cancel, Int.mul_comm q]
    omega
  · rintro ⟨i, hi, rfl⟩
    have hi' : ((i + 1) * g.step : Int) < (g.ticks + 1) * g.step :=
      Int.mul_lt_mul_of_pos_right (by omega) hstep
    have hpos : (0 : Int) < (i + 1) * g.step := Int.mul_pos (by omega) hstep
    rw [← hspacing] at hi'
    have hoffset : g.first + k * g.spacing + (i + 1) * g.step - g.first =
        k * g.spacing + (i + 1) * g.step := by omega
    rw [hoffset]
    refine ⟨⟨⟨by omega, ?_⟩, ?_⟩, by omega, by omega⟩
    · exact dvd_add (Dvd.dvd.mul_left g.step_dvd_spacing _) (Dvd.intro_left _ rfl)
    · rw [dvd_add_right (Dvd.intro_left _ rfl)]
      intro hdvd
      have hle := Int.le_of_dvd hpos hdvd
      omega

theorem nodup_divisions (k : Nat) : (g.divisions k).Nodup := by
  have hstep : (0 : Int) < g.step := Int.natCast_pos.mpr g.step_pos
  rw [divisions, List.Nodup, List.pairwise_map]
  refine List.pairwise_lt_range.imp ?_
  intro i j hij hsame
  have hmul := Int.eq_of_mul_eq_mul_right hstep.ne' (Int.add_left_cancel hsame)
  omega

/-- Inside each interval of the key points there is one number for each tick. -/
theorem length_inside {k : Nat} (hk : k < g.intervals) : (g.inside k).length = g.ticks := by
  have hnodup : (g.inside k).Nodup := (g.between_sorted.imp Int.ne_of_lt).filter _
  have hperm := (List.perm_ext_iff_of_nodup hnodup (g.nodup_divisions k)).mpr
    fun z => g.mem_inside_iff hk
  rw [hperm.length_eq, divisions, List.length_map, List.length_range]

theorem minorGrid_sorted : g.minorGrid.Pairwise (· < ·) := by
  have hbounds := g.bounds
  rw [minorGrid_eq]
  split_ifs
  · rw [List.pairwise_map]
    refine g.between_sorted.imp_of_mem ?_
    intro a b ha hb hab
    obtain ⟨ha, -⟩ := g.mem_between_iff.mp ha
    obtain ⟨hb, -⟩ := g.mem_between_iff.mp hb
    exact Binary64.ofInt_lt_ofInt (by omega) (by omega) hab
  · exact List.Pairwise.nil

/-- The minor grid begins at the lowest multiple of the step on the axis.  If there are not too
many steps to the end of the axis, it is made of all multiples on the axis, in order, that are no
key points: in each interval of the key points as many as there are ticks, and the rest before
the first one and behind the last. -/
theorem minorGrid_subdivides (g : WholeGrid) :
    ∃ lowest : Int, IsLeast {z | g.start ≤ z ∧ ∃ j : Int, z = g.first + j * g.step} lowest ∧
      (1000 < (g.stop - lowest) / g.step → g.minorGrid = []) ∧
      ((g.stop - lowest) / g.step ≤ 1000 → g.minorGrid.Pairwise (· < ·) ∧
        ∃ zs : List Int, g.minorGrid = zs.map ofInt ∧ zs.Pairwise (· < ·) ∧
          (∀ z, z ∈ zs ↔ (g.start ≤ z ∧ z ≤ g.stop) ∧
            ∃ j : Int, z = g.first + j * g.step ∧ ¬(g.ticks + 1 : Int) ∣ j) ∧
          ∀ k < g.intervals, (zs.filter fun z => g.first + k * g.spacing < z ∧
            z < g.first + (k + 1) * g.spacing).length = g.ticks) := by
  have hbounds := g.bounds
  have hcount : (g.stop - g.lowest) / g.step = (g.count : Int) := by
    rw [count, Int.natCast_ediv, Int.toNat_of_nonneg (by omega)]
  refine ⟨g.lowest, g.isLeast_lowest, ?_, ?_⟩
  · intro hmany
    rw [minorGrid_eq, if_neg (by omega)]
  · intro hfew
    refine ⟨g.minorGrid_sorted, g.between, ?_, g.between_sorted, fun z => g.mem_between_iff, ?_⟩
    · rw [minorGrid_eq, if_pos (by omega)]
    · exact fun k hk => g.length_inside hk

/-- Fifths of the intervals from zero to ten, on an axis that goes on at both ends. -/
theorem minorGrid_of_fifths :
    ∃ g : WholeGrid, (g.first = 0 ∧ g.start = -3 ∧ g.stop = 12) ∧
      (g.spacing = 5 ∧ g.intervals = 2 ∧ g.ticks = 4) ∧
      ∃ zs : List Int, g.minorGrid = zs.map ofInt ∧ -3 ∈ zs ∧ 12 ∈ zs ∧ 5 ∉ zs := by
  obtain ⟨g, hends, hparts⟩ : ∃ g : WholeGrid, (g.first = 0 ∧ g.start = -3 ∧ g.stop = 12) ∧
      (g.spacing = 5 ∧ g.intervals = 2 ∧ g.ticks = 4) :=
    ⟨⟨0, -3, 12, 5, 2, 4, by decide, by decide, by decide, by decide, by decide, by decide,
      by decide, by decide, by decide⟩, ⟨rfl, rfl, rfl⟩, ⟨rfl, rfl, rfl⟩⟩
  refine ⟨g, hends, hparts, ?_⟩
  obtain ⟨hfirst, hstart, hstop⟩ := hends
  obtain ⟨hspacing, -, hticks⟩ := hparts
  have hstep : g.step = 1 := by rw [step, hspacing, hticks]
  obtain ⟨lowest, hleast, -, hgrid⟩ := g.minorGrid_subdivides
  have hlowest : g.start ≤ lowest := hleast.1.1
  obtain ⟨-, zs, hzs, -, hmem, -⟩ := hgrid (by
    rw [hstep, Int.natCast_one, Int.ediv_one]
    omega)
  simp only [hfirst, hstart, hstop, hticks, hstep] at hmem
  refine ⟨zs, hzs, ?_, ?_, ?_⟩
  · exact (hmem (-3)).mpr ⟨by decide, -3, by decide, by decide⟩
  · exact (hmem 12).mpr ⟨by decide, 12, by decide, by decide⟩
  · intro hfive
    obtain ⟨-, j, hj, hnot⟩ := (hmem 5).mp hfive
    omega

end WholeGrid

end Axis

end RewardPlot
