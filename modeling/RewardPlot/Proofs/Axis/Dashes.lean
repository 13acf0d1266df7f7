import RewardPlot.Axis.Dashes
import RewardPlot.Proofs.Axis.MinorGrid
import RewardPlot.Proofs.Binary64.Partway
/-!
# Dashes stay on their line

The shares of a line at which dashes begin and stop are rounded multiples of a rounded period.  An
image has room for few periods, so half a period is far longer than these errors: each share is
beyond the one before, and all stay away from the end of the line.  Along each coordinate the ends
of the dashes then follow one another between the ends of the line.
-/

namespace RewardPlot

open Binary64 (InnerShare halfUnit partway)

namespace Axis

/-- Two positions within the limit are not too far apart. -/
theorem isFinite_sub {x y : Binary64} (hx : -endLimit ≤ x) (hx' : x ≤ endLimit)
    (hy : -endLimit ≤ y) (hy' : y ≤ endLimit) : (y - x).isFinite := by
  obtain ⟨hxFinite, hxSize⟩ := abs_toRat_le hx hx'
  obtain ⟨hyFinite, hySize⟩ := abs_toRat_le hy hy'
  have hceiling := Binary64.two_pow_100_le_ceiling
  refine (Binary64.near_sub hyFinite hxFinite ?_).isFinite
  rw [abs_le] at hxSize hySize ⊢
  constructor <;> linarith

end Axis

namespace Dash

variable {start stop : Position} {periods i j k : Nat}

/-- The most periods for which an image has room, with six pixels for each. -/
def mostPeriods : Nat := Chart.mostPixels.toNat / 6

/-! ## Shares of the line -/

/-- The share of a line at the end of a dash, the ends of all dashes counted together. -/
def shareAt (periods i : Nat) : Binary64 :=
  let period := 1 / Binary64.ofNat periods
  let share := .ofNat (i / 2) * period
  if i % 2 = 0 then share else share + period * .ofFraction 1 2

section

variable (hpos : 0 < periods) (hmost : periods ≤ mostPeriods)

include hpos hmost

theorem periods_bounds : (1 : ℚ) ≤ periods ∧ (periods : ℚ) ≤ 2730 := by
  have hmost' : periods ≤ 2730 := hmost
  exact ⟨Nat.one_le_cast.mpr hpos, by exact_mod_cast hmost'⟩

theorem inv_periods_bounds : (1 / 2730 : ℚ) ≤ 1 / periods ∧ (1 / periods : ℚ) ≤ 1 := by
  obtain ⟨hone, hfew⟩ := periods_bounds hpos hmost
  constructor
  · exact one_div_le_one_div_of_le (by linarith) hfew
  · rw [div_le_one (by linarith)]
    exact hone

/-- Half a period of the exact division is one part in 5460 or more. -/
theorem exact_share_step (hij : i < j) :
    (i / (2 * periods) + 1 / 5460 : ℚ) ≤ j / (2 * periods) := by
  obtain ⟨hone, hfew⟩ := periods_bounds hpos hmost
  have hnext : (i + 1 : ℚ) ≤ j := by exact_mod_cast hij
  have hhalf : (1 / 5460 : ℚ) ≤ 1 / (2 * periods) :=
    one_div_le_one_div_of_le (by linarith) (by linarith)
  have hquotient : ((i + 1) / (2 * periods) : ℚ) ≤ j / (2 * periods) :=
    div_le_div_of_nonneg_right hnext (by linarith)
  rw [add_div] at hquotient
  linarith

theorem exact_share_bounds (hi : i < 2 * periods) :
    (0 : ℚ) ≤ i / (2 * periods) ∧ (i / (2 * periods) : ℚ) ≤ 1 - 1 / 5460 := by
  obtain ⟨hone, -⟩ := periods_bounds hpos hmost
  have hlast := exact_share_step hpos hmost hi
  rw [Nat.cast_mul, Nat.cast_ofNat, div_self (by linarith)] at hlast
  exact ⟨div_nonneg (Nat.cast_nonneg i) (by linarith), by linarith⟩

theorem exact_start_bounds (hk : k < periods) :
    (0 : ℚ) ≤ k / periods ∧ (k / periods : ℚ) ≤ 1 := by
  have htwo : (2 : ℚ) ≠ 0 := two_ne_zero
  have hbounds := exact_share_bounds hpos hmost (i := 2 * k) (by omega)
  rw [Nat.cast_mul, Nat.cast_ofNat, mul_div_mul_left _ _ htwo] at hbounds
  exact ⟨hbounds.1, by linarith [hbounds.2]⟩

theorem period_near : (1 / Binary64.ofNat periods).Near (1 / periods) := by
  have hone : (1 : Binary64) = .ofNat 1 := rfl
  have hmost' : periods ≤ 2730 := hmost
  have hceiling := Binary64.two_pow_100_le_ceiling
  obtain ⟨-, hle⟩ := inv_periods_bounds hpos hmost
  rw [hone, Binary64.ofNat_div (by decide) hpos (by omega)]
  have hsize : ((1 : Nat) / periods : ℚ) ≤ 15 / 16 * Binary64.ceiling := by
    rw [Nat.cast_one]
    linarith
  have hnear := Binary64.near_ofFraction hpos hsize
  rwa [Nat.cast_one] at hnear

theorem zero_le_period : 0 ≤ 1 / Binary64.ofNat periods := by
  have hmost' : periods ≤ 2730 := hmost
  have hfinite := Binary64.isFinite_ofNat (n := periods) (by omega)
  have hzero : 0 < Binary64.ofNat periods := by
    rw [← Binary64.toRat_pos_iff hfinite, Binary64.toRat_ofNat (by omega)]
    exact Nat.cast_pos.mpr hpos
  exact Binary64.zero_le_div Binary64.isFinite_one hfinite (Binary64.zero_le_ofNat 1) hzero

theorem period_error : |(1 / Binary64.ofNat periods).toRat - 1 / periods| ≤
    1 / periods / 2 ^ 53 + halfUnit := by
  have hsize : |(1 / periods : ℚ)| = 1 / periods :=
    abs_of_nonneg (one_div_nonneg.mpr (Nat.cast_nonneg periods))
  have herror := (period_near hpos hmost).error
  rwa [hsize] at herror

/-- The error of the period does not add up to more than one part in `2 ^ 53`, but for the last
digits of small numbers. -/
theorem mul_period_error (hk : k < periods) :
    |k * (1 / Binary64.ofNat periods).toRat - k / periods| ≤ 11 / 10 / 2 ^ 53 := by
  obtain ⟨-, hfew⟩ := periods_bounds hpos hmost
  obtain ⟨-, hshare⟩ := exact_start_bounds hpos hmost hk
  have hk0 : (0 : ℚ) ≤ k := Nat.cast_nonneg k
  have hk1 : (k : ℚ) ≤ periods := Nat.cast_le.mpr hk.le
  have hunits : k * halfUnit ≤ 2730 * (1 / 2 ^ 107) :=
    mul_le_mul (hk1.trans hfew) Binary64.halfUnit_le_power Binary64.halfUnit_pos.le (by norm_num)
  calc |k * (1 / Binary64.ofNat periods).toRat - k / periods|
    _ = k * |(1 / Binary64.ofNat periods).toRat - 1 / periods| := by
      rw [← abs_of_nonneg hk0, ← abs_mul, abs_of_nonneg hk0, mul_sub, mul_one_div]
    _ ≤ k * (1 / periods / 2 ^ 53 + halfUnit) :=
      mul_le_mul_of_nonneg_left (period_error hpos hmost) hk0
    _ = k / periods / 2 ^ 53 + k * halfUnit := by rw [mul_add, ← mul_div_assoc, mul_one_div]
    _ ≤ 11 / 10 / 2 ^ 53 := by linarith

/-- The start of a period. -/
theorem period_start_near (hk : k < periods) :
    (Binary64.ofNat k * (1 / .ofNat periods)).isFinite ∧
      |(Binary64.ofNat k * (1 / .ofNat periods)).toRat - k / periods| ≤ 3 / 2 ^ 53 := by
  have hmost' : periods ≤ 2730 := hmost
  have hceiling := Binary64.two_pow_100_le_ceiling
  have hunit := Binary64.halfUnit_le_power
  obtain ⟨hlow, hhigh⟩ := exact_start_bounds hpos hmost hk
  have herror := mul_period_error hpos hmost hk
  have hvalue : (Binary64.ofNat k).toRat = k := Binary64.toRat_ofNat (by omega)
  rw [abs_le] at herror
  have hsize : |(Binary64.ofNat k).toRat * (1 / Binary64.ofNat periods).toRat| ≤ 11 / 10 := by
    rw [hvalue, abs_le]
    constructor <;> linarith
  have hproduct := Binary64.near_mul (Binary64.isFinite_ofNat (n := k) (by omega))
    (period_near hpos hmost).isFinite (by linarith)
  obtain ⟨hproductLow, hproductHigh⟩ := hproduct.bounds hsize
  rw [hvalue] at hproductLow hproductHigh
  refine ⟨hproduct.isFinite, ?_⟩
  rw [abs_le]
  constructor <;> linarith

omit hpos hmost in
theorem half_near : (Binary64.ofFraction 1 2).Near (1 / 2) := by
  have hceiling := Binary64.two_pow_100_le_ceiling
  have hsize : ((1 : Nat) / (2 : Nat) : ℚ) ≤ 15 / 16 * Binary64.ceiling := by
    rw [Nat.cast_one, Nat.cast_ofNat]
    linarith
  have hnear := Binary64.near_ofFraction Nat.two_pos hsize
  rwa [Nat.cast_one, Nat.cast_ofNat] at hnear

/-- The drawn half of a period. -/
theorem half_period_near :
    (1 / Binary64.ofNat periods * .ofFraction 1 2).isFinite ∧
      |(1 / Binary64.ofNat periods * .ofFraction 1 2).toRat - 1 / (2 * periods)| ≤ 3 / 2 ^ 53 := by
  have hperiod := period_near hpos hmost
  have herror := period_error hpos hmost
  have hhalf := half_near
  have hunit := Binary64.halfUnit_le_power
  have hunit0 := Binary64.halfUnit_pos
  have hceiling := Binary64.two_pow_100_le_ceiling
  obtain ⟨hlow, hhigh⟩ := inv_periods_bounds hpos hmost
  have hsize : |(1 / Binary64.ofNat periods).toRat| ≤ 11 / 10 := by
    rw [abs_le] at herror ⊢
    constructor <;> linarith
  have hhalfError : |(Binary64.ofFraction 1 2).toRat - 1 / 2| ≤ 6 / 10 / 2 ^ 53 := by
    refine hhalf.error.trans ?_
    rw [abs_of_pos (by norm_num : (0 : ℚ) < 1 / 2)]
    linarith
  have hpart : |(1 / Binary64.ofNat periods).toRat * ((Binary64.ofFraction 1 2).toRat - 1 / 2)| ≤
      11 / 10 * (6 / 10 / 2 ^ 53) := by
    rw [abs_mul]
    exact mul_le_mul hsize hhalfError (abs_nonneg _) (by norm_num)
  rw [mul_sub] at hpart
  have hproductSize :
      |(1 / Binary64.ofNat periods).toRat * (Binary64.ofFraction 1 2).toRat| ≤ 1 := by
    rw [abs_le] at hpart hsize ⊢
    constructor <;> linarith
  have hproduct := Binary64.near_mul hperiod.isFinite hhalf.isFinite (by linarith)
  obtain ⟨hproductLow, hproductHigh⟩ := hproduct.bounds hproductSize
  refine ⟨hproduct.isFinite, ?_⟩
  rw [mul_comm 2 (periods : ℚ), ← div_div]
  rw [abs_le] at herror hpart ⊢
  constructor <;> linarith

theorem shareAt_near (hi : i < 2 * periods) :
    (shareAt periods i).isFinite ∧
      |(shareAt periods i).toRat - i / (2 * periods)| ≤ 1 / 2 ^ 50 := by
  obtain ⟨hstart, hstartError⟩ := period_start_near hpos hmost (k := i / 2) (by omega)
  have htwo : (2 : ℚ) ≠ 0 := two_ne_zero
  rw [← mul_div_mul_left _ _ htwo] at hstartError
  rw [shareAt]
  split_ifs with heven
  · have hindex : (2 * (i / 2 : Nat) : ℚ) = i := by
      exact_mod_cast (show 2 * (i / 2) = i by omega)
    rw [hindex] at hstartError
    exact ⟨hstart, hstartError.trans (by norm_num)⟩
  · have hindex : (2 * (i / 2 : Nat) + 1 : ℚ) = i := by
      exact_mod_cast (show 2 * (i / 2) + 1 = i by omega)
    obtain ⟨hhalf, hhalfError⟩ := half_period_near hpos hmost
    obtain ⟨hlow, hhigh⟩ := exact_share_bounds hpos hmost hi
    have hunit := Binary64.halfUnit_le_power
    have hceiling := Binary64.two_pow_100_le_ceiling
    rw [← hindex, add_div] at hlow hhigh ⊢
    rw [abs_le] at hstartError hhalfError
    have hsize : |(Binary64.ofNat (i / 2) * (1 / .ofNat periods)).toRat +
        (1 / Binary64.ofNat periods * .ofFraction 1 2).toRat| ≤ 11 / 10 := by
      rw [abs_le]
      constructor <;> linarith
    have hsum := Binary64.near_add hstart hhalf (by linarith)
    obtain ⟨hsumLow, hsumHigh⟩ := hsum.bounds hsize
    refine ⟨hsum.isFinite, ?_⟩
    rw [abs_le]
    constructor <;> linarith

/-- The errors alone would let the first shares fall below zero. -/
theorem zero_le_shareAt (hi : i < 2 * periods) : 0 ≤ shareAt periods i := by
  have hmost' : periods ≤ 2730 := hmost
  obtain ⟨hstart, -⟩ := period_start_near hpos hmost (k := i / 2) (by omega)
  have hperiod := (period_near hpos hmost).isFinite
  have hperiod0 := zero_le_period hpos hmost
  have hstart0 : 0 ≤ Binary64.ofNat (i / 2) * (1 / .ofNat periods) :=
    Binary64.zero_le_mul (Binary64.isFinite_ofNat (by omega)) hperiod (Binary64.zero_le_ofNat _)
      hperiod0
  rw [shareAt]
  split_ifs
  · exact hstart0
  · have hhalf0 : 0 ≤ 1 / Binary64.ofNat periods * .ofFraction 1 2 :=
      Binary64.zero_le_mul hperiod half_near.isFinite hperiod0 (Binary64.zero_le_ofQuotient _ _)
    exact Binary64.le_trans hstart0 (Binary64.le_add_self hstart hhalf0)

theorem place_shareAt_zero : (shareAt periods 0).place = some 0 := by
  have hperiod := (period_near hpos hmost).isFinite
  have hplace : (Binary64.ofNat 0).place = some 0 := by
    rw [Binary64.place_ofNat (by decide), Int.natCast_zero, Int.zero_mul]
  rw [shareAt, if_pos (Nat.zero_mod 2), Nat.zero_div,
    Binary64.mul_swap (Binary64.isFinite_ofNat (by decide)) hperiod,
    Binary64.place_mul_zero hperiod hplace]

theorem innerShare_shareAt (hi : i < 2 * periods) : InnerShare (shareAt periods i) := by
  obtain ⟨hfinite, herror⟩ := shareAt_near hpos hmost hi
  refine ⟨hfinite, zero_le_shareAt hpos hmost hi, ?_⟩
  obtain ⟨-, hhigh⟩ := exact_share_bounds hpos hmost hi
  rw [abs_le] at herror
  linarith

theorem shareAt_mono (hij : i < j) (hj : j < 2 * periods) :
    shareAt periods i ≤ shareAt periods j := by
  obtain ⟨hfinite, herror⟩ := shareAt_near hpos hmost (hij.trans hj)
  obtain ⟨hfinite', herror'⟩ := shareAt_near hpos hmost hj
  have hstep := exact_share_step hpos hmost hij
  rw [abs_le] at herror herror'
  rw [Binary64.le_iff_toRat_le hfinite hfinite']
  linarith

end

/-! ## The ends of the dashes -/

/-- One coordinate of the ends of all dashes: where the first begins and stops, then the next. -/
def ends (coordinate : Position → Binary64) (dashes : List Dash) : List Binary64 :=
  dashes.flatMap fun d => [coordinate d.start, coordinate d.stop]

theorem flatMap_pairs {α : Type} (f : Nat → α) (n : Nat) :
    ((List.range n).flatMap fun k => [f (2 * k), f (2 * k + 1)]) = (List.range (2 * n)).map f := by
  induction n with
  | zero => rfl
  | succ n ih =>
      rw [List.range_succ, List.flatMap_append, ih, List.flatMap_singleton, Nat.mul_succ,
        List.range_succ, List.range_succ, List.map_append, List.map_append, List.append_assoc]
      rfl

theorem ofLine_eq (start stop : Position) (periods : Nat) : ofLine start stop periods =
    (List.range periods).map fun k =>
      ⟨along start stop (shareAt periods (2 * k)), along start stop (shareAt periods (2 * k + 1))⟩ := by
  rw [ofLine]
  apply List.map_congr_left
  intro k _
  have heven : (2 * k) % 2 = 0 := Nat.mul_mod_right 2 k
  have hodd : ¬(2 * k + 1) % 2 = 0 := by omega
  rw [shareAt, shareAt, if_pos heven, if_neg hodd, show 2 * k / 2 = k by omega,
    show (2 * k + 1) / 2 = k by omega]

/-- Marks on the way from one number to another: none of them is off the way, none is behind the
one before, and each is near its place in an even division of the way. -/
structure Marks (first last : Binary64) (marks : List Binary64) : Prop where
  between : ∀ x ∈ marks, (first ≤ x ∧ x ≤ last) ∨ (last ≤ x ∧ x ≤ first)
  rising : first ≤ last → marks.Pairwise fun x y => x ≤ y
  falling : last ≤ first → marks.Pairwise fun x y => y ≤ x
  even : ∀ i (hi : i < marks.length),
    |marks[i].toRat - (first.toRat + (last.toRat - first.toRat) * (i / marks.length))| ≤
      max |first.toRat| |last.toRat| / 2 ^ 48 + 2 * halfUnit

section

variable {first last : Binary64} (hfinite : (last - first).isFinite) (hpos : 0 < periods)
  (hmost : periods ≤ mostPeriods)

include hfinite hpos hmost

theorem partway_shareAt_near (hi : i < 2 * periods) :
    |(partway first last (shareAt periods i)).toRat -
        (first.toRat + (last.toRat - first.toRat) * (i / (2 * periods)))| ≤
      max |first.toRat| |last.toRat| / 2 ^ 48 + 2 * halfUnit := by
  obtain ⟨-, hshare⟩ := shareAt_near hpos hmost hi
  have hnear := Binary64.partway_near hfinite (innerShare_shareAt hpos hmost hi)
    (le_max_left |first.toRat| |last.toRat|) (le_max_right |first.toRat| |last.toRat|)
  have hfirst := le_max_left |first.toRat| |last.toRat|
  have hlast := le_max_right |first.toRat| |last.toRat|
  generalize max |first.toRat| |last.toRat| = size at hnear hfirst hlast ⊢
  have hway : |last.toRat - first.toRat| ≤ 2 * size := by
    rw [abs_le] at hfirst hlast ⊢
    constructor <;> linarith
  have herror : |(last.toRat - first.toRat) * ((shareAt periods i).toRat - i / (2 * periods))| ≤
      2 * size * (1 / 2 ^ 50) := by
    rw [abs_mul]
    exact mul_le_mul hway hshare (abs_nonneg _) ((abs_nonneg _).trans hway)
  rw [mul_sub] at herror
  rw [abs_le] at hnear herror ⊢
  constructor <;> linarith

/-- The first mark is where the way begins. -/
theorem partway_shareAt_zero : (partway first last (shareAt periods 0)).coincides first := by
  have hshare := innerShare_shareAt hpos hmost (i := 0) (by omega)
  exact Binary64.coincides_of_place_eq
    (Binary64.ne_nan_of_isFinite (Binary64.isFinite_partway hfinite hshare))
    (Binary64.place_partway_zero hfinite (place_shareAt_zero hpos hmost))

omit hfinite in
theorem pairwise_partway {r : Binary64 → Binary64 → Prop}
    (hmono : ∀ {share share'}, InnerShare share → InnerShare share' → share ≤ share' →
      r (partway first last share) (partway first last share')) :
    ((List.range (2 * periods)).map fun i =>
      partway first last (shareAt periods i)).Pairwise r := by
  rw [List.pairwise_map]
  refine List.Pairwise.imp_of_mem ?_ List.pairwise_lt_range
  intro i j _ hj hij
  rw [List.mem_range] at hj
  exact hmono (innerShare_shareAt hpos hmost (hij.trans hj)) (innerShare_shareAt hpos hmost hj)
    (shareAt_mono hpos hmost hij hj)

theorem marks_partway : Marks first last
    ((List.range (2 * periods)).map fun i => partway first last (shareAt periods i)) where
  between := by
    intro x hx
    obtain ⟨i, hi, rfl⟩ := List.mem_map.mp hx
    have hshare := innerShare_shareAt hpos hmost (List.mem_range.mp hi)
    obtain ⟨hlast, hfirst⟩ := Binary64.isFinite_of_sub hfinite
    rcases Binary64.le_or_le (Binary64.ne_nan_of_isFinite hfirst)
      (Binary64.ne_nan_of_isFinite hlast) with hle | hle
    · exact .inl (Binary64.partway_up hfinite hshare hle)
    · exact .inr (Binary64.partway_down hfinite hshare hle)
  rising hle := pairwise_partway hpos hmost fun hshare hshare' hshares =>
    Binary64.partway_up_mono hfinite hshare hle hshare' hshares
  falling hle := pairwise_partway hpos hmost fun hshare hshare' hshares =>
    Binary64.partway_down_mono hfinite hshare hle hshare' hshares
  even := by
    intro i hi
    rw [List.length_map, List.length_range] at hi
    rw [List.getElem_map, List.getElem_range, List.length_map, List.length_range, Nat.cast_mul,
      Nat.cast_ofNat]
    exact partway_shareAt_near hfinite hpos hmost hi

end

theorem ends_ofLine {coordinate : Position → Binary64}
    (hcoordinate : ∀ share, coordinate (along start stop share) =
      partway (coordinate start) (coordinate stop) share) :
    ends coordinate (ofLine start stop periods) = (List.range (2 * periods)).map fun i =>
      partway (coordinate start) (coordinate stop) (shareAt periods i) := by
  rw [ofLine_eq, ends, List.flatMap_map]
  simp only [hcoordinate]
  exact flatMap_pairs (fun i => partway (coordinate start) (coordinate stop) (shareAt periods i)) _

theorem head?_ofLine (start stop : Position) (hpos : 0 < periods) :
    ∃ d ∈ (ofLine start stop periods).head?, d.start = along start stop (shareAt periods 0) := by
  rw [ofLine_eq, List.head?_map, List.head?_range, if_neg hpos.ne', Option.map_some]
  exact ⟨_, rfl, rfl⟩

/-- A line whose ends differ by finite coordinates, and that has no more periods than an image has
room for, has one dash for each period.  The first dash starts where the line does.  Along each
coordinate, the ends of the dashes one after the other are marks on the way from the start of the
line to its stop. -/
theorem ofLine_marks (start stop : Position) (periods : Nat) (hx : (stop.x - start.x).isFinite)
    (hy : (stop.y - start.y).isFinite) (hpos : 1 ≤ periods) (hmost : periods ≤ mostPeriods) :
    let dashes := ofLine start stop periods
    dashes.length = periods ∧
      (∃ d ∈ dashes.head?, d.start.x.coincides start.x ∧ d.start.y.coincides start.y) ∧
      Marks start.x stop.x (ends Position.x dashes) ∧
      Marks start.y stop.y (ends Position.y dashes) := by
  intro dashes
  refine ⟨?_, ?_, ?_, ?_⟩
  · rw [show dashes = _ from ofLine_eq start stop periods, List.length_map, List.length_range]
  · obtain ⟨d, hd, hstart⟩ := head?_ofLine start stop hpos
    refine ⟨d, hd, ?_, ?_⟩
    · rw [hstart]
      exact partway_shareAt_zero hx hpos hmost
    · rw [hstart]
      exact partway_shareAt_zero hy hpos hmost
  · rw [ends_ofLine fun _ => rfl]
    exact marks_partway hx hpos hmost
  · rw [ends_ofLine fun _ => rfl]
    exact marks_partway hy hpos hmost

/-- The ends of a line down a plot, as long as such a line can be. -/
def top : Position := ⟨0, Axis.endLimit⟩

def bottom : Position := ⟨0, -Axis.endLimit⟩

theorem ofLine_marks_top_bottom :
    (bottom.x - top.x).isFinite ∧ (bottom.y - top.y).isFinite ∧ 1 ≤ 2730 ∧ 2730 ≤ mostPeriods ∧
      (ofLine top bottom 2730).length = 2730 ∧
      (∃ d ∈ (ofLine top bottom 2730).head?,
        d.start.x.coincides top.x ∧ d.start.y.coincides top.y) ∧
      Marks top.x bottom.x (ends Position.x (ofLine top bottom 2730)) ∧
      Marks top.y bottom.y (ends Position.y (ofLine top bottom 2730)) := by
  have hzero : 0 ≤ Axis.endLimit :=
    Binary64.le_trans Axis.zero_le_leastShare Axis.leastShare_le_endLimit
  have hzero' := Binary64.neg_le_zero hzero
  have hlimit := Binary64.le_self Axis.endLimit_ne_nan
  have hlimit' := Binary64.neg_le_neg hlimit
  have hx : (bottom.x - top.x).isFinite := Axis.isFinite_sub hzero' hzero hzero' hzero
  have hy : (bottom.y - top.y).isFinite :=
    Axis.isFinite_sub Axis.neg_endLimit_le_endLimit hlimit hlimit' Axis.neg_endLimit_le_endLimit
  have hmost : 2730 ≤ mostPeriods := by decide
  exact ⟨hx, hy, by decide, hmost, ofLine_marks top bottom 2730 hx hy (by decide) hmost⟩

end Dash

end RewardPlot
