import RewardPlot.Proofs.Axis.Inside
import RewardPlot.Proofs.Binary64.Error
/-!
# The span of an axis

The room beside some values is either a part of their span or a part of their size, and at least
one where the values are all the same.  So the ends of their axis lie apart, by so much that the
difference is seen beside the values, and not farther than a number can tell.
-/

namespace RewardPlot.Axis

open Binary64 (IsShare isShare_ofFraction le_mul_share isFinite_abs ne_nan_of_isFinite)

/-- An axis between two different numbers within the limit, whose distance is a number too. -/
structure Proper (axis : Axis) : Prop where
  start_isFinite : axis.start.isFinite
  stop_isFinite : axis.stop.isFinite
  limit_le_start : -endLimit ≤ axis.start
  start_lt_stop : axis.start < axis.stop
  stop_le_limit : axis.stop ≤ endLimit
  span_isFinite : (axis.stop - axis.start).isFinite

variable {low high : Binary64} {a b p : Int}

/-! ## The room beside the values -/

theorem isShare_roomShare : IsShare roomShare 20 := by
  rw [roomShare]
  exact isShare_ofFraction (by decide) (by decide) (by decide) rfl

theorem isShare_leastShare : IsShare leastShare 1000000 := by
  rw [leastShare]
  exact isShare_ofFraction (by decide) (by decide) (by decide) rfl

theorem place_ofNat_one : ∃ u : Int, (1 : Binary64).place = some u ∧ 0 < u := by
  obtain ⟨m, hm, hunits⟩ := Binary64.ofNat_exact (n := 1) (by decide)
  have hone := Magnitude.one_pos
  refine ⟨m.units, ?_, by omega⟩
  exact congrArg Binary64.place hm

/-- The values and the room on one side are together no small part of the largest value. -/
theorem size_le_room (hlow : low.isFinite) (hhigh : high.isFinite) (ha : low.place = some a)
    (hb : high.place = some b) (hab : a ≤ b) (hp : (room low high).place = some p) :
    0 ≤ p ∧ 0 < b - a + p ∧ 99 * a.natAbs ≤ 10 ^ 8 * (b - a + p) ∧
      99 * b.natAbs ≤ 10 ^ 8 * (b - a + p) := by
  have habs : low.abs.place = some (a.natAbs : Int) := by
    rw [Binary64.place_abs, ha, Option.map_some]
  have habs' : high.abs.place = some (b.natAbs : Int) := by
    rw [Binary64.place_abs, hb, Option.map_some]
  obtain ⟨z, p', hz, hp', hpos⟩ := Binary64.le_iff.mp (zero_le_room hlow hhigh)
  cases Binary64.place_ofNat_zero.symm.trans hz
  cases hp.symm.trans hp'
  unfold room at hp
  split at hp
  -- The values are all the same: the room is at least one, and a twentieth of their size.
  · next hsame =>
    obtain ⟨c, hc, hc'⟩ := Binary64.coincides_iff.mp hsame
    cases ha.symm.trans hc
    cases hb.symm.trans hc'
    obtain ⟨q, hq, hle⟩ := le_mul_share isShare_roomShare (by decide) (isFinite_abs hlow) habs
      (Int.natCast_nonneg _)
    obtain ⟨u, hu, hone⟩ := place_ofNat_one
    have hmax := Option.some.inj (hp.symm.trans (Binary64.place_max hq hu))
    omega
  -- They differ by a unit at least, and a millionth of the larger size is left free.
  · next hdiffer =>
    have hne : a ≠ b := by
      rintro rfl
      exact hdiffer (Binary64.coincides_iff.mpr ⟨a, ha, hb⟩)
    obtain ⟨q, hq, hle⟩ := le_mul_share isShare_leastShare (by decide)
      (Binary64.isFinite_max (isFinite_abs hlow) (isFinite_abs hhigh))
      (Binary64.place_max habs habs') (by omega)
    have hknown : low.abs.max high.abs * leastShare ≠ .nan := by
      intro hnan
      rw [hnan] at hq
      cases hq
    obtain ⟨q', p', hq', hp', hroom⟩ := Binary64.le_iff.mp (Binary64.le_max_right hknown)
    cases hq.symm.trans hq'
    cases hp.symm.trans hp'
    omega

/-- What is cut off at the limit or lost in rounding is little beside the span. -/
theorem size_le_span {s e limit w : Int} (hw : w = b - a + p) (hp : 0 ≤ p) (hpos : 0 < w)
    (ha : 99 * a.natAbs ≤ 10 ^ 8 * w) (hb : 99 * b.natAbs ≤ 10 ^ 8 * w) (hab : a ≤ b)
    (hlow : -limit ≤ a) (hhigh : b ≤ limit) (hlimit : 0 < limit) (hs : s ≤ a) (he : b ≤ e)
    (hs' : s = -limit ∨ 2 ^ 53 * (s - (a - p)).natAbs ≤ (a - p).natAbs)
    (he' : e = limit ∨ 2 ^ 53 * (e - (b + p)).natAbs ≤ (b + p).natAbs) :
    s < e ∧ 98 * a.natAbs ≤ 10 ^ 8 * (e - s) ∧ 98 * b.natAbs ≤ 10 ^ 8 * (e - s) := by
  omega

/-! ## The limit of axes -/

theorem place_endLimit : ∃ limit : Int, endLimit.place = some limit ∧ 0 < limit ∧
    4 * limit ≤ Magnitude.limit := by
  have hbounds : (endLimit.place.map fun limit : Int =>
      decide (0 < limit ∧ 4 * limit ≤ Magnitude.limit)) = some true := by decide +kernel
  obtain ⟨limit, hplace, hlimit⟩ := Option.map_eq_some_iff.mp hbounds
  exact ⟨limit, hplace, of_decide_eq_true hlimit⟩

/-- The lower end is the limit, or else a rounded difference. -/
theorem start_cases {pad : Binary64} {limit s : Int} (ha : low.place = some a)
    (hp : pad.place = some p) (hlimit : endLimit.place = some limit)
    (hs : ((low - pad).max (-endLimit)).place = some s)
    (hfinite : ((low - pad).max (-endLimit)).isFinite) :
    s = -limit ∨ 2 ^ 53 * (s - (a - p)).natAbs ≤ (a - p).natAbs := by
  have hneg : (-endLimit).place = some (-limit) := by
    rw [Binary64.place_neg, hlimit, Option.map_some]
  unfold Binary64.max at hs hfinite
  split_ifs at hs hfinite with hnan hless
  · exact .inl (Option.some.inj (hs.symm.trans hneg))
  · exact .inl (Option.some.inj (hs.symm.trans hneg))
  · right
    obtain ⟨r, hr, hnear⟩ := Binary64.near_of_sub hfinite ha hp
    cases hs.symm.trans hr
    exact hnear

theorem stop_cases {pad : Binary64} {limit e : Int} (hb : high.place = some b)
    (hp : pad.place = some p) (hlimit : endLimit.place = some limit)
    (he : ((high + pad).min endLimit).place = some e)
    (hfinite : ((high + pad).min endLimit).isFinite) :
    e = limit ∨ 2 ^ 53 * (e - (b + p)).natAbs ≤ (b + p).natAbs := by
  unfold Binary64.min at he hfinite
  split_ifs at he hfinite with hnan hless
  · exact .inl (Option.some.inj (he.symm.trans hlimit))
  · exact .inl (Option.some.inj (he.symm.trans hlimit))
  · right
    obtain ⟨r, hr, hnear⟩ := Binary64.near_of_add hfinite hb hp
    cases he.symm.trans hr
    exact hnear

/-! ## The axis of some bounds -/

/-- What is said of the axis of two values that lie within the limit. -/
theorem span_of_room {axis : Axis} (hlow : -endLimit ≤ low) (hle : low ≤ high)
    (hhigh : high ≤ endLimit) (haxis : axis =
      ⟨(low - room low high).max (-endLimit), (high + room low high).min endLimit⟩) :
    axis.Proper ∧ axis.start ≤ low ∧ high ≤ axis.stop ∧
      ∃ a b s e : Int, low.place = some a ∧ high.place = some b ∧ axis.start.place = some s ∧
        axis.stop.place = some e ∧ 98 * a.natAbs ≤ 10 ^ 8 * (e - s) ∧
        98 * b.natAbs ≤ 10 ^ 8 * (e - s) := by
  subst haxis
  have hlow' : low.isFinite := Binary64.isFinite_of_le isFinite_neg_endLimit isFinite_endLimit hlow
    (Binary64.le_trans hle hhigh)
  have hhigh' : high.isFinite := Binary64.isFinite_of_le isFinite_neg_endLimit isFinite_endLimit
    (Binary64.le_trans hlow hle) hhigh
  have hroom := zero_le_room hlow' hhigh'
  have hstart := Binary64.max_le (Binary64.sub_le_self hlow' hroom) hlow
  have hstop := Binary64.le_min (Binary64.le_add_self hhigh' hroom) hhigh
  have hlimit := Binary64.le_max_right (x := low - room low high) neg_endLimit_ne_nan
  have hlimit' := Binary64.min_le_right (x := high + room low high) endLimit_ne_nan
  have hfinite := Binary64.isFinite_of_le isFinite_neg_endLimit hlow' hlimit hstart
  have hfinite' := Binary64.isFinite_of_le hhigh' isFinite_endLimit hstop hlimit'
  obtain ⟨a, b, ha, hb, hab⟩ := Binary64.le_iff.mp hle
  obtain ⟨z, p, -, hp, -⟩ := Binary64.le_iff.mp hroom
  obtain ⟨s, hs, -⟩ := Binary64.exists_place_of_isFinite hfinite
  obtain ⟨e, he, -⟩ := Binary64.exists_place_of_isFinite hfinite'
  obtain ⟨limit, hend, hpositive, hquarter⟩ := place_endLimit
  have hneg : (-endLimit).place = some (-limit) := by
    rw [Binary64.place_neg, hend, Option.map_some]
  have hbottom := Binary64.place_le hlimit hneg hs
  have htop := Binary64.place_le hlimit' he hend
  obtain ⟨hp0, hsum, hsize, hsize'⟩ := size_le_room hlow' hhigh' ha hb hab hp
  obtain ⟨hlt, hspan, hspan'⟩ := size_le_span rfl hp0 hsum hsize hsize' hab
    (Binary64.place_le hlow hneg ha) (Binary64.place_le hhigh hb hend) hpositive
    (Binary64.place_le hstart hs ha) (Binary64.place_le hstop hb he)
    (start_cases ha hp hend hs hfinite) (stop_cases hb hp hend he hfinite')
  refine ⟨⟨hfinite, hfinite', hlimit, Binary64.lt_iff.mpr ⟨s, e, hs, he, hlt⟩, hlimit', ?_⟩,
    hstart, hstop, a, b, s, e, ha, hb, hs, he, hspan, hspan'⟩
  rw [Binary64.isFinite_congr (Binary64.place_sub hfinite' hfinite he hs)]
  exact Binary64.isFinite_ofUnits (by omega)

theorem size_toRat_le {x : Binary64} {d : Int} (hx : x.isFinite) (ha : x.place = some a)
    (hsize : 90 * a.natAbs ≤ 10 ^ 8 * d) : 9 / 10 ^ 7 * |x.toRat| ≤ d / Magnitude.one := by
  have hone : (0 : ℚ) < Magnitude.one := Nat.cast_pos.mpr Magnitude.one_pos
  rw [Binary64.toRat_eq hx ha, abs_div, Nat.abs_cast, ← mul_div_assoc,
    div_le_div_iff_of_pos_right hone]
  have hcast : ((90 * a.natAbs : Int) : ℚ) ≤ ((10 ^ 8 * d : Int) : ℚ) := Int.cast_le.mpr hsize
  push_cast at hcast
  linarith

/-- The axis of finite values has different ends within the limit and a span that is a number.
It reaches around the values, as far as they lie within the limit, and its span is no less than
nine parts in ten million of the largest of them. -/
theorem span_ofBounds {bounds : Bounds} (hlow : bounds.low.isFinite)
    (hhigh : bounds.high.isFinite) (hle : bounds.low ≤ bounds.high) :
    let low := bounds.low.clamp (-endLimit) endLimit
    let high := bounds.high.clamp (-endLimit) endLimit
    let axis := ofBounds (some bounds)
    axis.Proper ∧ axis.start ≤ low ∧ high ≤ axis.stop ∧
      9 / 10 ^ 7 * max |low.toRat| |high.toRat| ≤ axis.stop.toRat - axis.start.toRat ∧
      9 / 10 ^ 7 * max |low.toRat| |high.toRat| ≤ (axis.stop - axis.start).toRat := by
  intro low high axis
  have hlow' : low.isFinite := isFinite_clamp (ne_nan_of_isFinite hlow)
  have hhigh' : high.isFinite := isFinite_clamp (ne_nan_of_isFinite hhigh)
  have hlimit : -endLimit ≤ low :=
    (Binary64.clamp_between (ne_nan_of_isFinite hlow) neg_endLimit_le_endLimit).1
  have hlimit' : high ≤ endLimit :=
    (Binary64.clamp_between (ne_nan_of_isFinite hhigh) neg_endLimit_le_endLimit).2
  have hle' : low ≤ high := Binary64.clamp_mono hle neg_endLimit_le_endLimit
  have haxis : axis =
      ⟨(low - room low high).max (-endLimit), (high + room low high).min endLimit⟩ := rfl
  obtain ⟨hproper, hstart, hstop, a, b, s, e, ha, hb, hs, he, hsize, hsize'⟩ :=
    span_of_room hlimit hle' hlimit' haxis
  obtain ⟨d, hd, hnear⟩ := Binary64.near_of_sub hproper.span_isFinite he hs
  have hspan : axis.stop.toRat - axis.start.toRat = (e - s : Int) / Magnitude.one := by
    rw [Binary64.toRat_eq hproper.stop_isFinite he, Binary64.toRat_eq hproper.start_isFinite hs,
      ← sub_div, Int.cast_sub]
  refine ⟨hproper, hstart, hstop, ?_, ?_⟩
  · rw [mul_max_of_nonneg _ _ (by norm_num), hspan]
    exact max_le (size_toRat_le hlow' ha (by omega)) (size_toRat_le hhigh' hb (by omega))
  · rw [mul_max_of_nonneg _ _ (by norm_num), Binary64.toRat_eq hproper.span_isFinite hd]
    exact max_le (size_toRat_le hlow' ha (by omega)) (size_toRat_le hhigh' hb (by omega))

/-- Values that are all beyond the limit. -/
def largestOnly : Bounds := ⟨.largest, .largest⟩

theorem span_of_largestOnly :
    largestOnly.low.isFinite ∧ largestOnly.low ≤ largestOnly.high ∧
      (ofBounds (some largestOnly)).Proper ∧
      (ofBounds (some largestOnly)).start ≤ largestOnly.low.clamp (-endLimit) endLimit ∧
      9 / 10 ^ 7 * |(largestOnly.high.clamp (-endLimit) endLimit).toRat| ≤
        ((ofBounds (some largestOnly)).stop - (ofBounds (some largestOnly)).start).toRat := by
  have hfinite : largestOnly.low.isFinite := by decide +kernel
  have hle : largestOnly.low ≤ largestOnly.high := Binary64.le_self (ne_nan_of_isFinite hfinite)
  obtain ⟨hproper, hstart, -, -, hspan⟩ := span_ofBounds hfinite hfinite hle
  refine ⟨hfinite, hle, hproper, hstart, le_trans ?_ hspan⟩
  exact mul_le_mul_of_nonneg_left (le_max_right _ _) (by norm_num)

end RewardPlot.Axis
