import RewardPlot.Proofs.Binary64.Monotone
import RewardPlot.Proofs.Chart
import RewardPlot.Proofs.Trace.Layout
import RewardPlot.Proofs.Trace.Segments
/-!
# Drawn points lie inside the axes

The positions of a chart are counted from zero and its values lie between its bounds.  The
room beside the bounds is not negative, and rounding does not cut off the number that it
started from.
-/

namespace RewardPlot

open Binary64 (isFinite_abs isFinite_zero ne_nan_of_isFinite ne_nan_of_le)

namespace Axis

/-- Both ends belong to an axis. -/
def Contains (axis : Axis) (x : Binary64) : Prop := axis.start ≤ x ∧ x ≤ axis.stop

theorem contains_ofLength {n i : Nat} (hi : i < n) : (ofLength n).Contains (.ofNat i) := by
  rw [Contains, ofLength]
  dsimp only
  exact ⟨Binary64.zero_le_ofNat i, Binary64.ofNat_mono (by omega)⟩

theorem zero_le_leastShare : 0 ≤ leastShare := by
  rw [leastShare, Binary64.ofFraction]
  exact Binary64.zero_le_ofQuotient _ _

theorem leastShare_le_endLimit : leastShare ≤ endLimit := by decide +kernel

theorem neg_endLimit_le_endLimit : -endLimit ≤ endLimit := by
  have hpositive : 0 ≤ endLimit := Binary64.le_trans zero_le_leastShare leastShare_le_endLimit
  exact Binary64.le_trans (Binary64.neg_le_zero hpositive) hpositive

theorem isFinite_leastShare : leastShare.isFinite :=
  Binary64.isFinite_of_le isFinite_zero isFinite_endLimit zero_le_leastShare
    leastShare_le_endLimit

theorem isFinite_clamp {x : Binary64} (hx : x ≠ .nan) :
    (x.clamp (-endLimit) endLimit).isFinite := by
  obtain ⟨hlow, hhigh⟩ := Binary64.clamp_between hx neg_endLimit_le_endLimit
  exact Binary64.isFinite_of_le isFinite_neg_endLimit isFinite_endLimit hlow hhigh

theorem zero_le_room {low high : Binary64} (hlow : low.isFinite) (hhigh : high.isFinite) :
    0 ≤ room low high := by
  unfold room
  split
  · have hone : (1 : Binary64) ≠ .nan := Binary64.ofNat_ne_nan 1
    exact Binary64.le_trans (Binary64.zero_le_ofNat 1) (Binary64.le_max_right hone)
  · have hsize : 0 ≤ low.abs.max high.abs :=
      Binary64.le_trans (Binary64.zero_le_abs (ne_nan_of_isFinite hhigh))
        (Binary64.le_max_right (ne_nan_of_isFinite (isFinite_abs hhigh)))
    have hfinite := Binary64.isFinite_max (isFinite_abs hlow) (isFinite_abs hhigh)
    have hshare : 0 ≤ (low.abs.max high.abs) * leastShare :=
      Binary64.zero_le_mul hfinite isFinite_leastShare hsize zero_le_leastShare
    exact Binary64.le_trans hshare (Binary64.le_max_right (ne_nan_of_le hshare).2)

/-- A value between the bounds lies on their axis, if it is not beyond the limit of axes. -/
theorem contains_ofBounds {b : Bounds} {x : Binary64} (hlow : b.low ≤ x) (hhigh : x ≤ b.high)
    (hx : x.abs ≤ endLimit) : (ofBounds (some b)).Contains x := by
  obtain ⟨hx, hx'⟩ := Binary64.between_of_abs_le hx
  have hfinite := isFinite_clamp (ne_nan_of_le hlow).1
  have hfinite' := isFinite_clamp (ne_nan_of_le hhigh).2
  have hroom := zero_le_room hfinite hfinite'
  constructor
  · apply Binary64.max_le _ hx
    exact Binary64.le_trans (Binary64.sub_le_self hfinite hroom) (Binary64.clamp_le hlow hx)
  · apply Binary64.le_min _ hx'
    exact Binary64.le_trans (Binary64.le_clamp hhigh hx') (Binary64.le_add_self hfinite' hroom)

end Axis

namespace Chart

theorem length_le_maxLength {c : Chart} {s : Series} (hs : s ∈ c.series) :
    s.trace.length ≤ c.maxLength :=
  Trace.le_foldl_max (List.mem_map_of_mem hs)

/-- The bounds of a chart reach around each finite value of its series. -/
theorem exists_bounds_of_mem_drawable {c : Chart} {s : Series} (hs : s ∈ c.series)
    {v : Binary64} (hv : v ∈ s.trace.drawable) :
    ∃ b, c.bounds? = some b ∧ b.low ≤ v ∧ v ≤ b.high := by
  obtain ⟨own, hown⟩ : ∃ own, s.trace.bounds? = some own := by
    unfold Trace.bounds?
    cases hdrawable : s.trace.drawable with
    | nil =>
        rw [hdrawable] at hv
        cases hv
    | cons w ws => exact ⟨_, rfl⟩
  have hmem : own ∈ c.series.filterMap (·.trace.bounds?) :=
    List.mem_filterMap.mpr ⟨s, hs, hown⟩
  obtain ⟨b, hb⟩ : ∃ b, c.bounds? = some b := by
    apply Option.ne_none_iff_exists'.mp
    intro hnone
    rw [bounds?_eq_none_iff.mp hnone] at hmem
    cases hmem
  have hpoint : Trace.point v ∈ s.trace.drawable.map Trace.point := List.mem_map_of_mem hv
  have hspans := Trace.bounds?_spans hown
  have hspans' := bounds?_spans hb
  exact ⟨b, hb, Binary64.le_trans (hspans'.low_le own hmem) (hspans.low_le _ hpoint),
    Binary64.le_trans (hspans.le_high _ hpoint) (hspans'.le_high own hmem)⟩

theorem mem_drawable_of_mem_points {t : Trace} {p : Trace.Point} (hp : p ∈ t.points) :
    p.2 ∈ t.drawable := by
  obtain ⟨hvalue, hfinite⟩ := Trace.mem_points_iff.mp hp
  refine List.mem_filter.mpr ⟨?_, hfinite⟩
  exact List.mem_filterMap.mpr ⟨some p.2, List.mem_of_getElem? hvalue, rfl⟩

/-- Every point of a drawn run lies on the horizontal axis by its position and, if its value
is not beyond the limit of axes, on the vertical axis by its value. -/
theorem points_inside_axes (c : Chart) :
    ∀ s ∈ c.series, ∀ run ∈ s.trace.segments, ∀ p ∈ run,
      c.xAxis.Contains (.ofNat p.1) ∧ (p.2.abs ≤ Axis.endLimit → c.yAxis.Contains p.2) := by
  intro s hs run hrun p hp
  have hpoint := Trace.mem_points_of_mem_segments hrun hp
  constructor
  · obtain ⟨hvalue, -⟩ := Trace.mem_points_iff.mp hpoint
    have hlength : p.1 < s.trace.length := (List.getElem?_eq_some_iff.mp hvalue).1
    exact Axis.contains_ofLength (Nat.lt_of_lt_of_le hlength (length_le_maxLength hs))
  · intro hsize
    obtain ⟨b, hb, hlow, hhigh⟩ :=
      exists_bounds_of_mem_drawable hs (mem_drawable_of_mem_points hpoint)
    rw [yAxis, hb]
    exact Axis.contains_ofBounds hlow hhigh hsize

/-- The largest number, a gap, the limit of axes beside the smallest number, and an infinity. -/
def wideSeries : Series :=
  ⟨"wide.log", ⟨[some .largest, none, some Axis.endLimit, some (.ofUnits (-1)),
    some (.infinite true)]⟩⟩

def wideChart : Chart := ((empty {}).add wideSeries).add ⟨"flat.log", ⟨[some .nan, some 2]⟩⟩

theorem wideSeries_points_inside_axes :
    wideSeries ∈ wideChart.series ∧
      [(2, Axis.endLimit), (3, Binary64.ofUnits (-1))] ∈ wideSeries.trace.segments ∧
      Axis.endLimit.abs ≤ Axis.endLimit ∧
      wideChart.xAxis.Contains (.ofNat 2) ∧ wideChart.yAxis.Contains Axis.endLimit := by
  have hs : wideSeries ∈ wideChart.series := by decide +kernel
  have hrun : [(2, Axis.endLimit), (3, Binary64.ofUnits (-1))] ∈ wideSeries.trace.segments := by
    decide +kernel
  have hsize : Axis.endLimit.abs ≤ Axis.endLimit := by decide +kernel
  obtain ⟨hx, hy⟩ := points_inside_axes wideChart wideSeries hs _ hrun _ List.mem_cons_self
  exact ⟨hs, hrun, hsize, hx, hy hsize⟩

end Chart

end RewardPlot
