import RewardPlot.Proofs.Axis.Dashes
import RewardPlot.Proofs.Axis.Termination
import RewardPlot.Proofs.Image
import RewardPlot.Proofs.Run.Course
/-!
# The drawings of charts

Every chart has a drawing, since the loops that look for the key points of its axes end.  It has
a curve for each series.  The size of an image leaves room for at least one period on each line
of the minor grid, and for no more than the dashes of the line can tell apart.
-/

namespace RewardPlot

namespace Curve

/-- The lines of a series go through all its points, in order. -/
theorem flatten_lines_ofSeries (s : Series) :
    (ofSeries s).lines.flatten = s.trace.points.map fun p => ⟨.ofNat p.1, p.2⟩ := by
  rw [← Trace.flatten_segments, ofSeries]
  dsimp only
  cases s.trace.segments with
  | nil => rfl
  | cons run runs => rw [List.map_flatten]

/-- A series has a line even where it has no points. -/
theorem lines_ofSeries_ne_nil (s : Series) : (ofSeries s).lines ≠ [] := by
  rw [ofSeries]
  cases s.trace.segments <;> simp

end Curve

namespace GridLine

theorem periodsIn_bounds {length : UInt32} (hlength : length ≤ Chart.mostPixels) :
    1 ≤ periodsIn length ∧ periodsIn length ≤ Dash.mostPeriods := by
  have hmost : length.toNat ≤ 16384 := hlength
  have hperiods : periodsIn length = max (length.toNat / 6) 1 := by
    rw [periodsIn, UInt32.toNat_div]
    rfl
  have hroom : Dash.mostPeriods = 2730 := by decide
  omega

/-- Where the ends of a line are not too far apart, its dashes are marks on the way. -/
theorem marks_dashes {l : GridLine} (hx : (l.stop.x - l.start.x).isFinite)
    (hy : (l.stop.y - l.start.y).isFinite) (hpos : 1 ≤ l.periods)
    (hmost : l.periods ≤ Dash.mostPeriods) :
    l.dashes.length = l.periods ∧
      Dash.Marks l.start.x l.stop.x (Dash.ends Position.x l.dashes) ∧
      Dash.Marks l.start.y l.stop.y (Dash.ends Position.y l.dashes) := by
  refine ⟨by rw [dashes, Dash.ofLine, List.length_map, List.length_range], ?_, ?_⟩
  · rw [dashes, Dash.ends_ofLine fun _ => rfl]
    exact Dash.marks_partway hx hpos hmost
  · rw [dashes, Dash.ends_ofLine fun _ => rfl]
    exact Dash.marks_partway hy hpos hmost

end GridLine

namespace Axis

/-- The ends of a readable axis are not too far apart. -/
theorem Readable.isFinite_sub {axis : Axis} (h : axis.Readable) :
    (axis.stop - axis.start).isFinite := by
  have hceiling := Binary64.two_pow_100_le_ceiling
  have hstart := h.start_le
  have hstop := h.stop_le
  refine (Binary64.near_sub h.stop_isFinite h.start_isFinite ?_).isFinite
  rw [abs_le] at hstart hstop ⊢
  constructor <;> linarith

end Axis

namespace Binary64

theorem isFinite_sub_self {x : Binary64} (hx : x.isFinite) : (x - x).isFinite := by
  have hceiling := two_pow_100_le_ceiling
  refine (near_sub hx hx ?_).isFinite
  rw [sub_self, abs_zero]
  linarith

end Binary64

namespace Chart

variable {c : Chart} (hlength : c.maxLength < 2 ^ 64)

include hlength

theorem readable_axes : c.xAxis.Readable ∧ c.yAxis.Readable :=
  ⟨Axis.readable_ofLength hlength, readable_yAxis c⟩

/-- The drawing of a chart and what it is made of. -/
theorem exists_drawing : ∃ xMajors yMajors xMinors yMinors,
    c.drawing? = some (c.drawingOn xMajors yMajors xMinors yMinors) ∧
    c.xAxis.keyPoints? = some xMajors ∧ c.yAxis.keyPoints? = some yMajors ∧
    c.xAxis.minorPoints? c.settings.minorTicks = some xMinors ∧
    c.yAxis.minorPoints? c.settings.minorTicks = some yMinors := by
  obtain ⟨hx, hy⟩ := readable_axes hlength
  obtain ⟨xMajors, hxMajors, -⟩ := hx.keyPoints?_ends
  obtain ⟨yMajors, hyMajors, -⟩ := hy.keyPoints?_ends
  obtain ⟨xMinors, hxMinors⟩ := Axis.minorPoints?_ends c.settings.minorTicks hxMajors
  obtain ⟨yMinors, hyMinors⟩ := Axis.minorPoints?_ends c.settings.minorTicks hyMajors
  refine ⟨xMajors, yMajors, xMinors, yMinors, ?_, hxMajors, hyMajors, hxMinors, hyMinors⟩
  rw [drawing?, hxMajors, hyMajors, hxMinors, hyMinors]
  rfl

omit hlength in
theorem drawing?_eq_some {d : Drawing} (hdrawing : c.drawing? = some d) :
    ∃ xMajors yMajors xMinors yMinors, d = c.drawingOn xMajors yMajors xMinors yMinors := by
  simp only [drawing?, Option.bind_eq_bind, Option.bind_eq_some_iff, Option.pure_def,
    Option.some.injEq] at hdrawing
  obtain ⟨xMajors, -, yMajors, -, xMinors, -, yMinors, -, rfl⟩ := hdrawing
  exact ⟨xMajors, yMajors, xMinors, yMinors, rfl⟩

/-- The lines of the minor grid that stand at finite positions are drawn with as many dashes as
the image has room for, and the dashes do not leave their line. -/
theorem marks_of_minorLines (hsize : c.settings.sizeFits) {d : Drawing}
    (hdrawing : c.drawing? = some d) {l : GridLine} (hl : l ∈ d.minorLines)
    (hx : l.start.x.isFinite) (hy : l.start.y.isFinite) :
    1 ≤ l.periods ∧ l.periods ≤ Dash.mostPeriods ∧ l.dashes.length = l.periods ∧
      Dash.Marks l.start.x l.stop.x (Dash.ends Position.x l.dashes) ∧
      Dash.Marks l.start.y l.stop.y (Dash.ends Position.y l.dashes) := by
  obtain ⟨⟨-, hwidth⟩, -, hheight⟩ := Output.sizeFits_iff.mp hsize
  obtain ⟨hxAxis, hyAxis⟩ := readable_axes hlength
  obtain ⟨xMajors, yMajors, xMinors, yMinors, rfl⟩ := drawing?_eq_some hdrawing
  rcases List.mem_append.mp hl with hl | hl
  · obtain ⟨x, -, rfl⟩ := List.mem_map.mp hl
    obtain ⟨hpos, hmost⟩ := GridLine.periodsIn_bounds hheight
    refine ⟨hpos, hmost, GridLine.marks_dashes ?_ ?_ hpos hmost⟩
    · dsimp only [GridLine.upright] at hx ⊢
      exact Binary64.isFinite_sub_self hx
    · dsimp only [GridLine.upright]
      exact hyAxis.isFinite_sub
  · obtain ⟨y, -, rfl⟩ := List.mem_map.mp hl
    obtain ⟨hpos, hmost⟩ := GridLine.periodsIn_bounds hwidth
    refine ⟨hpos, hmost, GridLine.marks_dashes ?_ ?_ hpos hmost⟩
    · dsimp only [GridLine.level]
      exact hxAxis.isFinite_sub
    · dsimp only [GridLine.level] at hy ⊢
      exact Binary64.isFinite_sub_self hy

end Chart

namespace Request

/-- A run that succeeds has drawn its chart: with the title that was asked for, and with a curve
for each label that it reports. -/
theorem drawing_after_run {r : Request} {time : String} {t later : FileTree} {report : Report}
    (hrun : r.run time t = (.ok report, later)) {c : Collection}
    (hcollect : collectDirectory t r.directory r.settings = .ok c)
    (hlength : c.chart.maxLength < 2 ^ 64) :
    ∃ d, report.drawing = some d ∧ c.chart.drawing? = some d ∧ c.chart.settings.sizeFits ∧
      d.caption = r.settings.title ∧ d.curves.map Curve.label = report.labels := by
  obtain ⟨c', drawn, hcollect', himage, -, rfl⟩ := run_eq_ok_iff.mp hrun
  cases hcollect.symm.trans hcollect'
  obtain ⟨xMajors, yMajors, xMinors, yMinors, hdrawing, -⟩ := Chart.exists_drawing hlength
  refine ⟨_, hdrawing, hdrawing, Output.sizeFits_of_storeImage himage, ?_, ?_⟩
  · rw [Chart.drawingOn, collectDirectory_settings hcollect]
  · rw [Chart.drawingOn, List.map_map, report, Chart.labels]
    rfl

end Request

end RewardPlot
