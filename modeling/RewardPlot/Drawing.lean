import RewardPlot.Axis.Dashes
import RewardPlot.Chart
/-!
# Drawings

What an image shows of a chart, as far as it is computed from the chart: the axes with their
key points, the dashed lines of the minor grid and the lines of the series.
-/

namespace RewardPlot

/-- A dashed line across the chart. -/
structure GridLine where
  start : Position
  stop : Position
  periods : Nat
deriving DecidableEq

/-- A series as it is drawn, with a line for each run of its values. -/
structure Curve where
  label : String
  lines : List (List Position)
deriving DecidableEq

structure Drawing where
  caption : String
  xAxis : Axis
  yAxis : Axis
  xMajors : List Binary64
  yMajors : List Binary64
  minorLines : List GridLine
  curves : List Curve
deriving DecidableEq

namespace GridLine

def dashes (l : GridLine) : List Dash := Dash.ofLine l.start l.stop l.periods

/-- The length of a period in pixels. -/
def periodPixels : UInt32 := 6

/-- The periods of a line that is so many pixels long. -/
def periodsIn (length : UInt32) : Nat := max (length / periodPixels).toNat 1

/-- The line across the vertical axis at a position of the horizontal one. -/
def upright (axis : Axis) (length : UInt32) (x : Binary64) : GridLine :=
  ⟨⟨x, axis.start⟩, ⟨x, axis.stop⟩, periodsIn length⟩

/-- The line across the horizontal axis at a position of the vertical one. -/
def level (axis : Axis) (length : UInt32) (y : Binary64) : GridLine :=
  ⟨⟨axis.start, y⟩, ⟨axis.stop, y⟩, periodsIn length⟩

end GridLine

/-- The lines of a series.  One without values that can be drawn has a line without points,
which gives it its place in the legend. -/
def Curve.ofSeries (s : Series) : Curve :=
  let runs := match s.trace.segments with
    | [] => [[]]
    | runs => runs
  ⟨s.label, runs.map fun run => run.map fun (i, v) => ⟨.ofNat i, v⟩⟩

namespace Chart

/-- The drawing of a chart with some key points and minor positions on its axes. -/
def drawingOn (c : Chart) (xMajors yMajors xMinors yMinors : List Binary64) : Drawing :=
  { caption := c.settings.title
    xAxis := c.xAxis
    yAxis := c.yAxis
    xMajors
    yMajors
    minorLines := xMinors.map (GridLine.upright c.yAxis c.settings.height) ++
      yMinors.map (GridLine.level c.xAxis c.settings.width)
    curves := c.series.map Curve.ofSeries }

/-- What is drawn of a chart, if the loops that look for key points end. -/
def drawing? (c : Chart) : Option Drawing := do
  let xMajors ← c.xAxis.keyPoints?
  let yMajors ← c.yAxis.keyPoints?
  let xMinors ← c.xAxis.minorPoints? c.settings.minorTicks
  let yMinors ← c.yAxis.minorPoints? c.settings.minorTicks
  return c.drawingOn xMajors yMajors xMinors yMinors

end Chart

end RewardPlot
