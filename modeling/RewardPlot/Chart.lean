import RewardPlot.Axis.MinorGrid
/-!
# Charts

A chart has settings and series in the order in which they were added; its axes follow
from the series.
-/

namespace RewardPlot

/-- The title, the size in pixels, and the number of minor lines between major ones. -/
structure Chart.Settings where
  title : String := "LCT reward"
  width : UInt32 := 1400
  height : UInt32 := 1000
  minorTicks : UInt64 := 4
deriving DecidableEq

/-- A trace with the label that names it. -/
structure Series where
  label : String
  trace : Trace
deriving DecidableEq

structure Chart where
  settings : Chart.Settings
  series : List Series
deriving DecidableEq

namespace Chart

def mostPixels : UInt32 := 16384

def empty (settings : Settings) : Chart := ⟨settings, []⟩

def add (c : Chart) (s : Series) : Chart := { c with series := c.series ++ [s] }

def labels (c : Chart) : List String := c.series.map Series.label

def maxLength (c : Chart) : Nat := (c.series.map (·.trace.length)).foldl max 0

/-- The bounds of the values of all series, if there is a finite one. -/
def bounds? (c : Chart) : Option Bounds :=
  match c.series.filterMap (·.trace.bounds?) with
  | [] => none
  | b :: bs => some (bs.foldl Bounds.union b)

def xAxis (c : Chart) : Axis := .ofLength c.maxLength

def yAxis (c : Chart) : Axis := .ofBounds c.bounds?

namespace Settings

def sizeFits (s : Settings) : Bool :=
  0 < s.width && 0 < s.height && s.width ≤ mostPixels && s.height ≤ mostPixels

end Settings

end Chart

end RewardPlot
