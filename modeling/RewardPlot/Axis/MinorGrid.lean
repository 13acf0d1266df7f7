import RewardPlot.Axis.KeyPoints
/-!
# Minor grid

The positions between the key points of an axis: each interval is divided evenly and
the division goes on to both ends of the axis.
-/

namespace RewardPlot.Axis

/-- Axes with more steps than this have no minor grid. -/
def mostMinorSteps : Nat := 1000

/-- The part of a step within which a position counts as a key point. -/
def nearShare : Binary64 := .ofFraction 1 1000000

def isMajor (majors : List Binary64) (step x : Binary64) : Bool :=
  majors.any fun m => (m - x).abs < step * nearShare

/-- The positions of the minor grid, given the key points.  The number of parts is one
more than the number of ticks, counted modulo `2 ^ 64`. -/
def minorsBetween (majors : List Binary64) (ticks : UInt64) (axis : Axis) : List Binary64 :=
  match majors with
  | first :: second :: _ =>
    let step := (second - first) / .ofNat (ticks + 1).toNat
    if step.isFinite ∧ 0 < step then
      let back := ((first - axis.start) / step).floor.max 0
      let start := first - back * step
      let count := ((axis.stop - start) / step).floor
      if count.isFinite ∧ 0 ≤ count ∧ count ≤ .ofNat mostMinorSteps then
        ((List.range (count.toCount + 1)).map fun i => start + step * .ofNat i).filter
          fun x => !isMajor majors step x
      else []
    else []
  | _ => []

/-- The minor grid of an axis; without ticks there is none. -/
def minorPoints? (axis : Axis) (ticks : UInt64) : Option (List Binary64) :=
  if ticks = 0 then some [] else axis.keyPoints?.map fun majors => minorsBetween majors ticks axis

end RewardPlot.Axis
