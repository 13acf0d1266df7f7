import RewardPlot.Binary64.Arithmetic
/-!
# Dashed lines

A minor grid line is drawn as dashes: the line is cut into equal periods and the first
half of each is kept.
-/

namespace RewardPlot

structure Position where
  x : Binary64
  y : Binary64
deriving DecidableEq

/-- A drawn part of a line. -/
structure Dash where
  start : Position
  stop : Position
deriving DecidableEq

namespace Dash

def along (start stop : Position) (share : Binary64) : Position :=
  ⟨start.x + (stop.x - start.x) * share, start.y + (stop.y - start.y) * share⟩

/-- The dashes of a line with so many periods. -/
def ofLine (start stop : Position) (periods : Nat) : List Dash :=
  let period := 1 / Binary64.ofNat periods
  (List.range periods).map fun k =>
    let share := .ofNat k * period
    ⟨along start stop share, along start stop (share + period * .ofFraction 1 2)⟩

end Dash

end RewardPlot
