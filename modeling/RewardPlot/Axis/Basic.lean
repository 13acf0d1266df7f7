import RewardPlot.Trace.Basic
/-!
# Axes

The part of the number line that an axis of a chart shows.  The horizontal axis
shows positions, the vertical one values with some room on both sides.
-/

namespace RewardPlot

structure Axis where
  start : Binary64
  stop : Binary64
deriving DecidableEq

namespace Axis

/-- The ends of an axis stay within this size, so the distance between them is finite. -/
def endLimit : Binary64 := .largest / 4

def ofLength (n : Nat) : Axis := ⟨0, .ofNat (max (n - 1) 1)⟩

def roomShare : Binary64 := .ofFraction 5 100

/-- The least share of the largest size that is left free, so that marks stay apart. -/
def leastShare : Binary64 := .ofFraction 1 1000000

/-- The room beside the values: a twentieth of their span, but not too little for
their size. -/
def room (low high : Binary64) : Binary64 :=
  if low.coincides high then (low.abs * roomShare).max 1
  else (high * roomShare - low * roomShare).max (low.abs.max high.abs * leastShare)

/-- The axis of values with some bounds, and from zero to one where there are no values. -/
def ofBounds : Option Bounds → Axis
  | none => ⟨0, 1⟩
  | some b =>
    let low := b.low.clamp (-endLimit) endLimit
    let high := b.high.clamp (-endLimit) endLimit
    let pad := room low high
    ⟨(low - pad).max (-endLimit), (high + pad).min endLimit⟩

end Axis

end RewardPlot
