import RewardPlot.Axis.Basic
import RewardPlot.Binary64.Decade
/-!
# Key points

The round numbers at which an axis carries its major lines: multiples of a step that
is a power of ten or its half or fifth, as fine as the number of lines allows.  Both
loops count down; running out is told apart from an answer.
-/

namespace RewardPlot.Axis

/-- What is left of a number after whole steps; nothing where it is a step within
rounding. -/
def leftover (x step : Binary64) : Binary64 :=
  let r := x - (x / step).floor * step
  if (r - step).abs < .epsilon then 0 else r

/-- The first multiple of a step that is not before a number. -/
def firstFrom (low step : Binary64) : Binary64 :=
  let l := low - leftover low step
  if l < low then l + step else l

/-- The last multiple of a step that is not after a number. -/
def lastUpTo (high step : Binary64) : Binary64 := high - leftover high step

/-- The number of multiples of the `parts`-th part of a scale between two numbers. -/
def multiplesBetween (low high scale parts : Binary64) : Nat :=
  let step := scale / parts
  (1 + (lastUpTo high step - firstFrom low step) / scale * parts).round.toCount

/-- The distance between key points, and a power of ten that divides it. -/
structure Spacing where
  step : Binary64
  grain : Binary64
deriving DecidableEq

/-- Divides a scale by two, five and ten as long as there are not too many multiples;
tells whether there were. -/
def refine (most : Nat) (low high scale : Binary64) :
    List Binary64 → Binary64 → Binary64 × Bool
  | [], step => (step, false)
  | parts :: more, step =>
    if most < multiplesBetween low high scale parts then (step, true)
    else refine most low high scale more (scale / parts)

/-- Makes the step finer, decade by decade. -/
def settle (most : Nat) (low high : Binary64) : Nat → Spacing → Option Spacing
  | 0, _ => none
  | fuel + 1, s =>
    let divided := refine most low high s.step [2, 5, 10] s.step
    if divided.2 then some ⟨divided.1, s.grain⟩
    else settle most low high fuel ⟨s.step / 10, s.grain / 10⟩

/-- The step to begin with: the decade of the span, or the next one. -/
def firstSpacing (most : Nat) (span : Binary64) : Spacing :=
  let scale := span.decadeScale
  if most < 1 + (span / scale).floor.toCount then ⟨scale * 10, scale / 10 * 10⟩
  else ⟨scale, scale / 10⟩

/-- Steps from `rel` above a base up to the last point. -/
def march (last base : Binary64) (s : Spacing) : Nat → Binary64 → Option (List Binary64)
  | 0, _ => none
  | fuel + 1, rel =>
    if -Binary64.epsilon ≤ last - rel - base then
      let rel :=
        if (rel / s.grain).round * s.grain < 0 then rel + s.grain else rel
      (march last base s fuel (rel + s.step)).map ((rel + base) :: ·)
    else some []

/-- The largest number of rounds of a loop. -/
def rounds : Nat := 10000

/-- The key points between two numbers, at most so many, if the loops end. -/
def keyPointsBetween (most : Nat) (low high : Binary64) : Option (List Binary64) :=
  if (low - high).abs < .epsilon then some [low]
  else do
    let s ← settle most low high rounds (firstSpacing most (high - low))
    let left := firstFrom low s.step
    let base := (left / s.grain).floor * s.grain
    march (lastUpTo high s.step) base s rounds (left - base)

def majorLines : Nat := 10

def keyPoints? (axis : Axis) : Option (List Binary64) :=
  keyPointsBetween majorLines (axis.start.min axis.stop) (axis.start.max axis.stop)

end RewardPlot.Axis
