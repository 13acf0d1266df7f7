import RewardPlot.Binary64.Arithmetic
/-!
# Traces

A trace is the row of reward values read from one file.  A position without a
number is masked: it keeps its place but has no value.
-/

namespace RewardPlot

/-- Reward values in order; a masked position holds none. -/
structure Trace where
  values : List (Option Binary64)
deriving DecidableEq

/-- The least and the greatest of some values. -/
structure Bounds where
  low : Binary64
  high : Binary64
deriving DecidableEq

/-- The bounds of all values that two pairs of bounds cover. -/
def Bounds.union (a b : Bounds) : Bounds := ⟨a.low.min b.low, a.high.max b.high⟩

namespace Trace

def length (t : Trace) : Nat := t.values.length

def present (t : Trace) : List Binary64 := t.values.filterMap id

def masked (t : Trace) : Nat := t.values.countP Option.isNone

/-- The values added up from left to right, beginning with the negative zero, which
changes no sum. -/
def sum (t : Trace) : Binary64 := t.present.foldl (· + ·) (.zero true)

/-- Whether the values add up to zero; such a trace carries no signal. -/
def sumsToZero (t : Trace) : Bool := t.sum.coincides 0

def drawable (t : Trace) : List Binary64 := t.present.filter Binary64.isFinite

/-- The least and the greatest finite value, if there is one. -/
def bounds? (t : Trace) : Option Bounds :=
  match t.drawable with
  | [] => none
  | v :: vs => some (vs.foldl (fun b v => b.union ⟨v, v⟩) ⟨v, v⟩)

/-- A drawn point: its position and its value. -/
abbrev Point := Nat × Binary64

/-- The value of a position if it can be drawn. -/
def drawn? : Option Binary64 → Option Binary64
  | some v => if v.isFinite then some v else none
  | none => none

/-- An unfinished run of points, last point first, as a list of runs. -/
def closed (run : List Point) : List (List Point) :=
  if run = [] then [] else [run.reverse]

/-- The runs from a position on, the first one continuing the given run. -/
def runsFrom (i : Nat) (run : List Point) : List (Option Binary64) → List (List Point)
  | [] => closed run
  | value :: values =>
    match drawn? value with
    | some v => runsFrom (i + 1) ((i, v) :: run) values
    | none => closed run ++ runsFrom (i + 1) [] values

/-- The runs of neighbouring finite values; any other position ends a run. -/
def segments (t : Trace) : List (List Point) := runsFrom 0 [] t.values

end Trace

end RewardPlot
