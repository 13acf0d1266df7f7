import RewardPlot.Decimal.Basic
/-!
# Shortest decimals

Of the decimals that round to a given number, the one with the fewest digits that
is nearest to it.
-/

namespace RewardPlot.Decimal

/-- Where a value half-way between two decimals goes. -/
inductive Tie where
  | up
  | even
deriving DecidableEq, Repr

/-- The greatest multiple of `10 ^ exponent` that is not above the magnitude. -/
def below (units : Nat) (exponent : Int) : Decimal :=
  ⟨units * 10 ^ (-exponent).toNat / (Magnitude.one * 10 ^ exponent.toNat), exponent⟩

def next (d : Decimal) : Decimal := ⟨d.significand + 1, d.exponent⟩

/-- How the magnitude compares with the middle between a decimal and the next. -/
def compareMiddle (units : Nat) (d : Decimal) : Ordering :=
  compare (2 * units * 10 ^ (-d.exponent).toNat)
    (Magnitude.one * ((2 * d.significand + 1) * 10 ^ d.exponent.toNat))

def nearer (tie : Tie) (units : Nat) (d : Decimal) : Decimal :=
  match compareMiddle units d with
  | .lt => d
  | .gt => d.next
  | .eq => if tie = .even ∧ d.significand % 2 = 0 then d else d.next

/-- The multiple of `10 ^ exponent` beside the magnitude that rounds to it. -/
def onGrid? (tie : Tie) (units : Nat) (exponent : Int) : Option Decimal :=
  let low := below units exponent
  if low.nearestUnits = units then
    if low.next.nearestUnits = units then some (nearer tie units low) else some low
  else if low.next.nearestUnits = units then some low.next
  else none

def exact (units : Nat) : Decimal := ⟨units * 5 ^ 1074, -1074⟩

/-- The shortest decimal that rounds to a positive magnitude: grids with one to
seventeen digits are tried in turn. -/
def shortest (tie : Tie) (units : Nat) : Decimal :=
  let place := leadingPlace units Magnitude.one
  let found := (List.range 17).findSome? fun (n : Nat) => onGrid? tie units (place - (n : Int))
  (found.getD (exact units)).trimZeros

end RewardPlot.Decimal
