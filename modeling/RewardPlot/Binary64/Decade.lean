import RewardPlot.Decimal.Basic
/-!
# The decade of a number

The power of ten at or below a positive number, found through the whole part of a
quotient of rounded logarithms.  Beside a power of ten the quotient can be rounded
to the other side, so there the decade may be the neighbouring one.
-/

namespace RewardPlot.Binary64

def ofRat (q : Rat) : Binary64 := ofQuotient (q < 0) (q.num.natAbs * Magnitude.one) q.den

def tenPow (k : Int) : Rat :=
  if 0 ≤ k then ((10 ^ k.toNat : Nat) : Rat) else 1 / ((10 ^ (-k).toNat : Nat) : Rat)

/-- The natural logarithm of ten, to forty places. -/
def ln10 : Rat := 23025850929940456840179914546843642076011 / tenPow 40

/-- The value of a positive magnitude as a multiple of `10 ^ k`, less one. -/
def excess (units : Nat) (k : Int) : Rat :=
  (units : Rat) / (Magnitude.one : Rat) / tenPow k - 1

/-- The rounded logarithm to base ten of a magnitude close to `10 ^ k`, as the
quotient of two rounded natural logarithms. -/
def logBeside (units : Nat) (k : Int) : Binary64 :=
  let d := excess units k
  ofRat (k * ln10 + d - d * d / 2 + d * d * d / 3) / ofRat ln10

/-- Whether a magnitude is so close to `10 ^ k` that rounding may decide. -/
def isBeside (units : Nat) (k : Int) : Bool :=
  decide ((excess units k).abs < 1 / ((2 ^ 30 : Nat) : Rat))

/-- The whole part of the rounded logarithm to base ten of a positive magnitude. -/
def decade (units : Nat) : Int :=
  let k := Decimal.leadingPlace units Magnitude.one
  if isBeside units (k + 1) && ofRat (k + 1) ≤ logBeside units (k + 1) then k + 1
  else if isBeside units k && logBeside units k < ofRat k then k - 1
  else k

/-- The number for `10 ^ k`: the nearest one, except that two powers beside the middle
between two numbers go up. -/
def powerOfTen (k : Int) : Binary64 :=
  Decimal.toBinary64 false (if k = 23 ∨ k = 210 then ⟨10 ^ 18 + 1, k - 18⟩ else ⟨1, k⟩)

/-- The power of ten that belongs to the decade of a number. -/
def decadeScale : Binary64 → Binary64
  | .finite false m => if m.units = 0 then zero false else powerOfTen (decade m.units)
  | .infinite false => .infinite false
  | _ => .nan

end RewardPlot.Binary64
