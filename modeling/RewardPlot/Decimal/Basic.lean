import RewardPlot.Binary64.Arithmetic
/-!
# Decimals

A decimal is a whole number times a power of ten.  It denotes a rational number,
which is rounded once to give a binary64 number.
-/

namespace RewardPlot

/-- `significand * 10 ^ exponent`. -/
structure Decimal where
  significand : Nat
  exponent : Int
deriving DecidableEq, Repr

namespace Decimal

/-- The number of decimal digits; zero has none. -/
def width (n : Nat) : Nat :=
  if n = 0 then 0 else (Nat.toDigits 10 n).length

/-- The exponent of the leading digit of a fraction: the greatest power of ten
that is not greater. -/
def leadingPlace (num den : Nat) : Int :=
  if den ≤ num then (width (num / den) : Int) - 1
  else -(width ((den + num - 1) / num - 1) : Int)

def num (d : Decimal) : Nat := d.significand * 10 ^ d.exponent.toNat

def den (d : Decimal) : Nat := 10 ^ (-d.exponent).toNat

/-- The nearest magnitude, in units, without an upper end. -/
def nearestUnits (d : Decimal) : Nat :=
  Magnitude.nearest (Magnitude.one * d.num) d.den

/-- The nearest number.  A decimal from `10 ^ 310` on is beyond the largest number
and one below `10 ^ (-330)` is nearer to zero than to the smallest, so their powers
of ten are not computed. -/
def toBinary64 (negative : Bool) (d : Decimal) : Binary64 :=
  let place := (width d.significand : Int) + d.exponent
  if d.significand = 0 ∨ place < -330 then .zero negative
  else if 310 < place then .infinite negative
  else .ofQuotient negative (Magnitude.one * d.num) d.den

/-- The same value with no zero at the end of the significand. -/
def trimZeros (d : Decimal) : Decimal :=
  go (width d.significand) d
where
  go : Nat → Decimal → Decimal
    | 0, d => d
    | fuel + 1, d =>
      if d.significand % 10 = 0 then go fuel ⟨d.significand / 10, d.exponent + 1⟩ else d

end Decimal

end RewardPlot
