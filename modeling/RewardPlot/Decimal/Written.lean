import RewardPlot.Decimal.Shortest
/-!
# Written numbers

The text of a binary64 number: with the fewest digits that read back, laid out as a
style says, or with a fixed number of places.
-/

namespace RewardPlot.Decimal

def digits (n : Nat) : List Char := Nat.toDigits 10 n

/-- Digits with the point where the exponent puts it. -/
def positional (d : Decimal) : List Char :=
  let ds := digits d.significand
  if 0 ≤ d.exponent then ds ++ List.replicate d.exponent.toNat '0'
  else
    let places := (-d.exponent).toNat
    let padded := List.replicate (places + 1 - ds.length) '0' ++ ds
    padded.take (padded.length - places) ++ '.' :: padded.drop (padded.length - places)

def firstPlace (d : Decimal) : Int := (width d.significand : Int) + d.exponent - 1

/-- One digit before the point, then the exponent with its sign. -/
def scientific (d : Decimal) : List Char :=
  let mantissa := match digits d.significand with
    | first :: second :: more => first :: '.' :: second :: more
    | ds => ds
  let sign := if d.firstPlace < 0 then '-' else '+'
  mantissa ++ 'e' :: sign :: digits d.firstPlace.natAbs

/-- The choices that a written form leaves open. -/
structure Style where
  /-- Where a value half-way between two shortest decimals goes. -/
  tie : Tie
  /-- Whether a whole number ends with `.0`. -/
  wholeHasPoint : Bool
  /-- The places of the first digit that are written without an exponent; all places
  where there are no bounds. -/
  positionalPlaces : Option (Int × Int)
deriving DecidableEq, Repr

/-- Every number is written out, and a whole number has no point. -/
def plainStyle : Style := ⟨.up, false, none⟩

/-- From `1e-5` up to `1e16` numbers are written out, and every one has a point. -/
def dataStyle : Style := ⟨.even, true, some (-5, 15)⟩

def written (style : Style) (d : Decimal) : List Char :=
  let inside := match style.positionalPlaces with
    | none => true
    | some (low, high) => decide (low ≤ d.firstPlace ∧ d.firstPlace ≤ high)
  if inside then
    d.positional ++ if style.wholeHasPoint ∧ 0 ≤ d.exponent then ['.', '0'] else []
  else d.scientific

end RewardPlot.Decimal

namespace RewardPlot.Binary64

def withSign (negative : Bool) (text : List Char) : List Char :=
  if negative then '-' :: text else text

private def infinityText : List Char := ['i', 'n', 'f']
private def nanText : List Char := ['N', 'a', 'N']

/-- The text of a number with the fewest digits that read back. -/
def written (style : Decimal.Style) : Binary64 → List Char
  | .nan => nanText
  | .infinite negative => withSign negative infinityText
  | .finite negative m =>
    withSign negative <|
      if m.units = 0 then if style.wholeHasPoint then ['0', '.', '0'] else ['0']
      else (Decimal.shortest style.tie m.units).written style

/-- The text of a number with a fixed number of places; a half of the last place
goes to the even neighbour. -/
def writtenFixed (places : Nat) : Binary64 → List Char
  | .nan => nanText
  | .infinite negative => withSign negative infinityText
  | .finite negative m =>
    withSign negative
      (Decimal.positional ⟨roundHalfEven (m.units * 10 ^ places) Magnitude.one, -places⟩)

end RewardPlot.Binary64
