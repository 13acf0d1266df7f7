import RewardPlot.Decimal.Numeral
/-!
# Numbers in JSON texts

Whole numbers of 64 bits are read exactly.  Any other number is read quickly and not
always to the nearest one: the digits that fit into 64 bits are kept, and one product
or quotient with a power of ten puts the point in its place.
-/

namespace RewardPlot.Json

/-- What a number in a text says. -/
inductive Number where
  | natural (n : Nat)
  | negative (n : Nat)
  | real (x : Binary64)
deriving DecidableEq

namespace Number

/-- The numbers that 64 bits hold end before this one. -/
def wordLimit : Nat := 2 ^ 64

/-- The largest size of an exponent that is taken as it is written. -/
def longestExponent : Nat := 2 ^ 31 - 1

/-- The written parts of a number without its sign: the digits before the point, those
after it, and the exponent with its sign. -/
structure Parts where
  whole : List Char
  fraction : Option (List Char)
  exponent : Option (Bool × List Char)
deriving DecidableEq, Repr

/-- Digits that were kept, as a number, and the power of ten that goes with them. -/
structure Kept where
  significand : Nat
  exponent : Int
deriving DecidableEq, Repr

def extend (n : Nat) (c : Char) : Nat := 10 * n + (c.toNat - '0'.toNat)

/-- Keeps digits before the point; from the first that does not fit on, each counts as
a power of ten. -/
def keepWhole (n : Nat) : List Char → Kept
  | [] => ⟨n, 0⟩
  | c :: cs => if extend n c < wordLimit then keepWhole (extend n c) cs else ⟨n, cs.length + 1⟩

/-- Keeps digits after the point up to the first that does not fit. -/
def keepFraction (k : Kept) : List Char → Kept
  | [] => k
  | c :: cs =>
    if extend k.significand c < wordLimit then
      keepFraction ⟨extend k.significand c, k.exponent - 1⟩ cs
    else k

/-- The power of ten with the largest exponent in the range of finite numbers. -/
def largestPower : Nat := 308

def tenTo (n : Nat) : Binary64 := Decimal.toBinary64 false ⟨1, n⟩

/-- Divides by the largest power until the exponent is in range; zero stays zero. -/
def divideDown : Nat → Binary64 → Int → Binary64
  | 0, x, _ => x
  | fuel + 1, x, e =>
    if -largestPower ≤ e then x / tenTo e.natAbs
    else if x.coincides 0 then x
    else divideDown fuel (x / tenTo largestPower) (e + largestPower)

/-- The number with a power of ten, if it is not beyond the range.  Three quotients
turn any kept digits into zero. -/
def scale? (k : Kept) : Option Binary64 :=
  let x := Binary64.ofNat k.significand
  if k.exponent < 0 then some (divideDown 3 x k.exponent)
  else if k.exponent ≤ largestPower then
    let y := x * tenTo k.exponent.toNat
    if y.isFinite then some y else none
  else if k.significand = 0 then some x
  else none

def withSign (minus : Bool) (x : Binary64) : Binary64 := if minus then -x else x

/-- The number with the exponent that is written after its digits. -/
def withExponent? (k : Kept) : Option (Bool × List Char) → Option Binary64
  | none => scale? k
  | some (minus, digits) =>
    let size := Nat.ofDigitChars 10 digits 0
    if longestExponent < size then
      if k.significand = 0 ∨ minus then some 0 else none
    else scale? ⟨k.significand, if minus then k.exponent - size else k.exponent + size⟩

/-- The number with given parts, if it is not beyond the range. -/
def ofParts? (minus : Bool) (p : Parts) : Option Number :=
  let kept := keepWhole 0 p.whole
  if p.fraction = none ∧ p.exponent = none ∧ kept.exponent = 0 then
    some <|
      if !minus then .natural kept.significand
      else if kept.significand = 0 ∨ 2 ^ 63 < kept.significand then
        .real (-.ofNat kept.significand)
      else .negative kept.significand
  else
    (withExponent? (keepFraction kept (p.fraction.getD [])) p.exponent).map
      fun x => .real (withSign minus x)

def toBinary64 : Number → Binary64
  | natural n => .ofNat n
  | negative n => -.ofNat n
  | real x => x

end Number

end RewardPlot.Json
