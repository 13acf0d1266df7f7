import RewardPlot.Decimal.Basic
/-!
# Numerals

The written form of a number: an optional sign, then `nan`, `inf` or `infinity` in
any letter case, or digits with at most one point and an optional exponent.
-/

namespace RewardPlot

/-- What a written number says, before it is rounded. -/
inductive Numeral where
  | nan
  | infinity (negative : Bool)
  | decimal (negative : Bool) (value : Decimal)
deriving DecidableEq, Repr

namespace Numeral

/-- A sign, if there is one, and the text after it. -/
def takeSign : List Char → Bool × List Char
  | '-' :: rest => (true, rest)
  | '+' :: rest => (false, rest)
  | text => (false, text)

/-- The exponent after the digits: nothing, or `e` and a signed whole number. -/
def exponent? : List Char → Option Int
  | [] => some 0
  | c :: text =>
    let (negative, digits) := takeSign text
    if (c = 'e' ∨ c = 'E') ∧ digits ≠ [] ∧ digits.all Char.isDigit then
      let size : Int := Nat.ofDigitChars 10 digits 0
      some (if negative then -size else size)
    else none

/-- Digits with at most one point, at least one digit in all, and an exponent. -/
def decimal? (text : List Char) : Option Decimal := do
  let whole := text.takeWhile Char.isDigit
  let (fraction, rest) := match text.dropWhile Char.isDigit with
    | '.' :: rest => (rest.takeWhile Char.isDigit, rest.dropWhile Char.isDigit)
    | rest => ([], rest)
  guard (whole ++ fraction ≠ [])
  let exponent ← exponent? rest
  return ⟨Nat.ofDigitChars 10 (whole ++ fraction) 0, exponent - fraction.length⟩

def ofChars? (text : List Char) : Option Numeral :=
  let (negative, body) := takeSign text
  let word := body.map Char.toLower
  if word = ['n', 'a', 'n'] then some .nan
  else if word = ['i', 'n', 'f'] ∨ word = ['i', 'n', 'f', 'i', 'n', 'i', 't', 'y'] then
    some (.infinity negative)
  else (decimal? body).map (.decimal negative)

def toBinary64 : Numeral → Binary64
  | nan => .nan
  | infinity negative => .infinite negative
  | decimal negative value => value.toBinary64 negative

end Numeral

end RewardPlot
