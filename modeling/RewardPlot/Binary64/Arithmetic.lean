import RewardPlot.Binary64.Basic
/-!
# Arithmetic on binary64 numbers

Each operation takes the exact result for finite operands and rounds it once.
-/

namespace RewardPlot.Binary64

/-- The number nearest to so many units. -/
def ofUnits (units : Int) : Binary64 := ofQuotient (units < 0) units.natAbs 1

/-- A magnitude with a sign, in units. -/
def signed (negative : Bool) (m : Magnitude) : Int :=
  if negative then -m.units else m.units

def neg : Binary64 → Binary64
  | .nan => .nan
  | .infinite negative => .infinite !negative
  | .finite negative m => .finite (!negative) m

def abs : Binary64 → Binary64
  | .nan => .nan
  | .infinite _ => .infinite false
  | .finite _ m => .finite false m

/-- Opposite numbers add up to the positive zero; two negative zeros to the
negative one. -/
def add : Binary64 → Binary64 → Binary64
  | .nan, _ | _, .nan => .nan
  | .infinite a, .infinite b => if a = b then .infinite a else .nan
  | .infinite a, .finite .. => .infinite a
  | .finite .., .infinite b => .infinite b
  | .finite a m, .finite b n =>
    let total := signed a m + signed b n
    if total = 0 then zero (a && b) else ofUnits total

def sub (x y : Binary64) : Binary64 := add x (neg y)

def mul : Binary64 → Binary64 → Binary64
  | .nan, _ | _, .nan => .nan
  | .infinite a, .infinite b => .infinite (a ^^ b)
  | .infinite a, .finite b n => if n.units = 0 then .nan else .infinite (a ^^ b)
  | .finite a m, .infinite b => if m.units = 0 then .nan else .infinite (a ^^ b)
  | .finite a m, .finite b n => ofQuotient (a ^^ b) (m.units * n.units) Magnitude.one

def div : Binary64 → Binary64 → Binary64
  | .nan, _ | _, .nan => .nan
  | .infinite _, .infinite _ => .nan
  | .infinite a, .finite b _ => .infinite (a ^^ b)
  | .finite a _, .infinite b => zero (a ^^ b)
  | .finite a m, .finite b n =>
    if n.units = 0 then
      if m.units = 0 then .nan else .infinite (a ^^ b)
    else ofQuotient (a ^^ b) (m.units * Magnitude.one) n.units

instance : Neg Binary64 := ⟨neg⟩
instance : Add Binary64 := ⟨add⟩
instance : Sub Binary64 := ⟨sub⟩
instance : Mul Binary64 := ⟨mul⟩
instance : Div Binary64 := ⟨div⟩

/-- The greatest whole number that is not greater; the sign of a zero is kept. -/
def floor : Binary64 → Binary64
  | .finite true m =>
    ofQuotient true ((m.units + (Magnitude.one - 1)) / Magnitude.one * Magnitude.one) 1
  | .finite false m => ofQuotient false (m.units / Magnitude.one * Magnitude.one) 1
  | x => x

/-- The nearest whole number, a half going away from zero; the sign of a zero is kept. -/
def round : Binary64 → Binary64
  | .finite negative m =>
    ofQuotient negative
      ((2 * m.units + Magnitude.one) / (2 * Magnitude.one) * Magnitude.one) 1
  | x => x

def maxCount : Nat := 2 ^ 64 - 1

/-- The whole part as a count: nothing below zero, at most the largest count, and
zero for what is not a number. -/
def toCount : Binary64 → Nat
  | .finite false m => Nat.min (m.units / Magnitude.one) maxCount
  | .infinite false => maxCount
  | _ => 0

/-- The distance between `1` and the next number. -/
def epsilon : Binary64 := ofFraction 1 (2 ^ 52)

def largest : Binary64 := ofQuotient false ((2 ^ 53 - 1) * 2 ^ 2045) 1

end RewardPlot.Binary64
