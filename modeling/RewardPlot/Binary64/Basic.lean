/-!
# Binary64 numbers

A number of the 64-bit binary format is kept as the value it stands for.  A
finite one is a sign and a magnitude that counts units of `2 ^ -1074`, so
comparing and adding numbers is arithmetic on integers, and two numbers are
equal exactly when their encodings are (all encodings of "not a number" are one).
-/

-- A power of natural numbers is computed by the core library, whatever else is imported.
attribute [instance (high), default_instance high + 1] instPowNat

namespace RewardPlot

/-! ## Rounding a magnitude -/

/-- The quotient rounded to a whole number, a half going to the even neighbour. -/
def roundHalfEven (num den : Nat) : Nat :=
  let quotient := num / den
  let twice := 2 * (num % den)
  if den < twice ∨ (twice = den ∧ quotient % 2 = 1) then quotient + 1 else quotient

theorem roundHalfEven_le (num den : Nat) : roundHalfEven num den ≤ num / den + 1 := by
  unfold roundHalfEven
  dsimp only
  split <;> omega

namespace Magnitude

/-- The first magnitude beyond the finite range, `2 ^ 1024`. -/
def limit : Nat := 2 ^ 2098

/-- The units in `1`. -/
def one : Nat := 2 ^ 1074

/-- The distance between magnitudes of this size: 53 digits are kept. -/
def spacing (units : Nat) : Nat := 2 ^ (units.log2 - 52)

/-- Numbers of the format are multiples of their spacing below the limit. -/
def Representable (units : Nat) : Prop := units < limit ∧ spacing units ∣ units

instance (units : Nat) : Decidable (Representable units) :=
  inferInstanceAs (Decidable (_ ∧ _))

/-- The multiple of the spacing that is nearest to the quotient, as if the range
had no upper end. -/
def nearest (num den : Nat) : Nat :=
  let step := spacing (num / den)
  roundHalfEven num (den * step) * step

theorem representable_zero : Representable 0 := by
  refine ⟨?_, Nat.dvd_zero _⟩
  unfold limit
  apply Nat.two_pow_pos

private theorem lt_two_pow_of_spacing (n : Nat) : n < 2 ^ (53 + (n.log2 - 52)) := by
  refine Nat.lt_of_lt_of_le Nat.lt_log2_self ?_
  exact Nat.pow_le_pow_right (by decide) (by omega)

theorem roundHalfEven_spacing_le (num den : Nat) :
    roundHalfEven num (den * spacing (num / den)) ≤ 2 ^ 53 := by
  refine Nat.le_trans (roundHalfEven_le _ _) ?_
  rw [← Nat.div_div_eq_div_mul]
  have h : num / den < 2 ^ 53 * spacing (num / den) := by
    unfold spacing
    rw [← Nat.pow_add]
    exact lt_two_pow_of_spacing _
  exact Nat.div_lt_of_lt_mul (Nat.mul_comm .. ▸ h)

theorem spacing_dvd_mul_two_pow {n e : Nat} (h : n ≤ 2 ^ 53) :
    spacing (n * 2 ^ e) ∣ n * 2 ^ e := by
  unfold spacing
  by_cases hn : n = 0
  · simp [hn]
  by_cases top : n = 2 ^ 53
  · subst top
    rw [← Nat.pow_add, Nat.log2_two_pow]
    exact Nat.pow_dvd_pow 2 (by omega)
  · refine Nat.dvd_trans (Nat.pow_dvd_pow 2 ?_) (Nat.dvd_mul_left _ _)
    have lt : n * 2 ^ e < 2 ^ (53 + e) := by
      rw [Nat.pow_add]
      exact Nat.mul_lt_mul_of_pos_right (by omega) (Nat.two_pow_pos e)
    have := (Nat.log2_lt (Nat.mul_ne_zero hn (Nat.ne_of_gt (Nat.two_pow_pos e)))).2 lt
    omega

theorem representable_nearest {num den : Nat} (h : nearest num den < limit) :
    Representable (nearest num den) :=
  ⟨h, spacing_dvd_mul_two_pow (roundHalfEven_spacing_le num den)⟩

end Magnitude

/-- A magnitude of the format, in units of `2 ^ -1074`. -/
structure Magnitude where
  units : Nat
  representable : Magnitude.Representable units
deriving DecidableEq

inductive Binary64 where
  | nan
  | infinite (negative : Bool)
  | finite (negative : Bool) (magnitude : Magnitude)
deriving DecidableEq

namespace Binary64

/-- The number nearest to a signed quotient of units; what would lie beyond the
largest number is infinite. -/
def ofQuotient (negative : Bool) (num den : Nat) : Binary64 :=
  if h : Magnitude.nearest num den < Magnitude.limit then
    .finite negative ⟨_, Magnitude.representable_nearest h⟩
  else
    .infinite negative

def zero (negative : Bool) : Binary64 :=
  .finite negative ⟨0, Magnitude.representable_zero⟩

def ofFraction (num den : Nat) : Binary64 := ofQuotient false (num * Magnitude.one) den

def ofNat (n : Nat) : Binary64 := ofFraction n 1

instance (n : Nat) : OfNat Binary64 n := ⟨ofNat n⟩

instance : Inhabited Binary64 := ⟨.nan⟩

/-! ## Kinds of numbers and their order -/

def isFinite : Binary64 → Bool
  | .finite .. => true
  | _ => false

/-- The place on the number line, in units; the infinities lie just beyond the
finite range, and what is not a number has no place. -/
def place : Binary64 → Option Int
  | .nan => none
  | .infinite false => some Magnitude.limit
  | .infinite true => some (-Magnitude.limit)
  | .finite false m => some m.units
  | .finite true m => some (-m.units)

/-- Both have a place, and the first lies before the second. -/
def before (x y : Binary64) : Bool :=
  match x.place, y.place with
  | some a, some b => a < b
  | _, _ => false

/-- Both have the same place: the two zeros do, and "not a number" has none. -/
def coincides (x y : Binary64) : Bool :=
  match x.place, y.place with
  | some a, some b => a == b
  | _, _ => false

instance : LT Binary64 := ⟨fun x y => x.before y = true⟩

instance : LE Binary64 := ⟨fun x y => (x.before y || x.coincides y) = true⟩

instance (x y : Binary64) : Decidable (x < y) := inferInstanceAs (Decidable (_ = true))

instance (x y : Binary64) : Decidable (x ≤ y) := inferInstanceAs (Decidable (_ = true))

/-- The smaller of two numbers; the other one where one is not a number. -/
def min (x y : Binary64) : Binary64 :=
  if x = .nan then y else if y < x then y else x

/-- The larger of two numbers; the other one where one is not a number. -/
def max (x y : Binary64) : Binary64 :=
  if x = .nan then y else if x < y then y else x

def clamp (x low high : Binary64) : Binary64 :=
  if x < low then low else if high < x then high else x

/-! ## Encoding -/

/-- The encoding of a magnitude without its sign: ten digits of exponent above
the 52 digits that follow the leading one. -/
def magnitudeBits (units : Nat) : Nat :=
  if units < 2 ^ 52 then units
  else
    let exponent := units.log2 - 52
    exponent * 2 ^ 52 + units / 2 ^ exponent

def toBits : Binary64 → UInt64
  | .nan => 0x7ff8000000000000
  | .infinite negative => sign negative + 0x7ff0000000000000
  | .finite negative m => sign negative + UInt64.ofNat (magnitudeBits m.units)
where
  sign (negative : Bool) : UInt64 := if negative then 0x8000000000000000 else 0

def ofBits (bits : UInt64) : Binary64 :=
  let negative := 0x8000000000000000 ≤ bits
  let exponent := bits.toNat / 2 ^ 52 % 2 ^ 11
  let fraction := bits.toNat % 2 ^ 52
  if exponent = 2047 then
    if fraction = 0 then .infinite negative else .nan
  else if exponent = 0 then ofQuotient negative fraction 1
  else ofQuotient negative ((2 ^ 52 + fraction) * 2 ^ (exponent - 1)) 1

end Binary64

end RewardPlot
