import RewardPlot.Proofs.Binary64.Nearest
import RewardPlot.Proofs.Decimal.Grammar
/-!
# The value of a field

A field has a value exactly when it is a numeral, apart from white space at its ends.  The value
of a decimal is the number nearest to it, however many digits it has and however large its
exponent is.
-/

namespace RewardPlot

open Binary64 (Rounds rounds_iff)

namespace Numeral

/-! ## What a numeral denotes -/

/-- The size of a decimal: the digits before the point, those behind it as a fraction, and a power
of ten. -/
def Literal.size (whole fraction : List Char) (exponent : Int) : ℚ :=
  ((Nat.ofDigitChars 10 whole 0 : ℚ) +
    (Nat.ofDigitChars 10 fraction 0 : ℚ) / (10 ^ fraction.length : Nat)) * (10 : ℚ) ^ exponent

/-- The values of a numeral. -/
def Literal.Denotes : Literal → Binary64 → Prop
  | nan, x => x = .nan
  | infinity negative, x => x = .infinite negative
  | decimal negative whole fraction exponent, x =>
    Rounds negative (size whole fraction exponent) x

theorem zpow_eq_div (e : Int) :
    (10 : ℚ) ^ e = (10 ^ e.toNat : Nat) / (10 ^ (-e).toNat : Nat) := by
  obtain ⟨n, rfl | rfl⟩ := e.eq_nat_or_neg
  · rw [Int.toNat_natCast, show (-(n : Int)).toNat = 0 by omega, Nat.pow_zero, Nat.cast_one,
      div_one, zpow_natCast, Nat.cast_pow, Nat.cast_ofNat]
  · rw [neg_neg, Int.toNat_natCast, show (-(n : Int)).toNat = 0 by omega, Nat.pow_zero,
      Nat.cast_one, one_div, zpow_neg, zpow_natCast, Nat.cast_pow, Nat.cast_ofNat]

/-- The digits of both sides of the point as one number have the same size. -/
theorem size_eq_div (whole fraction : List Char) (e : Int) :
    Literal.size whole fraction e =
      (Decimal.mk (Nat.ofDigitChars 10 (whole ++ fraction) 0) (e - fraction.length)).num /
        (Decimal.mk (Nat.ofDigitChars 10 (whole ++ fraction) 0) (e - fraction.length)).den := by
  have hten : (10 : ℚ) ≠ 0 := by norm_num
  have hpower : ((10 ^ fraction.length : Nat) : ℚ) = (10 : ℚ) ^ (fraction.length : Int) := by
    rw [zpow_natCast, Nat.cast_pow, Nat.cast_ofNat]
  have hdigits : Nat.ofDigitChars 10 (whole ++ fraction) 0 =
      10 ^ fraction.length * Nat.ofDigitChars 10 whole 0 + Nat.ofDigitChars 10 fraction 0 := by
    rw [Nat.ofDigitChars_append, Nat.ofDigitChars_eq_ofDigitChars_zero]
  rw [Decimal.num, Decimal.den, Nat.cast_mul, mul_div_assoc, ← zpow_eq_div, hdigits, Nat.cast_add,
    Nat.cast_mul, hpower, zpow_sub₀ hten, Literal.size, hpower]
  have hpower_ne : (10 : ℚ) ^ (fraction.length : Int) ≠ 0 := zpow_ne_zero _ hten
  field_simp

theorem denotes_iff {l : Literal} {x : Binary64} : l.Denotes x ↔ x = l.numeral.toBinary64 := by
  cases l with
  | nan | infinity => exact Iff.rfl
  | decimal negative whole fraction e =>
      rw [Literal.Denotes, size_eq_div, rounds_iff (Decimal.den_pos _), Literal.numeral, toBinary64,
        Decimal.toBinary64_eq_ofQuotient]

end Numeral

namespace Trace

open Numeral (Spells Literal denotes_iff ofChars?_eq_some_iff)

theorem readField_eq_some {field : List Char} {x : Binary64} :
    readField field = some x ↔ ∃ l, Spells (Text.trim field) l ∧ l.Denotes x := by
  rw [readField, Option.map_eq_some_iff]
  constructor
  · rintro ⟨n, hn, rfl⟩
    obtain ⟨l, hspells, rfl⟩ := ofChars?_eq_some_iff.mp hn
    exact ⟨l, hspells, denotes_iff.mpr rfl⟩
  · rintro ⟨l, hspells, hx⟩
    exact ⟨l.numeral, ofChars?_eq_some_iff.mpr ⟨l, hspells, rfl⟩, (denotes_iff.mp hx).symm⟩

/-- A field has a value exactly when it is a numeral apart from white space at its ends, and then
the value is the one that the numeral denotes. -/
theorem readField_eq_denoted (field : List Char) :
    ((readField field).isSome ↔ ∃ l, Spells (Text.trim field) l) ∧
      ∀ x, readField field = some x ↔ ∃ l, Spells (Text.trim field) l ∧ l.Denotes x := by
  refine ⟨?_, fun x => readField_eq_some⟩
  rw [Option.isSome_iff_exists]
  constructor
  · rintro ⟨x, hx⟩
    obtain ⟨l, hspells, -⟩ := readField_eq_some.mp hx
    exact ⟨l, hspells⟩
  · rintro ⟨l, hspells⟩
    exact ⟨l.numeral.toBinary64, readField_eq_some.mpr ⟨l, hspells, denotes_iff.mpr rfl⟩⟩

end Trace

end RewardPlot
