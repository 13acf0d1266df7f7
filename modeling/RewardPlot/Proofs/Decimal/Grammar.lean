import RewardPlot.Proofs.Decimal.Numeral
import Mathlib.Data.List.Forall2
import Mathlib.Data.Option.Basic
/-!
# The grammar of numerals

A numeral is an optional sign and behind it a word in any letter case, or digits with at most one
point and an optional exponent.  The texts that are read are exactly those of the grammar, and
what is read from a text is what the grammar finds in it.
-/

namespace RewardPlot.Numeral

open Json (takeFraction)
open Json.Token (AllDigits)

/-! ## The grammar -/

/-- What stands in a numeral, with the digits as they are written. -/
inductive Literal where
  | nan
  | infinity (negative : Bool)
  | decimal (negative : Bool) (whole fraction : List Char) (exponent : Int)

/-- A numeral without a sign is positive. -/
inductive SignText : Bool → List Char → Prop where
  | none : SignText false []
  | plus : SignText false ['+']
  | minus : SignText true ['-']

/-- Each letter of a word may be written as a capital letter. -/
def InAnyCase (word text : List Char) : Prop :=
  List.Forall₂ (fun letter c => c = letter ∨ c = letter.toUpper) word text

/-- An exponent has at least one digit. -/
inductive ExponentText : Int → List Char → Prop where
  | none : ExponentText 0 []
  | written {mark : Char} {negative : Bool} {sign digits : List Char}
      (hmark : mark = 'e' ∨ mark = 'E') (hsign : SignText negative sign)
      (hdigits : AllDigits digits) (hsome : digits ≠ []) :
      ExponentText
        (if negative then -(Nat.ofDigitChars 10 digits 0 : Int) else Nat.ofDigitChars 10 digits 0)
        (mark :: (sign ++ digits))

/-- Digits on both sides of a point, or without a point, and an exponent. -/
structure DecimalText (whole fraction : List Char) (exponent : Int) (text : List Char) : Prop where
  digits : AllDigits whole ∧ AllDigits fraction
  nonempty : whole ++ fraction ≠ []
  parts : ∃ tail, ExponentText exponent tail ∧
    (text = whole ++ '.' :: fraction ++ tail ∨ fraction = [] ∧ text = whole ++ tail)

/-- The texts of a numeral. -/
inductive Spells : List Char → Literal → Prop where
  | nan {negative : Bool} {sign word : List Char} (hsign : SignText negative sign)
      (hword : InAnyCase ['n', 'a', 'n'] word) : Spells (sign ++ word) .nan
  | infinity {negative : Bool} {sign word : List Char} (hsign : SignText negative sign)
      (hword : InAnyCase ['i', 'n', 'f'] word ∨
        InAnyCase ['i', 'n', 'f', 'i', 'n', 'i', 't', 'y'] word) :
      Spells (sign ++ word) (.infinity negative)
  | decimal {negative : Bool} {sign whole fraction text : List Char} {exponent : Int}
      (hsign : SignText negative sign) (htext : DecimalText whole fraction exponent text) :
      Spells (sign ++ text) (.decimal negative whole fraction exponent)

/-- The digits of both sides as one number: each digit behind the point lowers the exponent. -/
def Literal.numeral : Literal → Numeral
  | nan => .nan
  | infinity negative => .infinity negative
  | decimal negative whole fraction exponent =>
    .decimal negative ⟨Nat.ofDigitChars 10 (whole ++ fraction) 0, exponent - fraction.length⟩

/-! ## Signs -/

theorem exists_signText {negative : Bool} {text rest : List Char}
    (htake : takeSign text = (negative, rest)) :
    ∃ sign, SignText negative sign ∧ text = sign ++ rest := by
  unfold takeSign at htake
  split at htake
  · cases htake
    exact ⟨_, .minus, rfl⟩
  · cases htake
    exact ⟨_, .plus, rfl⟩
  · cases htake
    exact ⟨_, .none, rfl⟩

theorem takeSign_append {negative : Bool} {sign text : List Char} (hsign : SignText negative sign)
    (hhead : ∀ c ∈ text.head?, c ≠ '-' ∧ c ≠ '+') : takeSign (sign ++ text) = (negative, text) := by
  cases hsign with
  | plus | minus => rfl
  | none =>
      cases text with
      | nil => rfl
      | cons c text =>
          obtain ⟨hminus, hplus⟩ := hhead c rfl
          simp [takeSign, hminus, hplus]

theorem not_sign_of_isDigit {c : Char} (hc : c.isDigit) : c ≠ '-' ∧ c ≠ '+' := by
  constructor
  · rintro rfl
    cases hc
  · rintro rfl
    cases hc

theorem head_digits {ds : List Char} (hdigits : AllDigits ds) :
    ∀ c ∈ ds.head?, c ≠ '-' ∧ c ≠ '+' :=
  fun c hc => not_sign_of_isDigit (hdigits c (List.mem_of_mem_head? hc))

/-! ## Words -/

theorem toNat_toLower (c : Char) :
    c.toLower.toNat = if 65 ≤ c.toNat ∧ c.toNat ≤ 90 then c.toNat + 32 else c.toNat := by
  unfold Char.toLower
  split_ifs with hupper hrange hrange
  · show (c.val + 32).toNat = c.toNat + 32
    rw [UInt32.toNat_add, Nat.mod_eq_of_lt]
    · rfl
    · have hhigh : c.val.toNat ≤ 90 := hupper.2
      show c.val.toNat + 32 < 2 ^ 32
      omega
  · exact absurd hupper hrange
  · exact absurd hrange hupper
  · rfl

theorem toNat_toUpper (c : Char) :
    c.toUpper.toNat = if 97 ≤ c.toNat ∧ c.toNat ≤ 122 then c.toNat - 32 else c.toNat := by
  unfold Char.toUpper
  split_ifs with hlower hrange hrange
  · have hlow : 97 ≤ c.val.toNat := hlower.1
    have hdistance : ('A'.val - 'a'.val).toNat = 2 ^ 32 - 32 := by decide
    have hsmall := c.val.toNat_lt
    show (c.val + ('A'.val - 'a'.val)).toNat = c.val.toNat - 32
    rw [UInt32.toNat_add, hdistance]
    omega
  · exact absurd hlower hrange
  · exact absurd hrange hlower
  · rfl

theorem toNat_of_isLower {c : Char} (hc : c.isLower) : 97 ≤ c.toNat ∧ c.toNat ≤ 122 := by
  have hrange : (decide ('a'.val ≤ c.val) && decide (c.val ≤ 'z'.val)) = true := hc
  rw [Bool.and_eq_true, decide_eq_true_eq, decide_eq_true_eq] at hrange
  exact hrange

theorem toLower_eq_iff {letter c : Char} (hletter : letter.isLower) :
    c.toLower = letter ↔ c = letter ∨ c = letter.toUpper := by
  have hrange := toNat_of_isLower hletter
  rw [← Char.toNat_inj, ← Char.toNat_inj, ← Char.toNat_inj, toNat_toLower, toNat_toUpper,
    if_pos hrange]
  split_ifs <;> omega

theorem map_toLower_eq_iff {word text : List Char} (hword : word.all Char.isLower) :
    text.map Char.toLower = word ↔ InAnyCase word text := by
  induction word generalizing text with
  | nil => rw [InAnyCase, List.forall₂_nil_left_iff, List.map_eq_nil_iff]
  | cons letter word ih =>
      rw [List.all_cons, Bool.and_eq_true] at hword
      obtain ⟨hletter, hword⟩ := hword
      cases text with
      | nil => exact ⟨nofun, nofun⟩
      | cons c text =>
          rw [InAnyCase, List.forall₂_cons, ← InAnyCase, ← ih hword, ← toLower_eq_iff hletter,
            List.map_cons, List.cons.injEq]

/-- A word does not begin like a decimal. -/
theorem head_of_map_toLower {word text : List Char} (hword : word.all Char.isLower)
    (htext : text.map Char.toLower = word) :
    ∀ c ∈ text.head?, (c ≠ '-' ∧ c ≠ '+') ∧ c ≠ '.' ∧ c.isDigit = false := by
  intro c hc
  have hmem : c.toLower ∈ word := htext ▸ List.mem_map_of_mem (List.mem_of_mem_head? hc)
  have hlower := List.all_eq_true.mp hword _ hmem
  refine ⟨⟨?_, ?_⟩, ?_, ?_⟩
  · rintro rfl
    cases hlower
  · rintro rfl
    cases hlower
  · rintro rfl
    cases hlower
  · by_contra hdigit
    rw [Bool.not_eq_false] at hdigit
    rw [Json.toLower_of_isDigit hdigit] at hlower
    obtain ⟨-, hhigh⟩ := Char.isDigit_iff_toNat.mp hdigit
    have hhigh : c.toNat ≤ 57 := hhigh
    have hlow := (toNat_of_isLower hlower).1
    omega

/-! ## Exponents -/

theorem exponent?_eq_some_iff {text : List Char} {e : Int} :
    exponent? text = some e ↔ ExponentText e text := by
  constructor
  · intro he
    cases text with
    | nil =>
        cases he
        exact .none
    | cons mark text =>
        rcases htake : takeSign text with ⟨negative, digits⟩
        obtain ⟨sign, hsign, rfl⟩ := exists_signText htake
        rw [exponent?, htake] at he
        dsimp only at he
        split at he
        · next h =>
          obtain ⟨hmark, hsome, hdigits⟩ := h
          cases he
          exact .written hmark hsign (List.all_eq_true.mp hdigits) hsome
        · cases he
  · intro htext
    cases htext with
    | none => rfl
    | written hmark hsign hdigits hsome =>
        rw [exponent?, takeSign_append hsign (head_digits hdigits)]
        exact if_pos ⟨hmark, hsome, List.all_eq_true.mpr hdigits⟩

theorem head_exponentText {text : List Char} {e : Int} (htext : ExponentText e text) :
    ∀ c ∈ text.head?, c ≠ '.' ∧ c.isDigit = false := by
  intro c hc
  cases htext with
  | none => cases hc
  | written hmark =>
      cases hc
      rcases hmark with rfl | rfl <;> exact ⟨by decide, rfl⟩

/-! ## Decimals -/

theorem allDigits_takeWhile (text : List Char) : AllDigits (text.takeWhile Char.isDigit) :=
  fun _ hc => List.mem_takeWhile_imp hc

theorem takeFraction_parts (text : List Char) :
    AllDigits (takeFraction text).1 ∧
      (text = '.' :: (takeFraction text).1 ++ (takeFraction text).2 ∨
        (takeFraction text).1 = [] ∧ text = (takeFraction text).2) := by
  unfold takeFraction
  split
  · next rest =>
    refine ⟨allDigits_takeWhile rest, .inl ?_⟩
    rw [List.cons_append, List.takeWhile_append_dropWhile]
  · exact ⟨nofun, .inr ⟨rfl, rfl⟩⟩

theorem decimalText_of_decimal? {text : List Char} {d : Decimal} (hd : decimal? text = some d) :
    ∃ whole fraction e, DecimalText whole fraction e text ∧
      d = ⟨Nat.ofDigitChars 10 (whole ++ fraction) 0, e - fraction.length⟩ := by
  rw [Json.decimal?_eq] at hd
  obtain ⟨_, hguard, hd⟩ := Option.bind_eq_some_iff.mp hd
  obtain ⟨e, he, hd⟩ := Option.bind_eq_some_iff.mp hd
  obtain ⟨hfraction, hparts⟩ := takeFraction_parts (text.dropWhile Char.isDigit)
  have hsplit := List.takeWhile_append_dropWhile (p := Char.isDigit) (l := text)
  refine ⟨_, _, e, ⟨⟨allDigits_takeWhile text, hfraction⟩, (Option.guard_eq_some' _).mp hguard,
    _, exponent?_eq_some_iff.mp he, ?_⟩, (Option.some.inj hd).symm⟩
  · rcases hparts with hpoint | ⟨hnone, hrest⟩
    · left
      rw [List.append_assoc, ← hpoint, hsplit]
    · right
      rw [← hrest, hsplit]
      exact ⟨hnone, rfl⟩

theorem decimal?_of_decimalText {text whole fraction : List Char} {e : Int}
    (htext : DecimalText whole fraction e text) :
    decimal? text = some ⟨Nat.ofDigitChars 10 (whole ++ fraction) 0, e - fraction.length⟩ := by
  obtain ⟨tail, htail, hparts⟩ := htext.parts
  have hhead := head_exponentText htail
  have hexponent := exponent?_eq_some_iff.mpr htail
  rcases hparts with rfl | ⟨rfl, rfl⟩
  · have hpoint : ∀ c ∈ ('.' :: fraction ++ tail).head?, c.isDigit = false := by
      intro c hc
      cases hc
      rfl
    obtain ⟨htake, hdrop⟩ := Json.takeWhile_digits htext.digits.1 hpoint
    obtain ⟨htake', hdrop'⟩ := Json.takeWhile_digits htext.digits.2 fun c hc => (hhead c hc).2
    rw [List.append_assoc]
    apply Json.decimal?_eq_some htake _ htext.nonempty hexponent
    rw [hdrop]
    exact Prod.ext htake' hdrop'
  · obtain ⟨htake, hdrop⟩ := Json.takeWhile_digits htext.digits.1 fun c hc => (hhead c hc).2
    apply Json.decimal?_eq_some htake _ htext.nonempty hexponent
    rw [hdrop]
    exact @Json.takeFraction_fractionText none tail nofun hhead

theorem head_decimalText {text whole fraction : List Char} {e : Int}
    (htext : DecimalText whole fraction e text) :
    ∃ c rest, text = c :: rest ∧ (c = '.' ∨ c.isDigit) := by
  obtain ⟨tail, -, hparts⟩ := htext.parts
  cases whole with
  | cons c whole =>
      have hc : c = '.' ∨ c.isDigit := .inr (htext.digits.1 c List.mem_cons_self)
      rcases hparts with rfl | ⟨-, rfl⟩
      · exact ⟨c, _, rfl, hc⟩
      · exact ⟨c, _, rfl, hc⟩
  | nil =>
      rcases hparts with rfl | ⟨rfl, -⟩
      · exact ⟨'.', _, rfl, .inl rfl⟩
      · exact absurd rfl htext.nonempty

/-! ## Numerals -/

theorem exists_spells_of_ofChars? {text : List Char} {n : Numeral} (hn : ofChars? text = some n) :
    ∃ l, Spells text l ∧ l.numeral = n := by
  rcases htake : takeSign text with ⟨negative, body⟩
  obtain ⟨sign, hsign, rfl⟩ := exists_signText htake
  rw [ofChars?, htake] at hn
  dsimp only at hn
  split at hn
  · next hword =>
    rw [map_toLower_eq_iff rfl] at hword
    exact ⟨.nan, .nan hsign hword, Option.some.inj hn⟩
  · split at hn
    · next hword =>
      rw [map_toLower_eq_iff rfl, map_toLower_eq_iff rfl] at hword
      exact ⟨.infinity negative, .infinity hsign hword, Option.some.inj hn⟩
    · obtain ⟨d, hd, rfl⟩ := Option.map_eq_some_iff.mp hn
      obtain ⟨whole, fraction, e, htext, rfl⟩ := decimalText_of_decimal? hd
      exact ⟨.decimal negative whole fraction e, .decimal hsign htext, rfl⟩

theorem ofChars?_of_spells {text : List Char} {l : Literal} (htext : Spells text l) :
    ofChars? text = some l.numeral := by
  cases htext with
  | nan hsign hword =>
      rw [← map_toLower_eq_iff rfl] at hword
      have hhead := head_of_map_toLower rfl hword
      rw [ofChars?, takeSign_append hsign fun c hc => (hhead c hc).1]
      exact if_pos hword
  | @infinity negative sign word hsign hword =>
      rw [← map_toLower_eq_iff rfl, ← map_toLower_eq_iff rfl] at hword
      have hhead := hword.elim (head_of_map_toLower rfl) (head_of_map_toLower rfl)
      have hnan : word.map Char.toLower ≠ ['n', 'a', 'n'] := by
        rcases hword with hword | hword <;> rw [hword] <;> decide
      rw [ofChars?, takeSign_append hsign fun c hc => (hhead c hc).1]
      dsimp only
      rw [if_neg hnan]
      exact if_pos hword
  | @decimal negative sign whole fraction body e hsign htext =>
      obtain ⟨c, rest, rfl, hc⟩ := head_decimalText htext
      have hword : ∀ word, word.all Char.isLower →
          (c :: rest).map Char.toLower ≠ word := by
        intro word hlower hsame
        obtain ⟨-, hpoint, hdigit⟩ := head_of_map_toLower hlower hsame c rfl
        rcases hc with hc | hc
        · exact hpoint hc
        · exact Bool.false_ne_true (hdigit.symm.trans hc)
      have hhead : c ≠ '-' ∧ c ≠ '+' := by
        rcases hc with rfl | hc
        · decide
        · exact not_sign_of_isDigit hc
      rw [ofChars?, takeSign_append hsign fun d hd => by cases hd; exact hhead]
      dsimp only
      rw [if_neg (hword _ rfl),
        if_neg (not_or.mpr ⟨hword _ rfl, hword _ rfl⟩),
        decimal?_of_decimalText htext]
      rfl

/-- The texts that are read are those of the grammar. -/
theorem ofChars?_eq_some_iff {text : List Char} {n : Numeral} :
    ofChars? text = some n ↔ ∃ l, Spells text l ∧ l.numeral = n := by
  constructor
  · exact exists_spells_of_ofChars?
  · rintro ⟨l, htext, rfl⟩
    exact ofChars?_of_spells htext

end RewardPlot.Numeral
