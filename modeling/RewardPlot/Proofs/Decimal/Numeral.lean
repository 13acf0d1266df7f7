import RewardPlot.Proofs.Decimal.Rounding
import RewardPlot.Proofs.Json.Written
import RewardPlot.Proofs.Text.Splitting
import RewardPlot.Trace.Layout
/-!
# Numerals of written numbers

A number is written as the numeral of its shortest digits.  As a value of a trace it is read
back without loss, since these digits are rounded to the number they came from.
-/

namespace RewardPlot.Json

open Token Number

/-! ## The numeral of the parts of a number -/

theorem takeWhile_digits {ds rest : List Char} (hdigits : AllDigits ds)
    (hrest : ∀ c ∈ rest.head?, c.isDigit = false) :
    (ds ++ rest).takeWhile Char.isDigit = ds ∧ (ds ++ rest).dropWhile Char.isDigit = rest := by
  have hstop : rest.takeWhile Char.isDigit = [] ∧ rest.dropWhile Char.isDigit = rest := by
    cases rest with
    | nil => exact ⟨rfl, rfl⟩
    | cons c rest =>
        have hc := hrest c rfl
        simp [hc]
  rw [List.takeWhile_append_of_pos hdigits, List.dropWhile_append_of_pos hdigits, hstop.1, hstop.2,
    List.append_nil]
  exact ⟨rfl, rfl⟩

theorem exponent?_exponentText {e : Option (Bool × List Char)}
    (hdigits : ∀ x ∈ e, AllDigits x.2 ∧ x.2 ≠ []) :
    Numeral.exponent? (exponentText e) = some (exponentValue e) := by
  cases e with
  | none => rfl
  | some x =>
      obtain ⟨minus, ds⟩ := x
      obtain ⟨hds, hsome⟩ := hdigits _ rfl
      have hall : ds.all Char.isDigit = true := List.all_eq_true.mpr hds
      cases minus <;>
        simp [exponentText, Numeral.exponent?, Numeral.takeSign, exponentValue, hall, hsome]

/-- The digits behind a point, and what comes after them. -/
def takeFraction : List Char → List Char × List Char
  | '.' :: rest => (rest.takeWhile Char.isDigit, rest.dropWhile Char.isDigit)
  | rest => ([], rest)

theorem decimal?_eq (text : List Char) :
    Numeral.decimal? text = (do
      let whole := text.takeWhile Char.isDigit
      let parts := takeFraction (text.dropWhile Char.isDigit)
      guard (whole ++ parts.1 ≠ [])
      let exponent ← Numeral.exponent? parts.2
      return ⟨Nat.ofDigitChars 10 (whole ++ parts.1) 0, exponent - parts.1.length⟩) := rfl

/-- The digits on both sides of the point and the exponent make the decimal. -/
theorem decimal?_eq_some {text whole fraction rest : List Char} {e : Int}
    (hwhole : text.takeWhile Char.isDigit = whole)
    (hfraction : takeFraction (text.dropWhile Char.isDigit) = (fraction, rest))
    (hdigits : whole ++ fraction ≠ []) (hexponent : Numeral.exponent? rest = some e) :
    Numeral.decimal? text =
      some ⟨Nat.ofDigitChars 10 (whole ++ fraction) 0, e - fraction.length⟩ := by
  have hguard : (guard (whole ++ fraction ≠ []) : Option Unit) = some () := if_pos hdigits
  rw [decimal?_eq, hwhole, hfraction]
  dsimp only
  rw [hguard, hexponent]
  rfl

theorem takeFraction_fractionText {fraction : Option (List Char)} {rest : List Char}
    (hfraction : ∀ ds ∈ fraction, AllDigits ds)
    (hrest : ∀ c ∈ rest.head?, c ≠ '.' ∧ c.isDigit = false) :
    takeFraction (fractionText fraction ++ rest) = (fraction.getD [], rest) := by
  cases fraction with
  | some ds =>
      obtain ⟨htake, hdrop⟩ := takeWhile_digits (hfraction ds rfl) fun c hc => (hrest c hc).2
      exact Prod.ext htake hdrop
  | none =>
      cases rest with
      | nil => rfl
      | cons c rest =>
          have hpoint := (hrest c rfl).1
          simp [fractionText, takeFraction, hpoint]

theorem decimal?_partsText {p : Parts} (hp : WellFormed p) :
    Numeral.decimal? (partsText p) = some (partsDecimal p) := by
  have hexponent : ∀ c ∈ (exponentText p.exponent).head?, c ≠ '.' ∧ c.isDigit = false := by
    intro c hc
    rcases hwritten : p.exponent with - | e <;> rw [hwritten] at hc <;> cases hc
    exact ⟨by decide, rfl⟩
  have hafter : ∀ c ∈ (fractionText p.fraction ++ exponentText p.exponent).head?,
      c.isDigit = false := by
    cases hfraction : p.fraction with
    | none => exact fun c hc => (hexponent c hc).2
    | some ds =>
        intro c hc
        cases hc
        rfl
  obtain ⟨hwhole, hdrop⟩ := takeWhile_digits hp.whole.1 hafter
  have hfraction := takeFraction_fractionText (fun ds hds => (hp.fraction ds hds).1) hexponent
  rw [← hdrop] at hfraction
  apply decimal?_eq_some hwhole hfraction
  · exact List.append_ne_nil_of_left_ne_nil hp.whole.2 _
  · exact exponent?_exponentText hp.exponent

theorem toLower_of_isDigit {c : Char} (hc : c.isDigit) : c.toLower = c := by
  obtain ⟨-, hhigh⟩ := Char.isDigit_iff_toNat.mp hc
  have hhigh : c.val.toNat ≤ 57 := hhigh
  unfold Char.toLower
  apply dif_neg
  rintro ⟨hupper, -⟩
  have hupper : 65 ≤ c.val.toNat := hupper
  omega

theorem takeSign_numberText (minus : Bool) {p : Parts} (hp : WellFormed p) :
    Numeral.takeSign (numberText minus p) = (minus, partsText p) := by
  obtain ⟨c, ds, hwhole⟩ := List.exists_cons_of_ne_nil hp.whole.2
  have hc : c.isDigit := hp.whole.1 c (by simp [hwhole])
  have hne : ∀ d : Char, d.isDigit = false → c ≠ d := by
    rintro d hd rfl
    rw [hc] at hd
    cases hd
  cases minus with
  | true => rfl
  | false =>
      show Numeral.takeSign (partsText p) = _
      rw [partsText, hwhole, List.cons_append, Numeral.takeSign.eq_def]
      split
      · next h =>
        cases h
        exact absurd rfl (hne '-' rfl)
      · next h =>
        cases h
        exact absurd rfl (hne '+' rfl)
      · rfl

theorem ofChars?_numberText (minus : Bool) {p : Parts} (hp : WellFormed p) :
    Numeral.ofChars? (numberText minus p) = some (.decimal minus (partsDecimal p)) := by
  obtain ⟨c, ds, hwhole⟩ := List.exists_cons_of_ne_nil hp.whole.2
  have hc : c.isDigit := hp.whole.1 c (by simp [hwhole])
  have hword : ∀ d word, d.isDigit = false → (partsText p).map Char.toLower ≠ d :: word := by
    intro d word hd hsame
    rw [partsText, hwhole, List.cons_append, List.map_cons, toLower_of_isDigit hc] at hsame
    cases hsame
    rw [hc] at hd
    cases hd
  rw [Numeral.ofChars?, takeSign_numberText minus hp]
  dsimp only
  rw [if_neg (hword _ _ rfl), if_neg (not_or.mpr ⟨hword _ _ rfl, hword _ _ rfl⟩),
    decimal?_partsText hp]
  rfl

/-! ## The characters of a number -/

theorem mem_partsText {p : Parts} (hp : WellFormed p) {c : Char} (hc : c ∈ partsText p) :
    c.isDigit ∨ c ∈ ['-', '+', '.', 'e'] := by
  obtain ⟨whole, fraction, exponent⟩ := p
  simp only [partsText, List.mem_append] at hc
  rcases hc with hc | hc | hc
  · exact .inl (hp.whole.1 c hc)
  · cases fraction with
    | none => simp [fractionText] at hc
    | some ds =>
        rcases List.mem_cons.mp hc with rfl | hc
        · simp
        · exact .inl ((hp.fraction ds rfl).1 c hc)
  · cases exponent with
    | none => simp [exponentText] at hc
    | some e =>
        obtain ⟨minus, ds⟩ := e
        simp only [exponentText, List.mem_cons] at hc
        rcases hc with rfl | rfl | hc
        · simp
        · cases minus <;> simp
        · exact .inl ((hp.exponent _ rfl).1 c hc)

theorem mem_numberText {minus : Bool} {p : Parts} (hp : WellFormed p) {c : Char}
    (hc : c ∈ numberText minus p) : c.isDigit ∨ c ∈ ['-', '+', '.', 'e'] := by
  cases minus with
  | true =>
      rcases List.mem_cons.mp hc with rfl | hc
      · simp
      · exact mem_partsText hp hc
  | false => exact mem_partsText hp hc

/-- A number is written without white space and without the marks between items. -/
theorem not_isBlank_of_mem_numberText {minus : Bool} {p : Parts} (hp : WellFormed p) {c : Char}
    (hc : c ∈ numberText minus p) : Text.isBlank c = false ∧ c ≠ ',' := by
  rcases mem_numberText hp hc with hdigit | hmark
  · obtain ⟨hlow, hhigh⟩ := Char.isDigit_iff_toNat.mp hdigit
    have hlow : 48 ≤ c.toNat := hlow
    have hhigh : c.toNat ≤ 57 := hhigh
    constructor
    · simp [Text.isBlank, Text.blankRanges]
      omega
    · rintro rfl
      cases hdigit
  · simp only [List.mem_cons, List.not_mem_nil, or_false] at hmark
    rcases hmark with rfl | rfl | rfl | rfl <;> decide

/-! ## Written numbers as values of a trace -/

/-- The parts of a magnitude are rounded to the magnitude. -/
theorem toBinary64_magnitudeParts (minus : Bool) (m : Magnitude) :
    (partsDecimal (magnitudeParts m)).toBinary64 minus = .finite minus m := by
  apply Decimal.toBinary64_of_nearestUnits
  rw [magnitudeParts]
  split
  · next hzero =>
    rw [hzero]
    decide +kernel
  · next hunits =>
    have hstands := Decimal.shortest_standsFor .even (by omega) m.representable.2
    rw [partsDecimal_decimalParts hstands.positive, nearestUnits_keptOf]
    exact hstands.rounds

/-- What is written for a finite number is read as that number. -/
theorem readField_written {x : Binary64} (hfinite : x.isFinite) :
    Trace.readField (x.written Decimal.dataStyle) = some x := by
  cases x with
  | finite minus m =>
      have hparts := magnitudeParts_wellFormed m
      have htrim : Text.trim (numberText minus (magnitudeParts m)) =
          numberText minus (magnitudeParts m) :=
        Text.trimBy_eq_self fun c hc => (not_isBlank_of_mem_numberText hparts hc).1
      rw [written_finite, Trace.readField, htrim, ofChars?_numberText minus hparts]
      exact congrArg some (toBinary64_magnitudeParts minus m)
  | nan => cases hfinite
  | infinite minus => cases hfinite

end RewardPlot.Json

namespace RewardPlot.Numeral

open Json (takeFraction)
open Json.Token (AllDigits)

/-! ## The characters of a numeral -/

/-- Texts of ASCII characters. -/
def Ascii (text : List Char) : Prop := ∀ c ∈ text, c.toNat < 0x80

theorem ascii_of_isDigit {ds : List Char} (hdigits : AllDigits ds) : Ascii ds := by
  intro c hc
  obtain ⟨-, hhigh⟩ := Char.isDigit_iff_toNat.mp (hdigits c hc)
  have hhigh : c.toNat ≤ 57 := hhigh
  omega

theorem Ascii.append {front back : List Char} (hfront : Ascii front) (hback : Ascii back) :
    Ascii (front ++ back) := by
  intro c hc
  exact (List.mem_append.mp hc).elim (hfront c) (hback c)

theorem ascii_of_takeSign {text : List Char} (hrest : Ascii (takeSign text).2) :
    Ascii text := by
  unfold takeSign at hrest
  split at hrest
  · exact List.forall_mem_cons.mpr ⟨by decide, hrest⟩
  · exact List.forall_mem_cons.mpr ⟨by decide, hrest⟩
  · exact hrest

theorem ascii_of_takeWhile {text : List Char} (hrest : Ascii (text.dropWhile Char.isDigit)) :
    Ascii text := by
  have hdigits : AllDigits (text.takeWhile Char.isDigit) := fun c hc => List.mem_takeWhile_imp hc
  have happend := (ascii_of_isDigit hdigits).append hrest
  rwa [List.takeWhile_append_dropWhile] at happend

theorem ascii_of_takeFraction {text : List Char} (hrest : Ascii (takeFraction text).2) :
    Ascii text := by
  unfold takeFraction at hrest
  split at hrest
  · exact List.forall_mem_cons.mpr ⟨by decide, ascii_of_takeWhile hrest⟩
  · exact hrest

theorem ascii_of_exponent? {text : List Char} {e : Int} (he : exponent? text = some e) :
    Ascii text := by
  cases text with
  | nil => exact fun c hc => absurd hc List.not_mem_nil
  | cons c text =>
      rw [exponent?] at he
      dsimp only at he
      split at he
      · next h =>
        obtain ⟨hc, -, hdigits⟩ := h
        refine List.forall_mem_cons.mpr ⟨?_, ?_⟩
        · rcases hc with rfl | rfl <;> decide
        · exact ascii_of_takeSign (ascii_of_isDigit (List.all_eq_true.mp hdigits))
      · cases he

theorem ascii_of_decimal? {text : List Char} {d : Decimal}
    (hd : decimal? text = some d) : Ascii text := by
  rw [Json.decimal?_eq] at hd
  obtain ⟨-, -, hd⟩ := Option.bind_eq_some_iff.mp hd
  obtain ⟨e, he, -⟩ := Option.bind_eq_some_iff.mp hd
  exact ascii_of_takeWhile (ascii_of_takeFraction (ascii_of_exponent? he))

theorem toNat_lt_of_toLower {c : Char} (hc : c.toLower.toNat < 0x80) : c.toNat < 0x80 := by
  unfold Char.toLower at hc
  split at hc
  · next hupper =>
    have hhigh : c.toNat ≤ 90 := hupper.2
    omega
  · exact hc

theorem ascii_of_toLower {text : List Char} (hlower : Ascii (text.map Char.toLower)) :
    Ascii text :=
  fun _ hc => toNat_lt_of_toLower (hlower _ (List.mem_map_of_mem hc))

/-- Numerals are written in ASCII. -/
theorem ascii_of_ofChars? {text : List Char} {n : Numeral} (hn : ofChars? text = some n) :
    Ascii text := by
  apply ascii_of_takeSign
  rw [ofChars?] at hn
  dsimp only at hn
  split at hn
  · next hword =>
    apply ascii_of_toLower
    rw [hword]
    simp [Ascii]
  · split at hn
    · next hword =>
      apply ascii_of_toLower
      rcases hword with hword | hword <;> simp [Ascii, hword]
    · obtain ⟨d, hd, -⟩ := Option.map_eq_some_iff.mp hn
      exact ascii_of_decimal? hd

end RewardPlot.Numeral
