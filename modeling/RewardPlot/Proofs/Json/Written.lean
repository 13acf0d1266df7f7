import RewardPlot.Proofs.Json.Number
import RewardPlot.Proofs.Json.Token
/-!
# Reading written numbers

The parts of a written number, and what is read from them.
-/

namespace RewardPlot.Json

open Number Token Decimal

/-! ## Digits -/

theorem allDigits_digits (n : Nat) : AllDigits (digits n) :=
  fun _ hc => Nat.isDigit_of_mem_toDigits (by decide) (by decide) hc

theorem digits_ne_nil (n : Nat) : digits n ≠ [] := Nat.toDigits_ne_nil

theorem allDigits_zeros (n : Nat) : AllDigits (List.replicate n '0') := by
  intro c hc
  rw [(List.mem_replicate.mp hc).2]
  rfl

theorem head_digits {n : Nat} (hn : 0 < n) : ∃ c cs, digits n = c :: cs ∧ c ≠ '0' := by
  induction n using Nat.strongRecOn with
  | ind n ih =>
      by_cases hsmall : n < 10
      · refine ⟨n.digitChar, [], Nat.toDigits_of_lt_base hsmall, ?_⟩
        have hall : ∀ k < 10, 0 < k → Nat.digitChar k ≠ '0' := by decide
        exact hall n hsmall hn
      · obtain ⟨c, cs, hdigits, hc⟩ := ih (n / 10) (by omega) (by omega)
        refine ⟨c, cs ++ [Nat.digitChar (n % 10)], ?_, hc⟩
        rw [digits, Nat.toDigits_of_base_le (by decide) (by omega)]
        rw [digits] at hdigits
        rw [hdigits]
        rfl

theorem length_digits {n : Nat} (hn : 0 < n) : (digits n).length = width n := by
  rw [width, if_neg (by omega), digits]

theorem ofDigitChars_digits (n : Nat) : Nat.ofDigitChars 10 (digits n) 0 = n :=
  Nat.ofDigitChars_ten_toDigits

/-! ## What parts denote -/

/-- The exponent that is written after digits. -/
def exponentValue : Option (Bool × List Char) → Int
  | none => 0
  | some (true, ds) => -Nat.ofDigitChars 10 ds 0
  | some (false, ds) => Nat.ofDigitChars 10 ds 0

/-- The decimal that the parts of a number denote. -/
def partsDecimal (p : Parts) : Decimal :=
  ⟨Nat.ofDigitChars 10 (p.whole ++ p.fraction.getD []) 0,
    exponentValue p.exponent - (p.fraction.getD []).length⟩

/-- Where no digit is dropped, a number that is not whole is read from the decimal that its
parts denote. -/
theorem ofParts?_eq {minus : Bool} {p : Parts} (hplaces : p.fraction ≠ none ∨ p.exponent ≠ none)
    (hfits : (partsDecimal p).significand < wordLimit)
    (hsize : ∀ e ∈ p.exponent, Nat.ofDigitChars 10 e.2 0 ≤ longestExponent) :
    ofParts? minus p =
      (scale? ⟨(partsDecimal p).significand, (partsDecimal p).exponent⟩).map
        fun x => .real (withSign minus x) := by
  have hkept : keepFraction (keepWhole 0 p.whole) (p.fraction.getD []) =
      ⟨(partsDecimal p).significand, -(p.fraction.getD []).length⟩ := keepFraction_keepWhole hfits
  have hscale : withExponent?
      ⟨(partsDecimal p).significand, -(p.fraction.getD []).length⟩ p.exponent =
        scale? ⟨(partsDecimal p).significand, (partsDecimal p).exponent⟩ := by
    have hexponent : (partsDecimal p).exponent =
        exponentValue p.exponent - (p.fraction.getD []).length := rfl
    rw [hexponent]
    rcases hwritten : p.exponent with - | ⟨- | -, ds⟩
    · rw [withExponent?, exponentValue, Int.zero_sub]
    · have hds := Nat.not_lt.mpr (hsize _ hwritten)
      rw [withExponent?, if_neg hds, if_neg Bool.false_ne_true, exponentValue]
      congr 2
      dsimp only
      omega
    · have hds := Nat.not_lt.mpr (hsize _ hwritten)
      rw [withExponent?, if_neg hds, if_pos rfl, exponentValue]
      congr 2
      dsimp only
      omega
  rw [ofParts?]
  rw [if_neg (fun hwhole => hplaces.elim (absurd hwhole.1) (absurd hwhole.2.1)), hkept, hscale]

/-! ## Whole numbers -/

def countParts (n : Nat) : Parts := ⟨digits n, none, none⟩

theorem countParts_wellFormed (n : Nat) : WellFormed (countParts n) := by
  refine ⟨⟨allDigits_digits n, digits_ne_nil n⟩, ?_, by simp [countParts], by simp [countParts]⟩
  intro ds hds
  rcases Nat.eq_zero_or_pos n with rfl | hn
  · rw [countParts, digits, Nat.toDigits_zero] at hds
    cases hds
    rfl
  · obtain ⟨c, cs, hdigits, hc⟩ := head_digits hn
    rw [countParts, hdigits] at hds
    cases hds
    exact absurd rfl hc

theorem ofParts?_countParts {n : Nat} (hn : n < wordLimit) :
    ofParts? false (countParts n) = some (.natural n) := by
  have hkept : keepWhole 0 (countParts n).whole = ⟨n, 0⟩ := by
    rw [countParts, keepWhole_of_lt (by rwa [ofDigitChars_digits]), ofDigitChars_digits]
  rw [ofParts?, hkept]
  exact if_pos ⟨rfl, rfl, rfl⟩

theorem scans_count {n : Nat} (hn : n < wordLimit) :
    Scans EndsNumber (digits n) [.number (some (.natural n))] := by
  have hscans := scans_number false (countParts_wellFormed n)
  rw [ofParts?_countParts hn] at hscans
  have htext : numberText false (countParts n) = digits n := List.append_nil _
  rwa [htext] at hscans

/-! ## Decimals that are written out -/

def wholeParts (d : Decimal) : Parts :=
  ⟨digits d.significand ++ List.replicate d.exponent.toNat '0', some ['0'], none⟩

/-- The digits of a decimal with zeros before them, up to one before the point. -/
def padded (d : Decimal) : List Char :=
  List.replicate ((-d.exponent).toNat + 1 - (digits d.significand).length) '0' ++
    digits d.significand

/-- The parts of a decimal with places after the point that is written out. -/
def pointParts (d : Decimal) : Parts :=
  ⟨(padded d).take ((padded d).length - (-d.exponent).toNat),
    some ((padded d).drop ((padded d).length - (-d.exponent).toNat)), none⟩

theorem allDigits_padded (d : Decimal) : AllDigits (padded d) :=
  (allDigits_zeros _).append (allDigits_digits _)

theorem lt_length_padded (d : Decimal) : (-d.exponent).toNat < (padded d).length := by
  rw [padded, List.length_append, List.length_replicate]
  omega

theorem wholeParts_wellFormed {d : Decimal} (hd : 0 < d.significand) :
    WellFormed (wholeParts d) := by
  obtain ⟨c, cs, hdigits, hc⟩ := head_digits hd
  refine ⟨⟨(allDigits_digits _).append (allDigits_zeros _), ?_⟩, ?_, ?_, by simp [wholeParts]⟩
  · rw [wholeParts, hdigits]
    exact List.cons_ne_nil _ _
  · intro ds hds
    rw [wholeParts, hdigits] at hds
    cases hds
    exact absurd rfl hc
  · intro ds hds
    cases hds
    exact ⟨allDigits_zeros 1, List.cons_ne_nil _ _⟩

theorem pointParts_wellFormed {d : Decimal} (hd : 0 < d.significand) (hexponent : d.exponent < 0) :
    WellFormed (pointParts d) := by
  have hlength := lt_length_padded d
  refine ⟨⟨fun c hc => allDigits_padded d c (List.mem_of_mem_take hc), ?_⟩, ?_, ?_,
    by simp [pointParts]⟩
  · rw [pointParts, ← List.length_pos_iff, List.length_take]
    omega
  · intro ds hds
    by_cases hzeros : (digits d.significand).length ≤ (-d.exponent).toNat
    · have hone := congrArg List.length hds
      have hpadded : (padded d).length = (-d.exponent).toNat + 1 := by
        rw [padded, List.length_append, List.length_replicate]
        omega
      rw [pointParts, List.length_take, List.length_cons, hpadded] at hone
      exact List.length_eq_zero_iff.mp (by omega)
    · obtain ⟨c, cs, hdigits, hc⟩ := head_digits hd
      have hpadded : padded d = c :: cs := by
        rw [padded, show (-d.exponent).toNat + 1 - (digits d.significand).length = 0 by omega,
          hdigits]
        rfl
      obtain ⟨n, hn⟩ : ∃ n, (padded d).length - (-d.exponent).toNat = n + 1 :=
        ⟨(padded d).length - (-d.exponent).toNat - 1, by omega⟩
      rw [pointParts, hn, hpadded, List.take_succ_cons] at hds
      cases hds
      exact absurd rfl hc
  · intro ds hds
    cases hds
    refine ⟨fun c hc => allDigits_padded d c (List.mem_of_mem_drop hc), ?_⟩
    rw [← List.length_pos_iff, List.length_drop]
    omega

theorem partsDecimal_wholeParts (d : Decimal) :
    partsDecimal (wholeParts d) = ⟨d.significand * 10 ^ (d.exponent.toNat + 1), -1⟩ := by
  have hdigits : Nat.ofDigitChars 10
      (digits d.significand ++ List.replicate d.exponent.toNat '0' ++ ['0']) 0 =
        d.significand * 10 ^ (d.exponent.toNat + 1) := by
    rw [Nat.ofDigitChars_append, Nat.ofDigitChars_append, ofDigitChars_digits,
      Nat.ofDigitChars_replicate_zero]
    show 10 * (10 ^ d.exponent.toNat * d.significand) + 0 = _
    rw [Nat.pow_succ]
    grind
  exact congrArg (Decimal.mk · (-1)) hdigits

theorem partsDecimal_pointParts {d : Decimal} (hexponent : d.exponent < 0) :
    partsDecimal (pointParts d) = d := by
  have hlength := lt_length_padded d
  have hdigits : Nat.ofDigitChars 10
      ((padded d).take ((padded d).length - (-d.exponent).toNat) ++
        (padded d).drop ((padded d).length - (-d.exponent).toNat)) 0 = d.significand := by
    rw [List.take_append_drop, padded, Nat.ofDigitChars_append, Nat.ofDigitChars_replicate_zero,
      Nat.mul_zero, ofDigitChars_digits]
  have hplaces : 0 - (((padded d).drop ((padded d).length - (-d.exponent).toNat)).length : Int) =
      d.exponent := by
    rw [List.length_drop]
    omega
  exact congrArg₂ Decimal.mk hdigits hplaces

/-! ## Decimals with an exponent -/

def scientificParts (d : Decimal) : Parts :=
  ⟨(digits d.significand).take 1,
    if (digits d.significand).drop 1 = [] then none else some ((digits d.significand).drop 1),
    some (d.firstPlace < 0, digits d.firstPlace.natAbs)⟩

theorem scientificParts_wellFormed {d : Decimal} (hd : 0 < d.significand) :
    WellFormed (scientificParts d) := by
  obtain ⟨c, cs, hdigits, hc⟩ := head_digits hd
  have hall := allDigits_digits d.significand
  refine ⟨⟨fun c hc => hall c (List.mem_of_mem_take hc), ?_⟩, ?_, ?_, ?_⟩
  · rw [scientificParts, hdigits]
    exact List.cons_ne_nil _ _
  · intro ds hds
    rw [scientificParts, hdigits] at hds
    cases hds
    rfl
  · intro ds hds
    rw [scientificParts] at hds
    dsimp only at hds
    split at hds
    · cases hds
    · next hsome =>
      cases hds
      exact ⟨fun c hc => hall c (List.mem_of_mem_drop hc), hsome⟩
  · intro e he
    cases he
    exact ⟨allDigits_digits _, digits_ne_nil _⟩

theorem partsDecimal_scientificParts {d : Decimal} (hd : 0 < d.significand) :
    partsDecimal (scientificParts d) = d := by
  have hpos := width_pos hd
  have hfirst : d.firstPlace = (width d.significand : Int) + d.exponent - 1 := rfl
  have hfraction : (scientificParts d).fraction.getD [] = (digits d.significand).drop 1 := by
    rw [scientificParts]
    split
    · next hnone => exact hnone.symm
    · rfl
  have hdigits : Nat.ofDigitChars 10
      ((scientificParts d).whole ++ (scientificParts d).fraction.getD []) 0 = d.significand := by
    rw [hfraction]
    show Nat.ofDigitChars 10 ((digits d.significand).take 1 ++ (digits d.significand).drop 1) 0 = _
    rw [List.take_append_drop, ofDigitChars_digits]
  have hexponent : exponentValue (scientificParts d).exponent = d.firstPlace := by
    show exponentValue (some (decide (d.firstPlace < 0), digits d.firstPlace.natAbs)) = _
    by_cases hneg : d.firstPlace < 0
    · rw [decide_eq_true hneg, exponentValue, ofDigitChars_digits]
      omega
    · rw [decide_eq_false hneg, exponentValue, ofDigitChars_digits]
      omega
  have hplaces : exponentValue (scientificParts d).exponent -
      ((scientificParts d).fraction.getD []).length = d.exponent := by
    rw [hexponent, hfraction, List.length_drop, length_digits hd]
    omega
  exact congrArg₂ Decimal.mk hdigits hplaces

/-! ## Sums -/

/-- The parts of a positive decimal as data are written. -/
def decimalParts (d : Decimal) : Parts :=
  if -5 ≤ d.firstPlace ∧ d.firstPlace ≤ 15 then
    if 0 ≤ d.exponent then wholeParts d else pointParts d
  else scientificParts d

theorem positional_of_neg {d : Decimal} (hexponent : d.exponent < 0) :
    d.positional = partsText (pointParts d) := by
  have hnone : partsText (pointParts d) =
      (pointParts d).whole ++ fractionText (pointParts d).fraction :=
    congrArg _ (List.append_nil _)
  rw [hnone, positional, if_neg (by omega)]
  rfl

theorem scientific_eq (d : Decimal) : d.scientific = partsText (scientificParts d) := by
  have hsign : (if d.firstPlace < 0 then '-' else '+') =
      if decide (d.firstPlace < 0) then '-' else '+' := by
    simp only [decide_eq_true_eq]
  rw [scientific, scientificParts, partsText, exponentText, ← hsign]
  generalize hdigits : digits d.significand = ds
  rcases ds with - | ⟨first, - | ⟨second, more⟩⟩
  · exact absurd hdigits (digits_ne_nil _)
  · rfl
  · rfl

theorem written_dataStyle (d : Decimal) : d.written dataStyle = partsText (decimalParts d) := by
  simp only [Decimal.written, decimalParts, dataStyle, decide_eq_true_eq, true_and]
  by_cases hplace : -5 ≤ d.firstPlace ∧ d.firstPlace ≤ 15
  · rw [if_pos hplace, if_pos hplace]
    by_cases hexponent : 0 ≤ d.exponent
    · rw [if_pos hexponent, if_pos hexponent, positional, if_pos hexponent]
      rfl
    · rw [if_neg hexponent, if_neg hexponent, List.append_nil]
      exact positional_of_neg (by omega)
  · rw [if_neg hplace, if_neg hplace]
    exact scientific_eq d

theorem decimalParts_wellFormed {d : Decimal} (hd : 0 < d.significand) :
    WellFormed (decimalParts d) := by
  rw [decimalParts]
  split
  · split
    · exact wholeParts_wellFormed hd
    · exact pointParts_wellFormed hd (by omega)
  · exact scientificParts_wellFormed hd

theorem firstPlace_le_of_standsFor {d : Decimal} {units : Nat} (h : d.StandsFor units)
    (hunits : 0 < units) (hlimit : units < Magnitude.limit) :
    d.firstPlace.natAbs ≤ longestExponent := by
  have hexponent := exponent_le_of_standsFor h hlimit
  have hplace := h.place
  have hleading := neg_le_leadingPlace hunits
  have hwidth : width d.significand ≤ 18 :=
    width_le_iff.mpr (Nat.lt_of_le_of_lt h.short (by decide))
  rw [firstPlace, longestExponent]
  rw [largestPower] at hexponent
  omega

/-- The parts of a written decimal denote the digits that are kept of it and their power. -/
theorem partsDecimal_decimalParts {d : Decimal} (hd : 0 < d.significand) :
    partsDecimal (decimalParts d) = ⟨(keptOf d).significand, (keptOf d).exponent⟩ := by
  have hpos := width_pos hd
  have hfirst : d.firstPlace = (width d.significand : Int) + d.exponent - 1 := rfl
  rw [decimalParts, keptOf]
  split
  · next hplace =>
    split
    · next hexponent =>
      rw [if_pos ⟨hexponent, hplace.2⟩]
      exact partsDecimal_wholeParts d
    · next hexponent =>
      rw [if_neg fun h => hexponent h.1]
      exact partsDecimal_pointParts (by omega)
  · next hplace =>
    rw [if_neg (by omega)]
    exact partsDecimal_scientificParts hd

theorem significand_keptOf_lt {d : Decimal} (hshort : d.significand ≤ 10 ^ 17) :
    (keptOf d).significand < wordLimit := by
  rw [keptOf]
  split
  · next hwhole =>
    have hwidth := lt_pow_width d.significand
    have hplace := hwhole.2
    rw [firstPlace] at hplace
    calc d.significand * 10 ^ (d.exponent.toNat + 1)
        < 10 ^ width d.significand * 10 ^ (d.exponent.toNat + 1) :=
          Nat.mul_lt_mul_of_pos_right hwidth (Nat.pow_pos (by decide))
      _ = 10 ^ (width d.significand + (d.exponent.toNat + 1)) := (Nat.pow_add _ _ _).symm
      _ ≤ 10 ^ 17 := Nat.pow_le_pow_right (by decide) (by omega)
      _ < wordLimit := by decide
  · exact Nat.lt_of_le_of_lt hshort (by decide)

theorem exponent_decimalParts_le {d : Decimal} (hplace : d.firstPlace.natAbs ≤ longestExponent) :
    ∀ e ∈ (decimalParts d).exponent, Nat.ofDigitChars 10 e.2 0 ≤ longestExponent := by
  intro e he
  rw [decimalParts] at he
  split at he
  · split at he <;> cases he
  · cases he
    rwa [ofDigitChars_digits]

theorem decimalParts_places (d : Decimal) :
    (decimalParts d).fraction ≠ none ∨ (decimalParts d).exponent ≠ none := by
  rw [decimalParts]
  split
  · split <;> exact .inl (Option.some_ne_none _)
  · exact .inr (Option.some_ne_none _)

theorem ofParts?_decimalParts {d : Decimal} {units : Nat} (minus : Bool) (h : d.StandsFor units)
    (hunits : 0 < units) (hlimit : units < Magnitude.limit) :
    ofParts? minus (decimalParts d) =
      (scale? (keptOf d)).map fun x => .real (withSign minus x) := by
  have hdecimal := partsDecimal_decimalParts h.positive
  have hfits : (partsDecimal (decimalParts d)).significand < wordLimit := by
    rw [hdecimal]
    exact significand_keptOf_lt h.short
  have hsize := exponent_decimalParts_le (firstPlace_le_of_standsFor h hunits hlimit)
  rw [ofParts?_eq (decimalParts_places d) hfits hsize, hdecimal]

def magnitudeParts (m : Magnitude) : Parts :=
  if m.units = 0 then ⟨['0'], some ['0'], none⟩ else decimalParts (shortest .even m.units)

theorem written_finite (minus : Bool) (m : Magnitude) :
    (Binary64.finite minus m).written dataStyle =
      numberText minus (magnitudeParts m) := by
  rw [Binary64.written, magnitudeParts]
  by_cases hzero : m.units = 0
  · rw [if_pos hzero, if_pos hzero]
    rfl
  · rw [if_neg hzero, if_neg hzero]
    show Binary64.withSign minus ((shortest .even m.units).written dataStyle) = _
    rw [written_dataStyle]
    rfl

/-- What a number is read as after it was written: one product or quotient with a power of
ten puts the shortest digits in their place. -/
def reread : Binary64 → Binary64
  | .finite minus m =>
    if m.units = 0 then .finite minus m
    else withSign minus (keptOf (shortest .even m.units)).value
  | x => x

theorem magnitudeParts_wellFormed (m : Magnitude) : WellFormed (magnitudeParts m) := by
  rw [magnitudeParts]
  by_cases hzero : m.units = 0
  · rw [if_pos hzero]
    refine ⟨⟨allDigits_zeros 1, List.cons_ne_nil _ _⟩, ?_, ?_, by simp⟩
    · intro ds hds
      cases hds
      rfl
    · intro ds hds
      cases hds
      exact ⟨allDigits_zeros 1, List.cons_ne_nil _ _⟩
  · rw [if_neg hzero]
    exact decimalParts_wellFormed
      (shortest_standsFor .even (by omega) m.representable.2).positive

theorem value_zero : (Kept.mk 0 (-1)).value = .zero false := by decide +kernel

theorem withSign_zero (minus : Bool) {m : Magnitude} (hzero : m.units = 0) :
    withSign minus (.zero false) = .finite minus m := by
  obtain ⟨units, hrepresentable⟩ := m
  subst hzero
  cases minus <;> rfl

theorem ofParts?_magnitudeParts (minus : Bool) (m : Magnitude) :
    ofParts? minus (magnitudeParts m) = some (.real (reread (.finite minus m))) := by
  rw [magnitudeParts, reread]
  by_cases hzero : m.units = 0
  · have hparts : ofParts? minus ⟨['0'], some ['0'], none⟩ =
        (scale? ⟨0, -1⟩).map fun x => .real (withSign minus x) :=
      ofParts?_eq (.inl (Option.some_ne_none _)) (by decide) (by simp)
    rw [if_pos hzero, if_pos hzero, hparts, scale?_of_neg (show (-1 : Int) < 0 by decide),
      value_zero, Option.map_some, withSign_zero minus hzero]
  · have hunits : 0 < m.units := by omega
    rw [if_neg hzero, if_neg hzero,
      ofParts?_decimalParts minus (shortest_standsFor .even hunits m.representable.2) hunits
        m.representable.1, scale?_shortest hunits m.representable]
    rfl

theorem reread_ne_nan {x : Binary64} (hfinite : x.isFinite) : reread x ≠ .nan := by
  cases x with
  | finite minus m =>
      rw [reread]
      split
      · simp
      · next hunits =>
        have hvalue := scale?_ne_nan (scale?_shortest (by omega) m.representable)
        unfold withSign
        generalize (keptOf (shortest .even m.units)).value = y at hvalue
        cases minus <;> cases y <;> first | exact hvalue | exact nofun
  | nan => cases hfinite
  | infinite minus => cases hfinite

/-- A finite number that is written gives the token of the number it is read as. -/
theorem scans_written {x : Binary64} (hfinite : x.isFinite) :
    Scans EndsNumber (x.written dataStyle) [.number (some (.real (reread x)))] := by
  cases x with
  | finite minus m =>
      have hscans := scans_number minus (magnitudeParts_wellFormed m)
      rwa [ofParts?_magnitudeParts, ← written_finite] at hscans
  | nan => cases hfinite
  | infinite minus => cases hfinite

/-! ## Numbers that come back -/

/-- A number whose shortest digits and whose power of ten are numbers of the format. -/
def HasExactParts : Binary64 → Prop
  | .finite _ m => (keptOf (shortest .even m.units)).Exact
  | _ => False

theorem nearestUnits_keptOf (d : Decimal) :
    (Decimal.mk (keptOf d).significand (keptOf d).exponent).nearestUnits = d.nearestUnits := by
  rw [keptOf]
  split
  · next hwhole =>
    have hnum : (Decimal.mk (d.significand * 10 ^ (d.exponent.toNat + 1)) (-1)).num =
        d.num * 10 := by
      rw [num, num, Nat.pow_succ, ← Nat.mul_assoc]
      exact Nat.mul_one _
    have hden : (Decimal.mk (d.significand * 10 ^ (d.exponent.toNat + 1)) (-1)).den =
        d.den * 10 := by
      rw [den, den, show (-d.exponent).toNat = 0 by omega]
      rfl
    rw [nearestUnits, nearestUnits, hnum, hden, ← Nat.mul_assoc]
    exact Magnitude.nearest_mul_right _ _ (by decide)
  · rfl

theorem reread_eq_self {x : Binary64} (hexact : HasExactParts x) : reread x = x := by
  cases x with
  | finite minus m =>
      rw [reread]
      split
      · rfl
      · next hunits =>
        have hrounds := (shortest_standsFor .even (by omega) m.representable.2).rounds
        rw [← nearestUnits_keptOf] at hrounds
        rw [value_of_exact hexact hrounds]
        cases minus <;> rfl
  | nan => cases hexact
  | infinite minus => cases hexact

end RewardPlot.Json
