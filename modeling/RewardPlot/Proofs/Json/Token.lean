import RewardPlot.Json.Token
import RewardPlot.Proofs.Text.Utf8
import Mathlib.Data.List.TakeWhile
/-!
# Tokens of texts put together

A text is scanned piece by piece: what a piece gives does not depend on the pieces around
it, except that a number has to be followed by something that does not continue it.
-/

namespace RewardPlot.Json.Token

open Utf8 (encode)

/-! ## Scanning pieces of a text -/

/-- The tokens of bytes, whatever fuel there is beyond their number. -/
def ScansTo (bytes : List UInt8) (ts : List Token) : Prop :=
  ∀ fuel, bytes.length ≤ fuel → scanAll fuel bytes = ts

theorem ScansTo.nil : ScansTo [] [] := by
  intro fuel _
  cases fuel <;> rfl

theorem ScansTo.token {b : UInt8} {rest after : List UInt8} {t : Token} {ts : List Token}
    (hspace : ¬isSpace b) (hscan : scan b rest = (t, after))
    (hlength : after.length ≤ rest.length) (h : ScansTo after ts) :
    ScansTo (b :: rest) (t :: ts) := by
  intro fuel hfuel
  cases fuel with
  | zero => cases hfuel
  | succ fuel =>
      rw [List.length_cons] at hfuel
      rw [scanAll, if_neg hspace, hscan]
      dsimp only
      rw [h fuel (by omega)]

theorem ScansTo.space {b : UInt8} {rest : List UInt8} {ts : List Token} (hspace : isSpace b)
    (h : ScansTo rest ts) : ScansTo (b :: rest) ts := by
  intro fuel hfuel
  cases fuel with
  | zero => cases hfuel
  | succ fuel =>
      rw [List.length_cons] at hfuel
      rw [scanAll, if_pos hspace, h fuel (by omega)]

/-- A piece of a text gives its tokens before anything that may follow it. -/
def Scans (follow : List UInt8 → Prop) (text : List Char) (ts : List Token) : Prop :=
  ∀ rest more, follow rest → ScansTo rest more → ScansTo (encode text ++ rest) (ts ++ more)

def Anything (_ : List UInt8) : Prop := True

theorem encode_append (a b : List Char) : encode (a ++ b) = encode a ++ encode b :=
  List.flatMap_append

theorem Scans.append {follow between : List UInt8 → Prop} {a b : List Char}
    {ts us : List Token} (ha : Scans between a ts) (hb : Scans follow b us)
    (hbetween : ∀ rest, follow rest → between (encode b ++ rest)) :
    Scans follow (a ++ b) (ts ++ us) := by
  intro rest more hfollow hmore
  rw [encode_append, List.append_assoc, List.append_assoc]
  exact ha _ _ (hbetween rest hfollow) (hb rest more hfollow hmore)

theorem Scans.before {follow : List UInt8 → Prop} {a b : List Char} {ts us : List Token}
    (ha : Scans Anything a ts) (hb : Scans follow b us) : Scans follow (a ++ b) (ts ++ us) :=
  ha.append hb fun _ _ => trivial

theorem Scans.weaken {follow : List UInt8 → Prop} {text : List Char} {ts : List Token}
    (h : Scans Anything text ts) : Scans follow text ts :=
  fun rest more _ hmore => h rest more trivial hmore

theorem Scans.nil : Scans Anything [] [] := fun _ _ _ hmore => hmore

theorem Scans.tokens_eq {text : List Char} {ts : List Token} {follow : List UInt8 → Prop}
    (h : Scans follow text ts) (hend : follow []) : tokens (encode text) = ts := by
  have hall := h [] [] hend .nil
  rw [List.append_nil, List.append_nil] at hall
  exact hall _ (Nat.le_refl _)

/-! ## Marks and white space -/

theorem scans_mark {c : Char} {b : UInt8} {t : Token} (hencode : String.utf8EncodeChar c = [b])
    (hspace : ¬isSpace b) (hscan : ∀ rest, scan b rest = (t, rest)) : Scans Anything [c] [t] := by
  intro rest more _ hmore
  rw [encode, List.flatMap_singleton, hencode]
  exact .token hspace (hscan rest) (Nat.le_refl _) hmore

theorem scans_space {c : Char} {b : UInt8} (hencode : String.utf8EncodeChar c = [b])
    (hspace : isSpace b) : Scans Anything [c] [] := by
  intro rest more _ hmore
  rw [encode, List.flatMap_singleton, hencode]
  exact .space hspace hmore

theorem scans_spaces (n : Nat) : Scans Anything (List.replicate n ' ') [] := by
  induction n with
  | zero => exact .nil
  | succ n ih => exact (scans_space rfl (by decide)).before ih

theorem scans_null : Scans Anything ['n', 'u', 'l', 'l'] [.null] :=
  fun rest _ _ hmore => .token (by decide) rfl (Nat.le_add_right rest.length 3) hmore

/-! ## Strings -/

/-- A piece of a string stands for some bytes, whatever the rest of the string is. -/
def Spells (text bytes : List UInt8) : Prop :=
  ∀ rest, ∃ pieces,
    stringPieces (text ++ rest) =
      (pieces ++ (stringPieces rest).1, (stringPieces rest).2) ∧
    ∀ mayContinue more, pieceBytes? mayContinue (pieces ++ more) =
      (pieceBytes? mayContinue more).map (bytes ++ ·)

theorem Spells.nil : Spells [] [] := by
  refine fun rest => ⟨[], rfl, fun mayContinue more => ?_⟩
  cases h : pieceBytes? mayContinue more <;> simp [h]

theorem Spells.append {a b x y : List UInt8} (ha : Spells a x) (hb : Spells b y) :
    Spells (a ++ b) (x ++ y) := by
  intro rest
  obtain ⟨ps, hps, hbytes⟩ := ha (b ++ rest)
  obtain ⟨qs, hqs, hbytes'⟩ := hb rest
  refine ⟨ps ++ qs, ?_, fun mayContinue more => ?_⟩
  · rw [List.append_assoc, hps, hqs, List.append_assoc]
  · rw [List.append_assoc, hbytes, hbytes', Option.map_map]
    congr 1
    funext bytes
    exact (List.append_assoc x y bytes).symm

/-- A byte that means itself in a string. -/
def isPlain (b : UInt8) : Bool := b != 0x22 && b != 0x5C && !(b < 0x20)

theorem Spells.plain {b : UInt8} (hplain : isPlain b) : Spells [b] [b] := by
  intro rest
  refine ⟨[.byte b], ?_, fun mayContinue more => rfl⟩
  simp only [isPlain, Bool.and_eq_true, bne_iff_ne, Bool.not_eq_true', decide_eq_false_iff_not]
    at hplain
  rw [List.singleton_append, stringPieces.eq_def]
  dsimp only
  rw [if_neg hplain.1.1, if_neg hplain.1.2, if_neg hplain.2]
  rfl

theorem Spells.plains {bytes : List UInt8} (hplain : ∀ b ∈ bytes, isPlain b) :
    Spells bytes bytes := by
  induction bytes with
  | nil => exact .nil
  | cons b bytes ih =>
      exact (plain (hplain b List.mem_cons_self)).append
        (ih fun c hc => hplain c (List.mem_cons_of_mem b hc))

theorem Spells.escape {e b : UInt8} (hu : e ≠ 0x75) (hescape : simpleEscape? e = some b) :
    Spells [0x5C, e] [b] := by
  intro rest
  refine ⟨[.byte b], ?_, fun mayContinue more => rfl⟩
  show stringPieces (0x5C :: e :: rest) = _
  rw [stringPieces.eq_def]
  dsimp only
  rw [if_neg (by decide), if_pos rfl, if_neg hu, hescape]
  rfl

theorem Spells.unit {h i j k : UInt8} {n : Nat} (hunit : hexUnit? h i j k = some n)
    (hsmall : n < 0xD800) :
    Spells [0x5C, 0x75, h, i, j, k] (String.utf8EncodeChar (Char.ofNat n)) := by
  intro rest
  have hhigh : isHighUnit n = false := by simp [isHighUnit]; omega
  have hlow : isLowUnit n = false := by simp [isLowUnit]; omega
  refine ⟨[.unit n], ?_, fun mayContinue more => ?_⟩
  · show stringPieces (0x5C :: 0x75 :: h :: i :: j :: k :: rest) = _
    rw [stringPieces.eq_def]
    dsimp only
    rw [if_neg (by decide), if_pos rfl, if_pos rfl, hunit]
    rfl
  · show pieceBytes? mayContinue (.unit n :: more) = _
    rw [pieceBytes?.eq_def]
    dsimp only
    rw [hhigh, hlow]
    rfl

theorem Spells.scanString {text : List UInt8} {chars : List Char}
    (h : Spells text (encode chars)) (rest : List UInt8) :
    scanString (text ++ 0x22 :: rest) = (.string (some chars), rest) := by
  obtain ⟨pieces, hpieces, hbytes⟩ := h (0x22 :: rest)
  have hclosed : stringPieces (0x22 :: rest) = ([], .closed rest) := by
    rw [stringPieces.eq_def]
    rfl
  have hdecoded := hbytes false []
  rw [hclosed] at hpieces
  rw [List.append_nil] at hdecoded hpieces
  rw [Token.scanString, hpieces]
  dsimp only
  rw [hdecoded]
  show (Token.string ((some (encode chars ++ [])).bind Utf8.decode?), rest) = _
  rw [List.append_nil, Option.bind_some, Utf8.decode?_encode]

/-! ## Numbers -/

def AllDigits (ds : List Char) : Prop := ∀ c ∈ ds, c.isDigit

theorem AllDigits.append {ds es : List Char} (hds : AllDigits ds) (hes : AllDigits es) :
    AllDigits (ds ++ es) := by
  intro c hc
  rcases List.mem_append.mp hc with hc | hc
  · exact hds c hc
  · exact hes c hc

theorem encode_digits {ds : List Char} (hdigits : AllDigits ds) :
    ∃ bytes, encode ds = bytes ∧ (∀ b ∈ bytes, isDigit b) ∧ digitChars bytes = ds := by
  induction ds with
  | nil => exact ⟨[], rfl, by simp, rfl⟩
  | cons c ds ih =>
      obtain ⟨bytes, hbytes, hall, hchars⟩ := ih fun d hd => hdigits d (List.mem_cons_of_mem c hd)
      obtain ⟨hlow, hhigh⟩ := Char.isDigit_iff_toNat.mp (hdigits c List.mem_cons_self)
      have hlow : 48 ≤ c.toNat := hlow
      have hhigh : c.toNat ≤ 57 := hhigh
      have htoNat : (UInt8.ofNat c.toNat).toNat = c.toNat :=
        Utf8.toNat_ofNat_of_lt (by omega)
      have hencode : String.utf8EncodeChar c = [UInt8.ofNat c.toNat] := by
        rw [String.utf8EncodeChar]
        exact if_pos (show c.toNat ≤ 127 by omega)
      have hdigit : isDigit (UInt8.ofNat c.toNat) := by
        simp only [isDigit, Bool.and_eq_true, decide_eq_true_eq, UInt8.le_iff_toNat_le, htoNat]
        exact ⟨hlow, hhigh⟩
      refine ⟨UInt8.ofNat c.toNat :: bytes, ?_, ?_, ?_⟩
      · rw [encode, List.flatMap_cons, hencode, ← hbytes]
        rfl
      · intro b hb
        rcases List.mem_cons.mp hb with rfl | hb
        · exact hdigit
        · exact hall b hb
      · rw [digitChars, List.map_cons, htoNat, Char.ofNat_toNat]
        exact congrArg _ hchars

def NoDigitFollows (rest : List UInt8) : Prop := ∀ b ∈ rest.head?, ¬isDigit b

theorem takeDigits_append {ds : List Char} {rest : List UInt8} (hdigits : AllDigits ds)
    (hsome : ds ≠ []) (hrest : NoDigitFollows rest) :
    takeDigits (encode ds ++ rest) = .ok (ds, rest) := by
  obtain ⟨bytes, hbytes, hall, hchars⟩ := encode_digits hdigits
  have hstop : rest.takeWhile isDigit = [] ∧ rest.dropWhile isDigit = rest := by
    cases rest with
    | nil => exact ⟨rfl, rfl⟩
    | cons b rest =>
        have hb := hrest b rfl
        exact ⟨List.takeWhile_cons_of_neg hb, List.dropWhile_cons_of_neg hb⟩
  rw [hbytes, takeDigits, List.takeWhile_append_of_pos hall, List.dropWhile_append_of_pos hall,
    hstop.1, hstop.2, List.append_nil]
  cases bytes with
  | nil => exact absurd hchars.symm hsome
  | cons b bytes =>
      dsimp only
      rw [hchars]

def fractionText : Option (List Char) → List Char
  | none => []
  | some ds => '.' :: ds

def exponentText : Option (Bool × List Char) → List Char
  | none => []
  | some (minus, ds) => 'e' :: (if minus then '-' else '+') :: ds

def partsText (p : Number.Parts) : List Char :=
  p.whole ++ (fractionText p.fraction ++ exponentText p.exponent)

/-- The parts of a number are digits, at least one each, and no zero leads others. -/
structure WellFormed (p : Number.Parts) : Prop where
  whole : AllDigits p.whole ∧ p.whole ≠ []
  zero : ∀ ds, p.whole = '0' :: ds → ds = []
  fraction : ∀ ds ∈ p.fraction, AllDigits ds ∧ ds ≠ []
  exponent : ∀ e ∈ p.exponent, AllDigits e.2 ∧ e.2 ≠ []

/-- Nothing follows that would continue a number. -/
def EndsNumber (rest : List UInt8) : Prop :=
  ∀ b ∈ rest.head?, ¬isDigit b ∧ b ≠ 0x2E ∧ b ≠ 0x65 ∧ b ≠ 0x45

theorem EndsNumber.noDigitFollows {rest : List UInt8} (h : EndsNumber rest) :
    NoDigitFollows rest := fun b hb => (h b hb).1

theorem takeExponent_append {e : Option (Bool × List Char)}
    (hdigits : ∀ x ∈ e, AllDigits x.2 ∧ x.2 ≠ []) {rest : List UInt8} (hrest : EndsNumber rest) :
    takeExponent (encode (exponentText e) ++ rest) = .ok (e, rest) := by
  cases e with
  | none =>
      show takeExponent rest = _
      cases rest with
      | nil => rfl
      | cons b rest =>
          obtain ⟨-, -, he, hE⟩ := hrest b rfl
          rw [takeExponent.eq_def]
          exact if_neg (by simp [he, hE])
  | some x =>
      obtain ⟨minus, ds⟩ := x
      obtain ⟨hds, hsome⟩ := hdigits _ rfl
      have htake := takeDigits_append hds hsome hrest.noDigitFollows
      cases minus with
      | true =>
          show takeExponent (0x65 :: 0x2D :: (encode ds ++ rest)) = _
          rw [takeExponent, if_pos (.inl rfl)]
          dsimp only
          rw [htake]
          rfl
      | false =>
          show takeExponent (0x65 :: 0x2B :: (encode ds ++ rest)) = _
          rw [takeExponent, if_pos (.inl rfl)]
          dsimp only
          rw [htake]
          rfl

theorem takeFraction_append {f : Option (List Char)} (hdigits : ∀ ds ∈ f, AllDigits ds ∧ ds ≠ [])
    {rest : List UInt8} (hrest : NoDigitFollows rest) (hpoint : ∀ b ∈ rest.head?, b ≠ 0x2E) :
    takeFraction (encode (fractionText f) ++ rest) = .ok (f, rest) := by
  cases f with
  | none =>
      show takeFraction rest = _
      cases rest with
      | nil => rfl
      | cons b rest =>
          rw [takeFraction]
          intro _ hcons
          cases hcons
          exact hpoint _ rfl rfl
  | some ds =>
      obtain ⟨hds, hsome⟩ := hdigits _ rfl
      show takeFraction (0x2E :: (encode ds ++ rest)) = _
      rw [takeFraction, takeDigits_append hds hsome hrest]
      rfl

theorem head_exponentText (e : Option (Bool × List Char)) {rest : List UInt8}
    (hrest : EndsNumber rest) :
    ∀ b ∈ (encode (exponentText e) ++ rest).head?, ¬isDigit b ∧ b ≠ 0x2E := by
  intro b hb
  cases e with
  | none => exact ⟨(hrest b hb).1, (hrest b hb).2.1⟩
  | some x =>
      cases hb
      decide

theorem head_fractionText (f : Option (List Char)) {rest : List UInt8}
    (hrest : NoDigitFollows rest) : NoDigitFollows (encode (fractionText f) ++ rest) := by
  intro b hb
  cases f with
  | none => exact hrest b hb
  | some ds =>
      cases hb
      decide

theorem takeWhole_append {ds : List Char} {rest : List UInt8} (hdigits : AllDigits ds)
    (hsome : ds ≠ []) (hzero : ∀ es, ds = '0' :: es → es = []) (hrest : NoDigitFollows rest) :
    takeWhole (encode ds ++ rest) = .ok (ds, rest) := by
  rw [takeWhole, takeDigits_append hdigits hsome hrest]
  split
  · next hcons =>
    cases hcons
    exact absurd (hzero _ rfl) (by simp)
  · rfl

theorem takeParts_append {p : Number.Parts} (hp : WellFormed p) {rest : List UInt8}
    (hrest : EndsNumber rest) : takeParts (encode (partsText p) ++ rest) = .ok (p, rest) := by
  have hexponent := takeExponent_append hp.exponent hrest
  have hhead := head_exponentText p.exponent hrest
  have hnodigit : NoDigitFollows (encode (exponentText p.exponent) ++ rest) :=
    fun b hb => (hhead b hb).1
  have hfraction := takeFraction_append hp.fraction hnodigit fun b hb => (hhead b hb).2
  have hwhole := takeWhole_append hp.whole.1 hp.whole.2 hp.zero
    (head_fractionText p.fraction hnodigit)
  rw [takeParts, partsText, encode_append, encode_append, List.append_assoc, List.append_assoc,
    hwhole]
  show (takeFraction _ >>= _) = _
  rw [hfraction]
  show (takeExponent _ >>= _) = _
  rw [hexponent]
  rfl

theorem scanNumber_append (minus : Bool) {p : Number.Parts} (hp : WellFormed p)
    {rest : List UInt8} (hrest : EndsNumber rest) :
    scanNumber minus (encode (partsText p) ++ rest) =
      (.number (Number.ofParts? minus p), rest) := by
  rw [scanNumber, takeParts_append hp hrest]

theorem scan_digit {b : UInt8} (hb : isDigit b) (rest : List UInt8) :
    scan b rest = scanNumber false (b :: rest) := by
  have hne : ∀ c : UInt8, isDigit c = false → b ≠ c := by
    rintro c hc rfl
    rw [hb] at hc
    cases hc
  rw [scan, if_neg (hne _ (by decide)), if_neg (hne _ (by decide)), if_neg (hne _ (by decide)),
    if_neg (hne _ (by decide)), if_neg (hne _ (by decide)), if_neg (hne _ (by decide)),
    if_neg (hne _ (by decide)), if_neg (hne _ (by decide)), if_pos hb]

theorem encode_partsText {p : Number.Parts} (hp : WellFormed p) :
    ∃ b bytes, encode (partsText p) = b :: bytes ∧ isDigit b := by
  obtain ⟨bytes, hbytes, hall, hchars⟩ := encode_digits hp.whole.1
  cases bytes with
  | nil => exact absurd hchars.symm hp.whole.2
  | cons b bytes =>
      rw [partsText, encode_append, hbytes]
      exact ⟨b, _, rfl, hall b List.mem_cons_self⟩

def numberText (minus : Bool) (p : Number.Parts) : List Char :=
  if minus then '-' :: partsText p else partsText p

theorem scans_number (minus : Bool) {p : Number.Parts} (hp : WellFormed p) :
    Scans EndsNumber (numberText minus p) [.number (Number.ofParts? minus p)] := by
  intro rest more hrest hmore
  have hnumber := scanNumber_append minus hp hrest
  cases minus with
  | true =>
      show ScansTo (0x2D :: (encode (partsText p) ++ rest)) _
      refine .token (by decide) hnumber ?_ hmore
      rw [List.length_append]
      omega
  | false =>
      show ScansTo (encode (partsText p) ++ rest) _
      obtain ⟨b, bytes, hbytes, hb⟩ := encode_partsText hp
      rw [hbytes] at hnumber ⊢
      have hspace : ¬isSpace b := by
        intro hspace
        simp only [isSpace, Bool.or_eq_true, decide_eq_true_eq] at hspace
        rcases hspace with ((rfl | rfl) | rfl) | rfl <;> cases hb
      refine .token hspace ((scan_digit hb _).trans hnumber) ?_ hmore
      show rest.length ≤ (bytes ++ rest).length
      rw [List.length_append]
      omega

end RewardPlot.Json.Token
