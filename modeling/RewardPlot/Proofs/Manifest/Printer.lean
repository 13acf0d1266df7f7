import RewardPlot.Manifest.Printer
import RewardPlot.Proofs.Json.Reader
import RewardPlot.Proofs.Json.Written
/-!
# The tokens of a written manifest

The text of a manifest is put together from strings, numbers, marks and white space, and
its tokens are put together in the same way.
-/

namespace RewardPlot.Manifest

open Json Json.Token
open Utf8 (encode)

/-! ## Strings -/

theorem le_toNat_ofNat {n : Nat} (hlow : 0x80 ≤ n) (hhigh : n < 256) :
    0x80 ≤ (UInt8.ofNat n).toNat := by
  rwa [Utf8.toNat_ofNat_of_lt hhigh]

/-- Each byte of a character is the character itself or lies beyond the characters that are
escaped. -/
theorem mem_utf8EncodeChar {c : Char} {b : UInt8} (hb : b ∈ String.utf8EncodeChar c) :
    b.toNat = c.toNat ∨ 0x80 ≤ b.toNat := by
  rw [String.utf8EncodeChar] at hb
  split at hb
  · next hascii =>
    rw [List.mem_singleton.mp hb]
    exact .inl (Utf8.toNat_ofNat_of_lt (Nat.lt_of_le_of_lt hascii (by decide)))
  · right
    split at hb
    · simp only [List.mem_cons, List.not_mem_nil, or_false] at hb
      rcases hb with rfl | rfl <;> exact le_toNat_ofNat (by omega) (by omega)
    · split at hb
      · simp only [List.mem_cons, List.not_mem_nil, or_false] at hb
        rcases hb with rfl | rfl | rfl <;> exact le_toNat_ofNat (by omega) (by omega)
      · simp only [List.mem_cons, List.not_mem_nil, or_false] at hb
        rcases hb with rfl | rfl | rfl | rfl <;> exact le_toNat_ofNat (by omega) (by omega)

def lettered : List Char := ['"', '\\', '\x08', '\x0c', '\n', '\r', '\t']

theorem spells_lettered {c : Char} (hc : c ∈ lettered) :
    Spells (encode (escapeChar c)) (String.utf8EncodeChar c) := by
  simp only [lettered, List.mem_cons, List.not_mem_nil, or_false] at hc
  rcases hc with rfl | rfl | rfl | rfl | rfl | rfl | rfl <;> exact .escape (by decide) rfl

theorem encode_control : ∀ n < 0x20,
    encode ['\\', 'u', '0', '0', Nat.digitChar (n / 16), Nat.digitChar (n % 16)] =
      [0x5C, 0x75, 0x30, 0x30, UInt8.ofNat (Nat.digitChar (n / 16)).toNat,
        UInt8.ofNat (Nat.digitChar (n % 16)).toNat] ∧
    hexUnit? 0x30 0x30 (UInt8.ofNat (Nat.digitChar (n / 16)).toNat)
      (UInt8.ofNat (Nat.digitChar (n % 16)).toNat) = some n := by decide

theorem escapeChar_of_not_lettered {c : Char} (hc : c ∉ lettered) :
    escapeChar c =
      if c.toNat < 0x20 then
        ['\\', 'u', '0', '0', Nat.digitChar (c.toNat / 16), Nat.digitChar (c.toNat % 16)]
      else [c] := by
  simp only [lettered, List.mem_cons, List.not_mem_nil, or_false, not_or] at hc
  obtain ⟨h₁, h₂, h₃, h₄, h₅, h₆, h₇⟩ := hc
  rw [escapeChar, if_neg h₁, if_neg h₂, if_neg h₃, if_neg h₄, if_neg h₅, if_neg h₆, if_neg h₇]

theorem isPlain_of_mem {c : Char} (hc : c ∉ lettered) (hcontrol : 0x20 ≤ c.toNat) {b : UInt8}
    (hb : b ∈ String.utf8EncodeChar c) : isPlain b := by
  have hquote : c.toNat ≠ 0x22 := by
    intro h
    exact hc (Char.toNat_inj.mp (show c.toNat = '"'.toNat from h) ▸ by decide)
  have hbackslash : c.toNat ≠ 0x5C := by
    intro h
    exact hc (Char.toNat_inj.mp (show c.toNat = '\\'.toNat from h) ▸ by decide)
  have hbyte := mem_utf8EncodeChar hb
  simp only [isPlain, Bool.and_eq_true, bne_iff_ne, Bool.not_eq_true', decide_eq_false_iff_not,
    UInt8.lt_iff_toNat_lt, ne_eq, ← UInt8.toNat_inj]
  show (b.toNat ≠ 34 ∧ b.toNat ≠ 92) ∧ ¬b.toNat < 32
  omega

theorem spells_escapeChar (c : Char) :
    Spells (encode (escapeChar c)) (String.utf8EncodeChar c) := by
  by_cases hlettered : c ∈ lettered
  · exact spells_lettered hlettered
  · rw [escapeChar_of_not_lettered hlettered]
    split
    · next hcontrol =>
      obtain ⟨hencode, hunit⟩ := encode_control c.toNat hcontrol
      have hspells := Spells.unit hunit (by omega)
      rwa [Char.ofNat_toNat, ← hencode] at hspells
    · next hcontrol =>
      rw [encode, List.flatMap_singleton]
      exact .plains fun b hb => isPlain_of_mem hlettered (by omega) hb

theorem spells_escaped (text : List Char) :
    Spells (encode (text.flatMap escapeChar)) (encode text) := by
  induction text with
  | nil => exact .nil
  | cons c text ih =>
      rw [List.flatMap_cons, encode_append]
      exact (spells_escapeChar c).append ih

theorem scan_quote (rest : List UInt8) : scan 0x22 rest = scanString rest := rfl

theorem encode_writeString (s : String) (rest : List UInt8) :
    encode (writeString s) ++ rest =
      0x22 :: (encode (s.toList.flatMap escapeChar) ++ 0x22 :: rest) := by
  rw [writeString, encode_append, List.append_assoc]
  rfl

theorem scans_writeString (s : String) :
    Scans Anything (writeString s) [.string (some s.toList)] := by
  intro rest more _ hmore
  have hstring := (spells_escaped s.toList).scanString rest
  rw [← scan_quote] at hstring
  rw [encode_writeString]
  refine .token (by decide) hstring ?_ hmore
  rw [List.length_append, List.length_cons]
  omega

/-! ## Blocks -/

theorem scans_newLine (level : Nat) : Scans Anything (newLine level) [] :=
  (scans_space (c := '\n') rfl (by decide)).before (scans_spaces _)

theorem endsNumber_cons {b : UInt8} {rest : List UInt8}
    (hb : ¬isDigit b ∧ b ≠ 0x2E ∧ b ≠ 0x65 ∧ b ≠ 0x45) : EndsNumber (b :: rest) := by
  intro c hc
  cases hc
  exact hb

theorem endsNumber_newLine (level : Nat) (rest : List UInt8) :
    EndsNumber (encode (newLine level) ++ rest) := endsNumber_cons (by decide)

def fieldTokens (name : String) (value : List Token) : List Token :=
  .string (some name.toList) :: .colon :: value

theorem scans_writeField (name : String) {follow : List UInt8 → Prop} {value : List Char}
    {ts : List Token} (hvalue : Scans follow value ts) :
    Scans follow (writeField name value) (fieldTokens name ts) := by
  have hcolon : Scans Anything [':'] [.colon] := scans_mark rfl (by decide) fun _ => rfl
  have hspace : Scans Anything [' '] [] := scans_space rfl (by decide)
  exact (scans_writeString name).before (hcolon.before (hspace.before hvalue))

/-- Items of a block with their tokens. -/
abbrev Pieces := List (List Char × List Token)

theorem scans_items (level : Nat) (pieces : Pieces)
    (hpieces : ∀ p ∈ pieces, Scans EndsNumber p.1 p.2) :
    Scans EndsNumber ((',' :: newLine level).intercalate (pieces.map Prod.fst))
      ([Token.comma].intercalate (pieces.map Prod.snd)) := by
  have hcomma : Scans Anything [','] [.comma] := scans_mark rfl (by decide) fun _ => rfl
  induction pieces with
  | nil => exact Scans.nil.weaken
  | cons p pieces ih =>
      have hp := hpieces p List.mem_cons_self
      cases pieces with
      | nil => simpa using hp
      | cons q pieces =>
          have hrest := ih fun x hx => hpieces x (List.mem_cons_of_mem p hx)
          have hseparated := hcomma.before ((scans_newLine level).before hrest)
          have hall := hp.append hseparated fun _ _ => endsNumber_cons (by decide)
          simpa [List.intercalate_cons_cons] using hall

theorem scans_writeBlock (level : Nat) {first last : Char} {opening closing : Token}
    (hfirst : Scans Anything [first] [opening]) (hlast : Scans Anything [last] [closing])
    (pieces : Pieces) (hpieces : ∀ p ∈ pieces, Scans EndsNumber p.1 p.2) :
    Scans Anything (writeBlock level first last (pieces.map Prod.fst))
      (blockTokens opening closing (pieces.map Prod.snd)) := by
  rw [writeBlock]
  split
  · next hnone =>
    rw [List.map_eq_nil_iff.mp hnone]
    exact hfirst.before hlast
  · have hitems := scans_items (level + 1) pieces hpieces
    have hend := hitems.append ((scans_newLine level).before hlast)
      fun rest _ => by
        rw [encode_append, List.append_assoc]
        exact endsNumber_newLine level _
    have hall := hfirst.before ((scans_newLine (level + 1)).before hend)
    simpa [blockTokens] using hall

/-! ## Manifests -/

def Item.SumFinite (i : Item) : Prop := ∀ x ∈ i.sum, x.isFinite

theorem Item.sumFinite_ofSeries (s : Series) : (Item.ofSeries s).SumFinite := by
  intro x hx
  rw [Item.ofSeries] at hx
  dsimp only at hx
  split at hx
  · next hfinite =>
    rw [← Option.some.inj hx]
    exact hfinite
  · cases hx

def SumsFinite (m : Manifest) : Prop := ∀ i ∈ m.series, i.SumFinite

theorem sumsFinite_ofChart (generatedAt : String) (c : Chart) :
    (ofChart generatedAt c).SumsFinite := by
  intro i hi
  obtain ⟨s, -, rfl⟩ := List.mem_map.mp hi
  exact Item.sumFinite_ofSeries s

def textToken (s : String) : Token := .string (some s.toList)

def countToken (n : UInt64) : Token := .number (some (.natural n.toNat))

def sumToken : Option Binary64 → Token
  | none => .null
  | some x => .number (some (.real (reread x)))

def Item.tokens (i : Item) : List Token :=
  blockTokens .openBrace .closeBrace [
    fieldTokens "label" [textToken i.label],
    fieldTokens "points" [countToken i.points],
    fieldTokens "masked" [countToken i.masked],
    fieldTokens "sum" [sumToken i.sum]]

/-- The tokens of the text of a manifest. -/
def tokens (m : Manifest) : List Token :=
  blockTokens .openBrace .closeBrace [
    fieldTokens "version" [textToken m.version],
    fieldTokens "title" [textToken m.title],
    fieldTokens "generated_at" [textToken m.generatedAt],
    fieldTokens "series" (blockTokens .openBracket .closeBracket (m.series.map Item.tokens))]

theorem scans_writeCount (n : UInt64) : Scans EndsNumber (writeCount n) [countToken n] :=
  scans_count n.toNat_lt

theorem scans_writeSum {sum : Option Binary64} (hfinite : ∀ x ∈ sum, x.isFinite) :
    Scans EndsNumber (writeSum sum) [sumToken sum] := by
  cases sum with
  | none => exact scans_null.weaken
  | some x => exact scans_written (hfinite x rfl)

theorem scans_braces (level : Nat) (pieces : Pieces)
    (hpieces : ∀ p ∈ pieces, Scans EndsNumber p.1 p.2) :
    Scans Anything (writeBlock level '\x7b' '\x7d' (pieces.map Prod.fst))
      (blockTokens .openBrace .closeBrace (pieces.map Prod.snd)) :=
  scans_writeBlock level (scans_mark rfl (by decide) fun _ => rfl)
    (scans_mark rfl (by decide) fun _ => rfl) pieces hpieces

theorem Item.scans_write (level : Nat) {i : Item} (hfinite : i.SumFinite) :
    Scans Anything (i.write level) i.tokens := by
  have hpieces := scans_braces level [
    (writeField "label" (writeString i.label), fieldTokens "label" [textToken i.label]),
    (writeField "points" (writeCount i.points), fieldTokens "points" [countToken i.points]),
    (writeField "masked" (writeCount i.masked), fieldTokens "masked" [countToken i.masked]),
    (writeField "sum" (writeSum i.sum), fieldTokens "sum" [sumToken i.sum])]
  apply hpieces
  simp only [List.mem_cons, List.not_mem_nil, or_false]
  rintro p (rfl | rfl | rfl | rfl)
  · exact scans_writeField "label" (scans_writeString i.label).weaken
  · exact scans_writeField "points" (scans_writeCount i.points)
  · exact scans_writeField "masked" (scans_writeCount i.masked)
  · exact scans_writeField "sum" (scans_writeSum hfinite)

theorem scans_writeSeries (level : Nat) {series : List Item}
    (hfinite : ∀ i ∈ series, i.SumFinite) :
    Scans Anything (writeBlock level '[' ']' (series.map (Item.write (level + 1))))
      (blockTokens .openBracket .closeBracket (series.map Item.tokens)) := by
  have hopen : Scans Anything ['['] [.openBracket] := scans_mark rfl (by decide) fun _ => rfl
  have hclose : Scans Anything [']'] [.closeBracket] := scans_mark rfl (by decide) fun _ => rfl
  have hpieces := scans_writeBlock level hopen hclose
    (series.map fun i => (i.write (level + 1), i.tokens))
  rw [List.map_map, List.map_map] at hpieces
  apply hpieces
  intro p hp
  obtain ⟨i, hi, rfl⟩ := List.mem_map.mp hp
  exact (Item.scans_write (level + 1) (hfinite i hi)).weaken

theorem scans_write {m : Manifest} (hfinite : m.SumsFinite) :
    Scans Anything m.write m.tokens := by
  have hpieces := scans_braces 0 [
    (writeField "version" (writeString m.version), fieldTokens "version" [textToken m.version]),
    (writeField "title" (writeString m.title), fieldTokens "title" [textToken m.title]),
    (writeField "generated_at" (writeString m.generatedAt),
      fieldTokens "generated_at" [textToken m.generatedAt]),
    (writeField "series" (writeBlock 1 '[' ']' (m.series.map (Item.write 2))),
      fieldTokens "series"
        (blockTokens .openBracket .closeBracket (m.series.map Item.tokens)))]
  apply hpieces
  simp only [List.mem_cons, List.not_mem_nil, or_false]
  rintro p (rfl | rfl | rfl | rfl)
  · exact scans_writeField "version" (scans_writeString m.version).weaken
  · exact scans_writeField "title" (scans_writeString m.title).weaken
  · exact scans_writeField "generated_at" (scans_writeString m.generatedAt).weaken
  · exact scans_writeField "series" (scans_writeSeries 1 hfinite).weaken

theorem tokens_bytes {m : Manifest} (hfinite : m.SumsFinite) : Json.tokens m.bytes = m.tokens :=
  (scans_write hfinite).tokens_eq trivial

end RewardPlot.Manifest
