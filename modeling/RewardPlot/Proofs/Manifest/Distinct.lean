import RewardPlot.Proofs.Decimal.Numeral
import RewardPlot.Proofs.Manifest.RoundTrip
/-!
# Manifests are told apart

No two manifests with finite sums have one text.  The pieces of a text are marked off from
each other: a string by its quotation marks, a number by the comma or the line break after it.
-/

namespace RewardPlot

theorem Utf8.encode_injective : Function.Injective Utf8.encode := by
  intro text text' hsame
  have hdecoded := congrArg Utf8.decode? hsame
  rw [decode?_encode, decode?_encode] at hdecoded
  exact Option.some.inj hdecoded

namespace Manifest

open Json Json.Token
open Utf8 (encode)

/-! ## Pieces of a text -/

/-- A piece ends here: a comma or a line break follows. -/
def EndsPiece (rest : List Char) : Prop := ∃ c ∈ rest.head?, c = ',' ∨ c = '\n'

/-- Texts that begin with one of two pieces begin with the other one only if they are the
same. -/
def Apart (a b : List Char) : Prop :=
  ∀ rest rest', EndsPiece rest → EndsPiece rest' → a ++ rest = b ++ rest' → a = b

def Unbroken (text : List Char) : Prop := ∀ c ∈ text, c ≠ ',' ∧ c ≠ '\n'

theorem takeWhile_unbroken {a rest : List Char} (ha : Unbroken a) (hrest : EndsPiece rest) :
    (a ++ rest).takeWhile (fun c => c != ',' && c != '\n') = a := by
  obtain ⟨c, hhead, hc⟩ := hrest
  obtain ⟨more, rfl⟩ := List.head?_eq_some_iff.mp hhead
  rw [List.takeWhile_append_of_pos (by simpa [Unbroken] using ha)]
  rcases hc with rfl | rfl <;> simp

/-- Texts without commas and line breaks reach up to the next one. -/
theorem apart_of_unbroken {a b : List Char} (ha : Unbroken a) (hb : Unbroken b) : Apart a b := by
  intro rest rest' hrest hrest' hsame
  rw [← takeWhile_unbroken ha hrest, hsame, takeWhile_unbroken hb hrest']

/-- A string ends at the closing quotation mark, whatever is in it. -/
theorem writeString_append_inj {s s' : String} {rest rest' : List Char}
    (hsame : writeString s ++ rest = writeString s' ++ rest') : s = s' ∧ rest = rest' := by
  have hbytes := congrArg encode hsame
  rw [encode_append, encode_append, encode_writeString, encode_writeString] at hbytes
  have hscanned := congrArg scanString (List.cons.inj hbytes).2
  rw [(spells_escaped s.toList).scanString, (spells_escaped s'.toList).scanString] at hscanned
  obtain ⟨hstring, hrest⟩ := Prod.mk.inj hscanned
  simp only [Token.string.injEq, Option.some.injEq] at hstring
  exact ⟨String.toList_injective hstring, Utf8.encode_injective hrest⟩

theorem apart_writeString (s s' : String) : Apart (writeString s) (writeString s') := by
  intro rest rest' _ _ hsame
  rw [(writeString_append_inj hsame).1]

theorem apart_writeField (name : String) {a b : List Char} (hvalues : Apart a b) :
    Apart (writeField name a) (writeField name b) := by
  intro rest rest' hrest hrest' hsame
  simp only [writeField, List.append_assoc, List.cons_append] at hsame
  have hafter := (writeString_append_inj hsame).2
  simp only [List.cons.injEq, true_and] at hafter
  rw [hvalues rest rest' hrest hrest' hafter]

/-! ## Blocks -/

/-- Pieces at one place of two lists are told apart. -/
def AllApart (as bs : List (List Char)) : Prop := ∀ p ∈ as.zip bs, Apart p.1 p.2

@[simp] theorem allApart_nil (bs : List (List Char)) : AllApart [] bs := by
  simp [AllApart]

@[simp] theorem allApart_cons {a b : List Char} {as bs : List (List Char)} :
    AllApart (a :: as) (b :: bs) ↔ Apart a b ∧ AllApart as bs := by
  simp [AllApart]

theorem endsPiece_pieces (level : Nat) (pieces : List (List Char)) {rest : List Char}
    (hrest : EndsPiece rest) :
    EndsPiece (pieces.flatMap (',' :: newLine level ++ ·) ++ rest) := by
  cases pieces with
  | nil => simpa using hrest
  | cons a pieces => simp [EndsPiece]

/-- The text of pieces that each follow a comma determines them, where a line break without
a comma comes behind. -/
theorem flatMap_append_inj {level : Nat} {as bs : List (List Char)} (hapart : AllApart as bs)
    {rest rest' : List Char}
    (hsame : as.flatMap (',' :: newLine level ++ ·) ++ '\n' :: rest =
      bs.flatMap (',' :: newLine level ++ ·) ++ '\n' :: rest') : as = bs := by
  have hend : ∀ more, EndsPiece ('\n' :: more) := by simp [EndsPiece]
  induction as generalizing bs with
  | nil =>
      cases bs with
      | nil => rfl
      | cons b bs => simp at hsame
  | cons a as ih =>
      cases bs with
      | nil => simp at hsame
      | cons b bs =>
          obtain ⟨hfirst, hmore⟩ := allApart_cons.mp hapart
          simp only [List.flatMap_cons, List.append_assoc] at hsame
          have hafter := List.append_cancel_left hsame
          have hsame : a = b := hfirst _ _ (endsPiece_pieces level as (hend rest))
            (endsPiece_pieces level bs (hend rest')) hafter
          rw [hsame] at hafter ⊢
          rw [ih hmore (List.append_cancel_left hafter)]

theorem intercalate_append_inj {level : Nat} {as bs : List (List Char)} (has : as ≠ [])
    (hbs : bs ≠ []) (hapart : AllApart as bs) {rest rest' : List Char}
    (hsame : (',' :: newLine level).intercalate as ++ '\n' :: rest =
      (',' :: newLine level).intercalate bs ++ '\n' :: rest') : as = bs := by
  obtain ⟨a, as, rfl⟩ := List.exists_cons_of_ne_nil has
  obtain ⟨b, bs, rfl⟩ := List.exists_cons_of_ne_nil hbs
  rw [Text.intercalate_cons, Text.intercalate_cons] at hsame
  have hpieces : (a :: as).flatMap (',' :: newLine level ++ ·) ++ '\n' :: rest =
      (b :: bs).flatMap (',' :: newLine level ++ ·) ++ '\n' :: rest' := by
    simpa using hsame
  exact flatMap_append_inj hapart hpieces

/-- Blocks of pieces that are told apart have one text only if they have the same pieces. -/
theorem writeBlock_append_inj {level : Nat} {first last : Char} (hlast : last ≠ '\n')
    {as bs : List (List Char)} (hapart : AllApart as bs) {rest rest' : List Char}
    (hsame : writeBlock level first last as ++ rest = writeBlock level first last bs ++ rest') :
    as = bs := by
  rw [writeBlock, writeBlock] at hsame
  split at hsame
  · next has =>
    split at hsame
    · next hbs => rw [has, hbs]
    · simp [newLine, hlast] at hsame
  · next has =>
    split at hsame
    · simp [newLine, hlast.symm] at hsame
    · next hbs =>
      simp only [List.append_assoc, List.cons_append, List.cons.injEq, true_and] at hsame
      exact intercalate_append_inj has hbs hapart (List.append_cancel_left hsame)

theorem apart_writeBlock (level : Nat) (first : Char) {last : Char} (hlast : last ≠ '\n')
    {as bs : List (List Char)} (hapart : AllApart as bs) :
    Apart (writeBlock level first last as) (writeBlock level first last bs) := by
  intro rest rest' _ _ hsame
  rw [writeBlock_append_inj hlast hapart hsame]

/-! ## Values -/

theorem writeString_inj {s s' : String} : writeString s = writeString s' ↔ s = s' :=
  ⟨fun hsame => (writeString_append_inj (congrArg (· ++ []) hsame)).1, congrArg _⟩

theorem writeField_inj {name : String} {a b : List Char} :
    writeField name a = writeField name b ↔ a = b := by
  simp [writeField]

theorem unbroken_of_isDigit {text : List Char} (hdigits : AllDigits text) : Unbroken text := by
  intro c hc
  have hdigit := hdigits c hc
  constructor <;> (rintro rfl; contradiction)

theorem unbroken_writeCount (n : UInt64) : Unbroken (writeCount n) :=
  unbroken_of_isDigit (allDigits_digits n.toNat)

theorem writeCount_inj {n n' : UInt64} : writeCount n = writeCount n' ↔ n = n' := by
  refine ⟨fun hsame => ?_, congrArg _⟩
  have hdigits := congrArg (Nat.ofDigitChars 10 · 0) hsame
  simp only [writeCount, ofDigitChars_digits] at hdigits
  exact UInt64.toNat_inj.mp hdigits

theorem unbroken_writeSum {sum : Option Binary64} (hfinite : ∀ x ∈ sum, x.isFinite) :
    Unbroken (writeSum sum) := by
  cases sum with
  | none => simp [Unbroken, writeSum]
  | some x =>
      cases x with
      | finite minus m =>
          intro c hc
          rw [writeSum, written_finite] at hc
          obtain ⟨hblank, hcomma⟩ :=
            not_isBlank_of_mem_numberText (magnitudeParts_wellFormed m) hc
          refine ⟨hcomma, ?_⟩
          rintro rfl
          contradiction
      | nan => cases hfinite _ rfl
      | infinite minus => cases hfinite _ rfl

/-- What is written for a sum is read as a value of a trace: as that sum, or as no number. -/
theorem readField_writeSum {sum : Option Binary64} (hfinite : ∀ x ∈ sum, x.isFinite) :
    Trace.readField (writeSum sum) = sum := by
  cases sum with
  | none => rfl
  | some x => exact readField_written (hfinite x rfl)

theorem writeSum_inj {sum sum' : Option Binary64} (hfinite : ∀ x ∈ sum, x.isFinite)
    (hfinite' : ∀ x ∈ sum', x.isFinite) : writeSum sum = writeSum sum' ↔ sum = sum' := by
  refine ⟨fun hsame => ?_, congrArg _⟩
  rw [← readField_writeSum hfinite, hsame, readField_writeSum hfinite']

/-! ## Manifests -/

def Item.fieldTexts (i : Item) : List (List Char) :=
  [writeField "label" (writeString i.label), writeField "points" (writeCount i.points),
    writeField "masked" (writeCount i.masked), writeField "sum" (writeSum i.sum)]

theorem Item.write_eq (level : Nat) (i : Item) :
    i.write level = writeBlock level '\x7b' '\x7d' i.fieldTexts := rfl

theorem Item.allApart_fieldTexts {i j : Item} (hi : i.SumFinite) (hj : j.SumFinite) :
    AllApart i.fieldTexts j.fieldTexts := by
  have hcounts (n n' : UInt64) : Apart (writeCount n) (writeCount n') :=
    apart_of_unbroken (unbroken_writeCount n) (unbroken_writeCount n')
  have hsums : Apart (writeSum i.sum) (writeSum j.sum) :=
    apart_of_unbroken (unbroken_writeSum hi) (unbroken_writeSum hj)
  simp [fieldTexts, apart_writeField, apart_writeString, hcounts, hsums]

/-- The text of an item determines each of its fields. -/
theorem Item.write_append_inj {level : Nat} {i j : Item} (hi : i.SumFinite) (hj : j.SumFinite)
    {rest rest' : List Char} (hsame : i.write level ++ rest = j.write level ++ rest') :
    i = j := by
  rw [write_eq, write_eq] at hsame
  have hfields := writeBlock_append_inj (by decide) (allApart_fieldTexts hi hj) hsame
  simp only [fieldTexts, List.cons.injEq, writeField_inj, writeString_inj, writeCount_inj,
    writeSum_inj hi hj, and_true] at hfields
  obtain ⟨hlabel, hpoints, hmasked, hsum⟩ := hfields
  cases i
  cases j
  simp_all

theorem allApart_items (level : Nat) {is js : List Item} (his : ∀ i ∈ is, i.SumFinite)
    (hjs : ∀ j ∈ js, j.SumFinite) :
    AllApart (is.map (Item.write level)) (js.map (Item.write level)) := by
  rintro ⟨a, b⟩ hp
  obtain ⟨ha, hb⟩ := List.of_mem_zip hp
  obtain ⟨i, hi, rfl⟩ := List.mem_map.mp ha
  obtain ⟨j, hj, rfl⟩ := List.mem_map.mp hb
  intro rest rest' _ _ hsame
  rw [Item.write_append_inj (his i hi) (hjs j hj) hsame]

theorem map_write_inj {level : Nat} {is js : List Item} (his : ∀ i ∈ is, i.SumFinite)
    (hjs : ∀ j ∈ js, j.SumFinite) :
    is.map (Item.write level) = js.map (Item.write level) ↔ is = js := by
  refine ⟨fun hsame => ?_, congrArg _⟩
  induction is generalizing js with
  | nil => simpa using hsame.symm
  | cons i is ih =>
      cases js with
      | nil => simp at hsame
      | cons j js =>
          obtain ⟨hfirst, hrest⟩ := List.cons.inj hsame
          have hij : i = j :=
            Item.write_append_inj (his i (by simp)) (hjs j (by simp)) (congrArg (· ++ []) hfirst)
          rw [hij, ih (fun k hk => his k (by simp [hk])) (fun k hk => hjs k (by simp [hk])) hrest]

def fieldTexts (m : Manifest) : List (List Char) :=
  [writeField "version" (writeString m.version), writeField "title" (writeString m.title),
    writeField "generated_at" (writeString m.generatedAt),
    writeField "series" (writeBlock 1 '[' ']' (m.series.map (Item.write 2)))]

theorem write_eq (m : Manifest) : m.write = writeBlock 0 '\x7b' '\x7d' m.fieldTexts := rfl

theorem allApart_fieldTexts {m m' : Manifest} (hfinite : m.SumsFinite)
    (hfinite' : m'.SumsFinite) : AllApart m.fieldTexts m'.fieldTexts := by
  have hseries := apart_writeBlock 1 '[' (by decide : ']' ≠ '\n')
    (allApart_items 2 hfinite hfinite')
  simp [fieldTexts, apart_writeField, apart_writeString, hseries]

theorem write_inj {m m' : Manifest} (hfinite : m.SumsFinite) (hfinite' : m'.SumsFinite) :
    m.write = m'.write ↔ m = m' := by
  refine ⟨fun hsame => ?_, congrArg _⟩
  rw [write_eq, write_eq] at hsame
  have hfields := writeBlock_append_inj (by decide) (allApart_fieldTexts hfinite hfinite')
    (congrArg (· ++ []) hsame)
  simp only [fieldTexts, List.cons.injEq, writeField_inj, writeString_inj, and_true] at hfields
  obtain ⟨hversion, htitle, hgeneratedAt, hseries⟩ := hfields
  have hitems := writeBlock_append_inj (by decide) (allApart_items 2 hfinite hfinite')
    (congrArg (· ++ []) hseries)
  have hseries := (map_write_inj hfinite hfinite').mp hitems
  cases m
  cases m'
  simp_all

theorem bytes_inj {m m' : Manifest} (hfinite : m.SumsFinite) (hfinite' : m'.SumsFinite) :
    m.bytes = m'.bytes ↔ m = m' := by
  rw [bytes, bytes, Utf8.encode_injective.eq_iff, write_inj hfinite hfinite']

end Manifest

/-! ## Files -/

namespace Output

/-- Files of manifests with finite sums hold the same only if the manifests are the same in
every field, and what is written for a finite sum is read as that number again. -/
theorem manifests_told_apart {t t' later later' : FileTree} {m m' : Manifest} {p p' : Path}
    (hfinite : m.SumsFinite) (hfinite' : m'.SumsFinite)
    (hstored : storeManifest t m p = (.ok (), later))
    (hstored' : storeManifest t' m' p' = (.ok (), later')) :
    (∃ content content', later.read p = .ok content ∧ later'.read p' = .ok content' ∧
      (content = content' ↔ m = m')) ∧
    ∀ x : Binary64, x.isFinite → Trace.readField (Manifest.writeSum (some x)) = some x := by
  obtain ⟨place, hfind⟩ := find_stored hstored
  obtain ⟨place', hfind'⟩ := find_stored hstored'
  refine ⟨⟨m.bytes, m'.bytes, ?_, ?_, Manifest.bytes_inj hfinite hfinite'⟩, fun x hx => ?_⟩
  · exact FileTree.read_of_find hfind
  · exact FileTree.read_of_find hfind'
  · exact Json.readField_written hx

/-- A manifest whose only sum is a zero. -/
def zeroSum (negative : Bool) : Manifest :=
  ⟨Manifest.currentVersion, "", "", [⟨"a,\n\"", 1, 0, some (.zero negative)⟩]⟩

def zeroSumTree (negative : Bool) : FileTree :=
  (storeManifest emptyTree (zeroSum negative) (.ofString "out/m.json")).2

theorem zeroSum_sumsFinite (negative : Bool) : (zeroSum negative).SumsFinite := by
  cases negative <;> simp [Manifest.SumsFinite, Manifest.Item.SumFinite, zeroSum] <;> rfl

theorem zeroSum_stored (negative : Bool) :
    storeManifest emptyTree (zeroSum negative) (.ofString "out/m.json") =
      (.ok (), zeroSumTree negative) := by
  refine Prod.ext ?_ rfl
  cases negative <;> decide +kernel

theorem zeroSums_told_apart :
    (zeroSum false).SumsFinite ∧ (zeroSum true).SumsFinite ∧
      storeManifest emptyTree (zeroSum false) (.ofString "out/m.json") =
        (.ok (), zeroSumTree false) ∧
      storeManifest emptyTree (zeroSum true) (.ofString "out/m.json") =
        (.ok (), zeroSumTree true) ∧
      (∃ content content', (zeroSumTree false).read (.ofString "out/m.json") = .ok content ∧
        (zeroSumTree true).read (.ofString "out/m.json") = .ok content' ∧
        (content = content' ↔ zeroSum false = zeroSum true)) ∧
      ∀ x : Binary64, x.isFinite → Trace.readField (Manifest.writeSum (some x)) = some x :=
  ⟨zeroSum_sumsFinite false, zeroSum_sumsFinite true, zeroSum_stored false, zeroSum_stored true,
    manifests_told_apart (zeroSum_sumsFinite false) (zeroSum_sumsFinite true)
      (zeroSum_stored false) (zeroSum_stored true)⟩

end Output

end RewardPlot
