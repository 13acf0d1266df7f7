import RewardPlot.Proofs.Trace.Words
import Mathlib.Logic.Relation
/-!
# Presentation

A text can be written in other ways that say the same: with other line ends, with blank lines
and comments put in, and with more or less white space where a reader does not see it.  One
edit of this kind leaves the words of each row as they are, and so do any number of edits.
-/

namespace RewardPlot.Trace

/-- White space that does not end a line. -/
def Spaces (text : List Char) : Prop := ∀ c ∈ text, Text.isBlank c ∧ c ≠ '\n'

/-- Lines without data: blank ones and those with a comment only. -/
inductive Dataless : List Char → Prop
  | blank {blanks : List Char} (hblanks : Spaces blanks) : Dataless blanks
  | comment {blanks comment : List Char} (hblanks : Spaces blanks) (hcomment : '\n' ∉ comment) :
      Dataless (blanks ++ '#' :: comment)

/-- Edits within a line: a comment at its end, and white space at both ends, on both sides of a
comma and before a comment. -/
inductive LineEdit : List Char → List Char → Prop
  | comment (line : List Char) {comment : List Char} (hcomment : '\n' ∉ comment) :
      LineEdit line (line ++ '#' :: comment)
  | start {blanks : List Char} (hblanks : Spaces blanks) (line : List Char) :
      LineEdit line (blanks ++ line)
  | stop (line : List Char) {blanks : List Char} (hblanks : Spaces blanks) :
      LineEdit line (line ++ blanks)
  | beforeComma (left : List Char) {blanks : List Char} (hblanks : Spaces blanks)
      (right : List Char) : LineEdit (left ++ ',' :: right) (left ++ blanks ++ ',' :: right)
  | afterComma (left : List Char) {blanks : List Char} (hblanks : Spaces blanks)
      (right : List Char) : LineEdit (left ++ ',' :: right) (left ++ ',' :: (blanks ++ right))
  | beforeComment (left : List Char) {blanks : List Char} (hblanks : Spaces blanks)
      (right : List Char) : LineEdit (left ++ '#' :: right) (left ++ blanks ++ '#' :: right)

/-- The text of some lines, with line breaks between them. -/
def ofLines (lines : List (List Char)) : List Char := ['\n'].intercalate lines

/-- The same text with a carriage return before each line break. -/
def withReturns (text : List Char) : List Char :=
  text.flatMap fun c => if c = '\n' then ['\r', '\n'] else [c]

/-- Edits of a text: carriage returns before all line breaks, a line without data at a line
boundary, and an edit within a line. -/
inductive Edit : List Char → List Char → Prop
  | returns (text : List Char) : Edit text (withReturns text)
  | insert (before after : List (List Char)) {line : List Char} (hline : Dataless line) :
      Edit (ofLines (before ++ after)) (ofLines (before ++ line :: after))
  | within (before after : List (List Char)) {line line' : List Char} (hline : '\n' ∉ line)
      (hedit : LineEdit line line') :
      Edit (ofLines (before ++ line :: after)) (ofLines (before ++ line' :: after))

/-! ## One line -/

theorem Spaces.isBlank {blanks : List Char} (hblanks : Spaces blanks) :
    ∀ c ∈ blanks, Text.isBlank c := fun c hc => (hblanks c hc).1

theorem Spaces.not_newline {blanks : List Char} (hblanks : Spaces blanks) : '\n' ∉ blanks :=
  fun hmem => (hblanks '\n' hmem).2 rfl

theorem lineWords?_dataless {line : List Char} (hline : Dataless line) :
    lineWords? line = none := by
  have hblank : ∀ {blanks : List Char}, Spaces blanks → lineWords? blanks = none := by
    intro blanks hblanks
    have happend := lineWords?_append_blank hblanks.isBlank []
    rw [List.nil_append] at happend
    rw [happend]
    rfl
  cases hline with
  | blank hblanks => exact hblank hblanks
  | comment hblanks hcomment => rw [lineWords?_comment, hblank hblanks]

theorem Dataless.not_newline {line : List Char} (hline : Dataless line) : '\n' ∉ line := by
  cases hline with
  | blank hblanks => exact hblanks.not_newline
  | comment hblanks hcomment => simp [hblanks.not_newline, hcomment]

theorem LineEdit.lineWords?_eq {line line' : List Char} (hedit : LineEdit line line') :
    lineWords? line' = lineWords? line := by
  cases hedit with
  | comment line hcomment => exact lineWords?_comment line _
  | start hblanks line => exact lineWords?_blank_append hblanks.isBlank line
  | stop line hblanks => exact lineWords?_append_blank hblanks.isBlank line
  | beforeComma left hblanks right => exact lineWords?_blank_comma hblanks.isBlank left right
  | afterComma left hblanks right => exact lineWords?_comma_blank hblanks.isBlank left right
  | beforeComment left hblanks right =>
      rw [lineWords?_comment, lineWords?_comment, lineWords?_append_blank hblanks.isBlank]

theorem LineEdit.not_newline {line line' : List Char} (hedit : LineEdit line line')
    (hline : '\n' ∉ line) : '\n' ∉ line' := by
  cases hedit with
  | comment line hcomment => simp [hline, hcomment]
  | start hblanks line => simp [hblanks.not_newline, hline]
  | stop line hblanks => simp [hblanks.not_newline, hline]
  | beforeComma left hblanks right | afterComma left hblanks right
  | beforeComment left hblanks right => simp_all [hblanks.not_newline]

/-! ## The lines of a text -/

theorem ofLines_cons_cons (line next : List Char) (lines : List (List Char)) :
    ofLines (line :: next :: lines) = line ++ '\n' :: ofLines (next :: lines) := by
  rw [ofLines, List.intercalate_cons_cons, List.append_assoc]
  rfl

theorem ofLines_splitOn (text : List Char) : ofLines (text.splitOn '\n') = text :=
  List.intercalate_splitOn '\n'

theorem wordRows_ofLines (lines : List (List Char)) :
    wordRows (ofLines lines) = lines.flatMap wordRows := by
  induction lines with
  | nil => rfl
  | cons line lines ih =>
      cases lines with
      | nil => simp [ofLines]
      | cons next lines =>
          rw [ofLines_cons_cons, wordRows_append, ih]
          rfl

theorem withReturns_of_line {line : List Char} (hline : '\n' ∉ line) : withReturns line = line := by
  induction line with
  | nil => rfl
  | cons c line ih =>
      obtain ⟨hc, hline⟩ := not_or.mp (mt List.mem_cons.mpr hline)
      rw [withReturns, List.flatMap_cons, if_neg (Ne.symm hc)]
      exact congrArg (c :: ·) (ih hline)

theorem wordRows_withReturns_ofLines {lines : List (List Char)}
    (hlines : ∀ line ∈ lines, '\n' ∉ line) :
    wordRows (withReturns (ofLines lines)) = lines.flatMap wordRows := by
  induction lines with
  | nil => rfl
  | cons line lines ih =>
      obtain ⟨hline, hlines⟩ := List.forall_mem_cons.mp hlines
      cases lines with
      | nil => simp [ofLines, withReturns_of_line hline]
      | cons next lines =>
          have hreturn : ∀ c ∈ ['\r'], Text.isBlank c :=
            List.forall_mem_singleton.mpr (by decide)
          have hline' : '\n' ∉ line ++ ['\r'] := by simp [hline]
          have hsplit : withReturns (line ++ '\n' :: ofLines (next :: lines)) =
              line ++ ['\r'] ++ '\n' :: withReturns (ofLines (next :: lines)) := by
            rw [withReturns, List.flatMap_append, List.flatMap_cons, if_pos rfl,
              ← withReturns, withReturns_of_line hline, List.append_assoc]
            rfl
          rw [ofLines_cons_cons, hsplit, wordRows_append, ih hlines, wordRows_of_line hline',
            lineWords?_append_blank hreturn, ← wordRows_of_line hline]
          rfl

theorem wordRows_withReturns (text : List Char) : wordRows (withReturns text) = wordRows text := by
  have hlines : ∀ line ∈ text.splitOn '\n', '\n' ∉ line :=
    fun line hline => Text.not_mem_of_mem_splitOn hline
  calc
    wordRows (withReturns text) = wordRows (withReturns (ofLines (text.splitOn '\n'))) := by
      rw [ofLines_splitOn]
    _ = wordRows (ofLines (text.splitOn '\n')) := by
      rw [wordRows_withReturns_ofLines hlines, wordRows_ofLines]
    _ = wordRows text := by rw [ofLines_splitOn]

theorem Edit.wordRows_eq {text text' : List Char} (hedit : Edit text text') :
    wordRows text' = wordRows text := by
  cases hedit with
  | returns text => exact wordRows_withReturns text
  | insert before after hline =>
      rw [wordRows_ofLines, wordRows_ofLines, List.flatMap_append, List.flatMap_cons,
        wordRows_of_line hline.not_newline, lineWords?_dataless hline, List.flatMap_append]
      rfl
  | within before after hline hedit =>
      rw [wordRows_ofLines, wordRows_ofLines, List.flatMap_append, List.flatMap_cons,
        wordRows_of_line (hedit.not_newline hline), hedit.lineWords?_eq, List.flatMap_append,
        List.flatMap_cons, wordRows_of_line hline]

/-- Texts that differ by any number of edits, made or taken back, have the same words row by row
and are the same trace. -/
theorem ofText_of_edits {text text' : List Char} (hedits : Relation.EqvGen Edit text text') :
    wordRows text' = wordRows text ∧ ofText text' = ofText text := by
  have hwords : wordRows text' = wordRows text := by
    induction hedits with
    | rel text text' hedit => exact hedit.wordRows_eq
    | refl text => rfl
    | symm text text' _ ih => exact ih.symm
    | trans text text' text'' _ _ ih ih' => exact ih'.trans ih
  exact ⟨hwords, ofText_eq_of_wordRows hwords⟩

/-- Two rows, and the same two with other white space, comments, a line without data and
carriage returns. -/
def plainText : List Char := ['1', ',', '2', '\n', '3', ' ']

def annotatedText : List Char :=
  ['1', ',', '\u00A0', '2', '\r', '\n', '\t', '#', ',', '\r', '\n', '3', '#', '4']

theorem plainText_edits_annotatedText : Relation.EqvGen Edit plainText annotatedText := by
  have hspace : ∀ c, Text.isBlank c → c ≠ '\n' → Spaces [c] :=
    fun c hc hne => List.forall_mem_singleton.mpr ⟨hc, hne⟩
  have hcomma : LineEdit ['1', ',', '2'] ['1', ',', '\u00A0', '2'] :=
    .afterComma ['1'] (hspace '\u00A0' (by decide) (by decide)) ['2']
  have hnote : Dataless ['\t', '#', ','] :=
    .comment (hspace '\t' (by decide) (by decide)) (by decide)
  have hstop : LineEdit ['3'] ['3', ' '] := .stop ['3'] (hspace ' ' (by decide) (by decide))
  have hcomment : LineEdit ['3'] ['3', '#', '4'] := .comment ['3'] (by decide)
  have hfirst := Edit.within [] [['3', ' ']] (by decide) hcomma
  have hsecond := Edit.insert [['1', ',', '\u00A0', '2']] [['3', ' ']] hnote
  have hthird := Edit.within [['1', ',', '\u00A0', '2'], ['\t', '#', ',']] [] (by decide) hstop
  have hfourth := Edit.within [['1', ',', '\u00A0', '2'], ['\t', '#', ',']] [] (by decide) hcomment
  have hfifth := Edit.returns
    (ofLines [['1', ',', '\u00A0', '2'], ['\t', '#', ','], ['3', '#', '4']])
  -- The blank behind the last row is taken away, so that edit is used backwards.
  refine .trans _ _ _ (.rel _ _ hfirst) (.trans _ _ _ (.rel _ _ hsecond) ?_)
  refine .trans _ _ _ (.symm _ _ (.rel _ _ hthird)) ?_
  exact .trans _ _ _ (.rel _ _ hfourth) (.rel _ _ hfifth)

theorem ofText_annotatedText :
    Relation.EqvGen Edit plainText annotatedText ∧ ofText annotatedText = ofText plainText ∧
      (ofText annotatedText).values =
        [1, 2, 3].map (fun n => some (Numeral.decimal false ⟨n, 0⟩).toBinary64) ++ [none] := by
  have hsame : ofText annotatedText = ofText plainText :=
    (ofText_of_edits plainText_edits_annotatedText).2
  refine ⟨plainText_edits_annotatedText, hsame, ?_⟩
  rw [hsame]
  rfl

end RewardPlot.Trace
