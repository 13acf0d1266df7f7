import RewardPlot.Proofs.Text.Splitting
import RewardPlot.Summary
/-!
# Rows of the summary

A row of the table has four cells with a space between them: the label of a series on the left
of its cell, and three numbers on the right of theirs.  However long the label is and whatever
is in it, the last three words of the row are the numbers.
-/

namespace RewardPlot

namespace Decimal

theorem space_not_mem_digits (n : Nat) : ' ' ∉ digits n := by
  intro hspace
  have hdigit : ' '.isDigit := Nat.isDigit_of_mem_toDigits (by decide) (by decide) hspace
  exact absurd hdigit (by decide)

theorem space_not_mem_zeros (n : Nat) : ' ' ∉ List.replicate n '0' := by
  intro hspace
  exact absurd (List.eq_of_mem_replicate hspace) (by decide)

theorem space_not_mem_positional (d : Decimal) : ' ' ∉ d.positional := by
  rw [positional]
  dsimp only
  split
  · rw [List.mem_append, not_or]
    exact ⟨space_not_mem_digits _, space_not_mem_zeros _⟩
  · have hpadded (n : Nat) : ' ' ∉ List.replicate n '0' ++ digits d.significand := by
      rw [List.mem_append, not_or]
      exact ⟨space_not_mem_zeros n, space_not_mem_digits _⟩
    rw [List.mem_append, List.mem_cons, not_or, not_or]
    exact ⟨fun h => hpadded _ (List.mem_of_mem_take h), by decide,
      fun h => hpadded _ (List.mem_of_mem_drop h)⟩

theorem positional_ne_nil (d : Decimal) : d.positional ≠ [] := by
  rw [positional]
  dsimp only
  split
  · exact List.append_ne_nil_of_left_ne_nil Nat.toDigits_ne_nil _
  · exact List.append_ne_nil_of_right_ne_nil _ (List.cons_ne_nil _ _)

end Decimal

namespace Binary64

theorem withSign_eq_or (negative : Bool) (text : List Char) :
    withSign negative text = text ∨ withSign negative text = '-' :: text := by
  cases negative
  · exact .inl rfl
  · exact .inr rfl

theorem writtenFixed_word (places : Nat) (x : Binary64) :
    x.writtenFixed places ≠ [] ∧ ' ' ∉ x.writtenFixed places := by
  have hsigned {negative : Bool} {text : List Char} (hne : text ≠ []) (hspace : ' ' ∉ text) :
      withSign negative text ≠ [] ∧ ' ' ∉ withSign negative text := by
    rcases withSign_eq_or negative text with hsign | hsign
    · rw [hsign]
      exact ⟨hne, hspace⟩
    · rw [hsign]
      exact ⟨List.cons_ne_nil _ _, by simpa using hspace⟩
  cases x with
  | nan => exact ⟨List.cons_ne_nil _ _, show ' ' ∉ ['N', 'a', 'N'] by decide⟩
  | infinite negative =>
      exact hsigned (List.cons_ne_nil _ _) (show ' ' ∉ ['i', 'n', 'f'] by decide)
  | finite negative m =>
      exact hsigned (Decimal.positional_ne_nil _) (Decimal.space_not_mem_positional _)

end Binary64

namespace Summary

/-! ## Cells -/

/-- A text at the left of a cell that has at least some width. -/
def LeftCell (width : Nat) (text cell : List Char) : Prop :=
  ∃ spaces, cell = text ++ List.replicate spaces ' ' ∧ cell.length = max width text.length

/-- A text at the right of a cell that has at least some width. -/
def RightCell (width : Nat) (text cell : List Char) : Prop :=
  ∃ spaces, cell = List.replicate spaces ' ' ++ text ∧ cell.length = max width text.length

theorem leftCell_padRight (width : Nat) (s : String) :
    LeftCell width s.toList (padRight width s).toList := by
  refine ⟨width - s.length, by rw [padRight, String.toList_append, String.toList_ofList], ?_⟩
  rw [padRight, String.length_toList, String.length_append, String.length_ofList,
    List.length_replicate, String.length_toList]
  omega

theorem rightCell_padLeft (width : Nat) (s : String) :
    RightCell width s.toList (padLeft width s).toList := by
  refine ⟨width - s.length, by rw [padLeft, String.toList_append, String.toList_ofList], ?_⟩
  rw [padLeft, String.length_toList, String.length_append, String.length_ofList,
    List.length_replicate, String.length_toList]
  omega

theorem toList_tableLine (name points masked sum : String) :
    (tableLine name points masked sum).toList = (padRight 40 name).toList ++
      ' ' :: ((padLeft 8 points).toList ++ ' ' :: ((padLeft 8 masked).toList ++
        ' ' :: (padLeft 16 sum).toList)) := by
  have hline : tableLine name points masked sum = padRight 40 name ++ " " ++ padLeft 8 points ++
    " " ++ padLeft 8 masked ++ " " ++ padLeft 16 sum := rfl
  simp [hline]

/-! ## Rows -/

/-- A row that shows a series: its label, and in decimal digits the number of its positions,
the number of masked ones, and its sum with four places. -/
def Shows (s : Series) (row : String) : Prop :=
  ∃ label points masked sum, row.toList = label ++ ' ' :: (points ++ ' ' :: (masked ++ ' ' :: sum)) ∧
    LeftCell 40 s.label.toList label ∧
    RightCell 8 (Nat.toDigits 10 s.trace.length) points ∧
    RightCell 8 (Nat.toDigits 10 s.trace.masked) masked ∧
    RightCell 16 (s.trace.sum.writtenFixed 4) sum

theorem shows_seriesLine (s : Series) : Shows s (seriesLine s) := by
  refine ⟨_, _, _, _, toList_tableLine _ _ _ _, leftCell_padRight 40 s.label, ?_, ?_, ?_⟩
  · rw [← Nat.toList_repr]
    exact rightCell_padLeft 8 _
  · rw [← Nat.toList_repr]
    exact rightCell_padLeft 8 _
  · have hcell := rightCell_padLeft 16 (String.ofList (s.trace.sum.writtenFixed 4))
    rwa [String.toList_ofList] at hcell

/-- What stands between the spaces of a row. -/
def words (row : List Char) : List (List Char) := (row.splitOn ' ').filter (· ≠ [])

theorem words_append_space (front back : List Char) :
    words (front ++ ' ' :: back) = words front ++ words back := by
  rw [words, List.splitOn_append_cons_self, List.filter_append, words, words]

theorem words_rightCell {width : Nat} {text cell : List Char} (hcell : RightCell width text cell)
    (hne : text ≠ []) (hspace : ' ' ∉ text) : words cell = [text] := by
  obtain ⟨spaces, rfl, -⟩ := hcell
  induction spaces with
  | zero =>
      rw [List.replicate_zero, List.nil_append, words, List.splitOn_eq_singleton hspace]
      simpa using hne
  | succ spaces ih =>
      have hfirst : words ([] ++ ' ' :: (List.replicate spaces ' ' ++ text)) = [text] := by
        rw [words_append_space, ih]
        rfl
      exact hfirst

/-- The last words of a row are the numbers of the series. -/
theorem Shows.words_eq {s : Series} {row : String} (h : Shows s row) :
    ∃ front, words row.toList = front ++ [Nat.toDigits 10 s.trace.length,
      Nat.toDigits 10 s.trace.masked, s.trace.sum.writtenFixed 4] := by
  obtain ⟨label, points, masked, sum, hrow, -, hpoints, hmasked, hsum⟩ := h
  obtain ⟨hne, hspace⟩ := Binary64.writtenFixed_word 4 s.trace.sum
  refine ⟨words label, ?_⟩
  rw [hrow, words_append_space, words_append_space, words_append_space,
    words_rightCell hpoints Nat.toDigits_ne_nil (Decimal.space_not_mem_digits _),
    words_rightCell hmasked Nat.toDigits_ne_nil (Decimal.space_not_mem_digits _),
    words_rightCell hsum hne hspace]
  rfl

/-- Series that one row shows have the same number of positions, and of masked ones. -/
theorem Shows.counts_eq {s s' : Series} {row : String} (h : Shows s row) (h' : Shows s' row) :
    s.trace.length = s'.trace.length ∧ s.trace.masked = s'.trace.masked := by
  have hdigits {m n : Nat} (hsame : Nat.toDigits 10 m = Nat.toDigits 10 n) : m = n := by
    rw [← Nat.ofDigitChars_ten_toDigits (n := m), hsame, Nat.ofDigitChars_ten_toDigits]
  obtain ⟨front, hwords⟩ := h.words_eq
  obtain ⟨front', hwords'⟩ := h'.words_eq
  obtain ⟨-, hnumbers⟩ := List.append_inj' (hwords.symm.trans hwords') rfl
  simp only [List.cons.injEq] at hnumbers
  exact ⟨hdigits hnumbers.1, hdigits hnumbers.2.1⟩

end Summary

end RewardPlot
