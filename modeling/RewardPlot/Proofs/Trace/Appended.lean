import RewardPlot.Proofs.Trace.Tables
/-!
# Texts one after the other

A text that is put behind another one, from the next line on, adds its rows to those that are
there.  The values stay as they are and follow each other.  Where they stand can change, since
all rows are filled up to the longest one.
-/

namespace RewardPlot.Trace

/-! ## Lines and rows -/

theorem dataLines_append (text rest : List Char) :
    dataLines (text ++ '\n' :: rest) = dataLines text ++ dataLines rest := by
  rw [dataLines, List.splitOn_append_cons_self, List.map_append, List.filter_append, dataLines,
    dataLines]

theorem mostFields_append (lines more : List (List Char)) :
    mostFields (lines ++ more) = max (mostFields lines) (mostFields more) := by
  rw [mostFields, List.map_append, List.foldl_append, foldl_max_eq, mostFields, mostFields]

theorem rows_append (text rest : List Char) :
    rows (text ++ '\n' :: rest) = rows text ++ rows rest := by
  rw [rows_eq_map_dataLines, dataLines_append, List.map_append, rows_eq_map_dataLines,
    rows_eq_map_dataLines]

theorem length_rows (text : List Char) : (rows text).length = (dataLines text).length := by
  rw [rows_eq_map_dataLines, List.length_map]

theorem length_ofText (text : List Char) :
    (ofText text).length = (dataLines text).length * mostFields (dataLines text) := by
  rw [ofText, length_ofRows, length_rows, columns_rows]

theorem rows_eq_nil_iff (text : List Char) : rows text = [] ↔ dataLines text = [] := by
  rw [rows_eq_map_dataLines, List.map_eq_nil_iff]

/-! ## Rectangles -/

section Rectangles

variable {first second : List (List (Option Binary64))}

theorem columns_append : columns (first ++ second) = max (columns first) (columns second) := by
  rw [columns, List.map_append, List.foldl_append, foldl_max_eq, columns, columns]

/-- Rows that are filled up to one length whether they stand together or not keep their
positions. -/
theorem values_ofRows_append
    (hcolumns : columns first = columns second ∨ first = [] ∨ second = []) :
    (ofRows (first ++ second)).values = (ofRows first).values ++ (ofRows second).values := by
  have hfirst : first.flatMap (fill (columns (first ++ second))) =
      first.flatMap (fill (columns first)) := by
    rcases hcolumns with hsame | rfl | rfl
    · rw [columns_append, hsame, max_self]
    · rfl
    · rw [List.append_nil]
  have hsecond : second.flatMap (fill (columns (first ++ second))) =
      second.flatMap (fill (columns second)) := by
    rcases hcolumns with hsame | rfl | rfl
    · rw [columns_append, hsame, max_self]
    · rw [List.nil_append]
    · rfl
  rw [ofRows, List.flatMap_append, hfirst, hsecond, ofRows, ofRows]

/-- Shorter rows that stand beside longer ones take up more positions than alone. -/
theorem eq_or_eq_zero_of_area {m n c d : Nat} (harea : (m + n) * max c d = m * c + n * d) :
    c = d ∨ m = 0 ∨ n = 0 := by
  rw [Nat.add_mul] at harea
  rcases Nat.le_total c d with hle | hle
  · rw [Nat.max_eq_right hle, Nat.add_left_inj] at harea
    rcases Nat.eq_zero_or_pos m with hm | hm
    · exact .inr (.inl hm)
    · exact .inl (Nat.eq_of_mul_eq_mul_left hm harea).symm
  · rw [Nat.max_eq_left hle, Nat.add_right_inj] at harea
    rcases Nat.eq_zero_or_pos n with hn | hn
    · exact .inr (.inr hn)
    · exact .inl (Nat.eq_of_mul_eq_mul_left hn harea)

end Rectangles

/-! ## Traces -/

theorem present_ofText_append (text rest : List Char) :
    (ofText (text ++ '\n' :: rest)).present = (ofText text).present ++ (ofText rest).present := by
  rw [ofText, present_ofRows, rows_append, List.flatten_append, List.filterMap_append, ofText,
    present_ofRows, ofText, present_ofRows]

theorem length_ofText_append (text rest : List Char) :
    (ofText (text ++ '\n' :: rest)).length =
      ((dataLines text).length + (dataLines rest).length) *
        max (mostFields (dataLines text)) (mostFields (dataLines rest)) := by
  rw [length_ofText, dataLines_append, List.length_append, mostFields_append]

/-- The trace of two texts, one after the other, has the values of the first and then those of
the second, in rows that are all as long as the longest of both.  Its positions are those of
the two traces exactly when the longest rows of both are equally long or one of them has no
data. -/
theorem ofText_append (text rest : List Char) :
    let lines := dataLines text
    let more := dataLines rest
    let both := ofText (text ++ '\n' :: rest)
    both.present = (ofText text).present ++ (ofText rest).present ∧
      both.length =
        (lines.length + more.length) * max (mostFields lines) (mostFields more) ∧
      (both.values = (ofText text).values ++ (ofText rest).values ↔
        mostFields lines = mostFields more ∨ lines = [] ∨ more = []) := by
  intro lines more both
  have hlength := length_ofText_append text rest
  refine ⟨present_ofText_append text rest, hlength, ?_⟩
  constructor
  · intro hvalues
    have hsum : both.length = (ofText text).length + (ofText rest).length := by
      rw [length, hvalues, List.length_append, length, length]
    rw [hlength, length_ofText, length_ofText] at hsum
    simpa only [List.length_eq_zero_iff] using eq_or_eq_zero_of_area hsum
  · intro hlines
    have hcolumns : columns (rows text) = columns (rows rest) ∨
        rows text = [] ∨ rows rest = [] := by
      rwa [columns_rows, columns_rows, rows_eq_nil_iff, rows_eq_nil_iff]
    show (ofText (text ++ '\n' :: rest)).values = _
    rw [ofText, rows_append, values_ofRows_append hcolumns, ofText, ofText]

/-- A longer line behind a shorter one masks a position that was not there before. -/
example : (ofText ['1', '\n', '2', ',', '3']).values =
    [some (Numeral.decimal false ⟨1, 0⟩).toBinary64, none,
      some (Numeral.decimal false ⟨2, 0⟩).toBinary64,
      some (Numeral.decimal false ⟨3, 0⟩).toBinary64] := rfl

end RewardPlot.Trace
