import RewardPlot.Proofs.Text.Splitting
import RewardPlot.Trace.Layout
import Mathlib.Data.List.GetD
/-!
# The layout of a trace

The rows of a text are the data lines of it, field by field.  A trace is those rows as a
rectangle, row after row, so the row and the column of a field give its position.
-/

namespace RewardPlot.Trace

/-! ## Data lines and their fields -/

/-- The part of a line that is no comment. -/
def dataPart (line : List Char) : List Char := line.takeWhile (· != '#')

/-- The lines that hold more than white space and a comment, each without its comment. -/
def dataLines (text : List Char) : List (List Char) :=
  ((text.splitOn '\n').map dataPart).filter fun line => !line.all Text.isBlank

def fields (line : List Char) : List (List Char) := line.splitOn ','

def mostFields (lines : List (List Char)) : Nat :=
  (lines.map fun line => (fields line).length).foldl max 0

/-- The number of fields on some lines that are numbers. -/
def numberFields (lines : List (List Char)) : Nat :=
  (lines.flatMap fields).countP fun field => (readField field).isSome

theorem readField_cons_blank {c : Char} (hc : Text.isBlank c) (field : List Char) :
    readField (c :: field) = readField field := by
  unfold readField Text.trim
  rw [Text.trimBy_cons hc]

theorem readField_append_blank {back : List Char} (hback : ∀ c ∈ back, Text.isBlank c)
    (field : List Char) : readField (field ++ back) = readField field := by
  unfold readField Text.trim
  rw [Text.trimBy_append_right hback]

theorem not_mem_of_isBlank {c : Char} (hc : Text.isBlank c = false) {text : List Char}
    (htext : ∀ d ∈ text, Text.isBlank d) : c ∉ text := by
  intro hmem
  rw [htext c hmem] at hc
  contradiction

theorem readRow_trim (line : List Char) :
    readRow (Text.trim line) = (fields line).map readField := by
  obtain ⟨front, back, hline, hfront, hback⟩ :=
    Text.exists_eq_append_trimBy Text.isBlank line
  have hcomma : Text.isBlank ',' = false := by decide
  calc
    readRow (Text.trim line) = ((Text.trim line).splitOn ',').map readField := rfl
    _ = ((front ++ Text.trim line).splitOn ',').map readField :=
      (Text.map_splitOn_append_left (not_mem_of_isBlank hcomma hfront)
        (fun c hc => readField_cons_blank (hfront c hc)) _).symm
    _ = ((front ++ Text.trim line ++ back).splitOn ',').map readField :=
      (Text.map_splitOn_append_right (not_mem_of_isBlank hcomma hback)
        (readField_append_blank hback) _).symm
    _ = (fields line).map readField := by rw [Text.trim, ← hline, fields]

theorem lineData?_eq (line : List Char) :
    lineData? line =
      if (dataPart line).all Text.isBlank then none else some (Text.trim (dataPart line)) := by
  have hnil : Text.trim (dataPart line) = [] ↔ (dataPart line).all Text.isBlank := by
    unfold Text.trim
    rw [Text.trimBy_eq_nil_iff, List.all_eq_true]
  unfold lineData?
  simp only [← hnil]
  rfl

theorem map_filterMap_lineData? (lines : List (List Char)) :
    (lines.filterMap lineData?).map readRow =
      ((lines.map dataPart).filter fun line => !line.all Text.isBlank).map fun line =>
        (fields line).map readField := by
  induction lines with
  | nil => rfl
  | cons line lines ih =>
      rw [List.filterMap_cons, lineData?_eq, List.map_cons, List.filter_cons]
      by_cases hblank : (dataPart line).all Text.isBlank = true
      · simp only [hblank, if_true, Bool.not_true, Bool.false_eq_true, if_false, ih]
      · simp only [hblank, if_false, Bool.not_false, if_true, List.map_cons, ih,
          readRow_trim, Bool.false_eq_true]

theorem rows_eq_map_dataLines (text : List Char) :
    rows text = (dataLines text).map fun line => (fields line).map readField := by
  exact map_filterMap_lineData? _

/-! ## Rectangles -/

theorem foldl_max_eq (l : List Nat) (n : Nat) : l.foldl max n = max n (l.foldl max 0) := by
  induction l generalizing n with
  | nil => simp
  | cons m l ih =>
      rw [List.foldl_cons, List.foldl_cons, ih, ih (max 0 m)]
      omega

theorem le_foldl_max {l : List Nat} {m : Nat} (hm : m ∈ l) : m ≤ l.foldl max 0 := by
  induction l with
  | nil => simp at hm
  | cons n l ih =>
      rw [List.foldl_cons, foldl_max_eq]
      rcases List.mem_cons.mp hm with rfl | hm
      · omega
      · have := ih hm
        omega

theorem length_le_columns {rows : List (List (Option Binary64))} {row : List (Option Binary64)}
    (hrow : row ∈ rows) : row.length ≤ columns rows :=
  le_foldl_max (List.mem_map_of_mem hrow)

theorem length_fill {n : Nat} {row : List (Option Binary64)} (hrow : row.length ≤ n) :
    (fill n row).length = n := by
  rw [fill, List.length_append, List.length_replicate]
  omega

theorem getElem?_fill {n c : Nat} {row : List (Option Binary64)} (hrow : row.length ≤ n)
    (hc : c < n) : (fill n row)[c]? = some (row[c]?.join) := by
  rw [fill, List.getElem?_append]
  split
  · next h => simp [List.getElem?_eq_getElem h]
  · next h =>
    rw [List.getElem?_replicate, if_pos (by omega), List.getElem?_eq_none (by omega)]
    rfl

/-- Equal lengths turn a row and a column into a position. -/
theorem getElem?_flatMap_of_length {α β : Type} {f : α → List β} {n : Nat} {l : List α}
    (hf : ∀ a ∈ l, (f a).length = n) {r c : Nat} (hr : r < l.length) (hc : c < n) :
    (l.flatMap f)[r * n + c]? = (f l[r])[c]? := by
  induction l generalizing r with
  | nil => simp at hr
  | cons a l ih =>
      have ha : (f a).length = n := hf a (by simp)
      rw [List.flatMap_cons, List.getElem?_append]
      cases r with
      | zero => rw [Nat.zero_mul, Nat.zero_add, if_pos (by omega)]; rfl
      | succ r =>
          have hmul : (r + 1) * n = n + r * n := by rw [Nat.succ_mul, Nat.add_comm]
          rw [if_neg (by omega), ha, hmul, Nat.add_assoc, Nat.add_sub_cancel_left,
            List.getElem_cons_succ]
          exact ih (fun b hb => hf b (by simp [hb])) (by simpa using hr)

theorem length_ofRows (rows : List (List (Option Binary64))) :
    (ofRows rows).length = rows.length * columns rows := by
  have hconst : rows.map (fun row => (fill (columns rows) row).length) =
      List.replicate rows.length (columns rows) := by
    rw [List.eq_replicate_iff]
    refine ⟨List.length_map _, fun n hn => ?_⟩
    obtain ⟨row, hrow, rfl⟩ := List.mem_map.mp hn
    exact length_fill (length_le_columns hrow)
  rw [length, ofRows, List.length_flatMap, hconst, List.sum_replicate_nat]

theorem getElem?_ofRows {rows : List (List (Option Binary64))} {r c : Nat}
    (hr : r < rows.length) (hc : c < columns rows) :
    (ofRows rows).values[r * columns rows + c]? = some (rows[r][c]?.join) := by
  have hlength : ∀ row ∈ rows, (fill (columns rows) row).length = columns rows :=
    fun row hrow => length_fill (length_le_columns hrow)
  rw [ofRows, getElem?_flatMap_of_length hlength hr hc]
  exact getElem?_fill (length_le_columns (List.getElem_mem hr)) hc

theorem present_ofRows (rows : List (List (Option Binary64))) :
    (ofRows rows).present = rows.flatten.filterMap id := by
  have hfill : ∀ n row, (fill n row).filterMap id = row.filterMap id := by
    intro n row
    simp [fill, List.filterMap_append]
  rw [present, ofRows, List.filterMap_flatMap]
  simp only [hfill, List.filterMap_flatten]
  rfl

theorem length_present_add_masked (t : Trace) : t.present.length + t.masked = t.length := by
  obtain ⟨values⟩ := t
  unfold present masked length
  induction values with
  | nil => rfl
  | cons value values ih =>
      cases value with
      | none => simp only [List.filterMap_cons, List.countP_cons, List.length_cons,
          Option.isNone_none, id_eq, if_true] at ih ⊢; omega
      | some v => simp only [List.filterMap_cons, List.countP_cons, List.length_cons,
          Option.isNone_some, id_eq, Bool.false_eq_true, if_false] at ih ⊢; omega

/-! ## The layout -/

theorem columns_rows (text : List Char) : columns (rows text) = mostFields (dataLines text) := by
  rw [rows_eq_map_dataLines, columns, mostFields, List.map_map]
  simp only [Function.comp_def, List.length_map]

theorem length_present_ofText (text : List Char) :
    (ofText text).present.length = numberFields (dataLines text) := by
  rw [ofText, present_ofRows, rows_eq_map_dataLines, numberFields, ← List.flatMap_def,
    List.length_filterMap_eq_countP, List.countP_flatMap, List.countP_flatMap]
  congr 1
  apply List.map_congr_left
  intro line _
  rw [Function.comp_apply, Function.comp_apply, List.countP_map]
  rfl

/-- The data lines of a text, field by field, are the trace: as many positions as a
rectangle has that holds them all, each position with the value of its field, masked where
the line has no such field, and as many values as there are fields that are numbers. -/
theorem layout_ofText (text : List Char) :
    let lines := dataLines text
    let width := mostFields lines
    (ofText text).length = lines.length * width ∧
      (∀ (r c : Nat) (hr : r < lines.length), c < width →
        (ofText text).values[r * width + c]? = some ((fields lines[r])[c]?.bind readField)) ∧
      (ofText text).present.length = numberFields lines ∧
      numberFields lines + (ofText text).masked = lines.length * width := by
  intro lines width
  have hcolumns : columns (rows text) = width := columns_rows text
  have hrows : rows text = lines.map fun line => (fields line).map readField :=
    rows_eq_map_dataLines text
  have hrowCount : (rows text).length = lines.length := by rw [hrows, List.length_map]
  have hlength : (ofText text).length = lines.length * width := by
    rw [ofText, length_ofRows, hrowCount, hcolumns]
  have hpresent := length_present_ofText text
  refine ⟨hlength, ?_, hpresent, ?_⟩
  · intro r c hr hc
    rw [← hcolumns] at hc ⊢
    rw [ofText, getElem?_ofRows (hrowCount ▸ hr) hc]
    simp only [hrows, List.getElem_map, List.getElem?_map]
    cases (fields lines[r])[c]? <;> rfl
  · rw [← hpresent, length_present_add_masked, hlength]

/-- A text with a field that is no number, a line without data, and a short line. -/
def raggedText : List Char := ['1', ',', 'x', ' ', ',', '3', '\n', '#', '\n', '4', ' ', '#', '5']

theorem getElem?_raggedText :
    1 < (dataLines raggedText).length ∧ 2 < mostFields (dataLines raggedText) ∧
      (ofText raggedText).values[1 * mostFields (dataLines raggedText) + 0]? = some (some 4) ∧
      (ofText raggedText).values[1 * mostFields (dataLines raggedText) + 2]? = some none := by
  have hr : 1 < (dataLines raggedText).length := by decide
  have hc : 2 < mostFields (dataLines raggedText) := by decide
  have hvalue : readField ['4', ' '] = some 4 := by decide +kernel
  refine ⟨hr, hc, ?_, ?_⟩
  · rw [(layout_ofText raggedText).2.1 1 0 hr (Nat.zero_lt_of_lt hc), ← hvalue]
    rfl
  · rw [(layout_ofText raggedText).2.1 1 2 hr hc]
    rfl

end RewardPlot.Trace
