import RewardPlot.Proofs.Trace.Words
/-!
# Tables as texts

The tokens of a rectangular table, written with commas between them and line ends behind the
rows, are read back in their order and none is added or lost.
-/

namespace RewardPlot.Trace

/-! ## Written tables -/

inductive LineEnd where
  | newline
  | returnNewline
deriving DecidableEq

/-- What stands before the line break. -/
def LineEnd.returns : LineEnd → List Char
  | newline => []
  | returnNewline => ['\r']

def LineEnd.text (stop : LineEnd) : List Char := stop.returns ++ ['\n']

def joinRow (tokens : List (List Char)) : List Char := [','].intercalate tokens

/-- The rows of a table, each with its line end, and a last row, which may have none. -/
structure Table where
  rows : List (List (List Char) × LineEnd)
  last : List (List Char)
  stop : Option LineEnd

namespace Table

def tokens (t : Table) : List (List (List Char)) := t.rows.map Prod.fst ++ [t.last]

def text (t : Table) : List Char :=
  t.rows.flatMap (fun row => joinRow row.1 ++ row.2.text) ++
    (joinRow t.last ++ (t.stop.map LineEnd.text).getD [])

end Table

/-- A row that is told apart from a line without data, of tokens that hold no separator. -/
structure ProperRow (row : List (List Char)) : Prop where
  nonempty : row ≠ []
  no_comma : ∀ token ∈ row, ',' ∉ token
  no_hash : ∀ token ∈ row, '#' ∉ token
  no_newline : ∀ token ∈ row, '\n' ∉ token
  not_blank : ∀ token, row = [token] → token.all Text.isBlank = false

/-! ## Reading rows -/

variable {row : List (List Char)} {blanks : List Char}

theorem not_mem_joinRow {c : Char} (hcomma : c ≠ ',') (hrow : ∀ token ∈ row, c ∉ token) :
    c ∉ joinRow row := by
  cases row with
  | nil => exact List.not_mem_nil
  | cons token row =>
      rw [joinRow, Text.intercalate_cons]
      simp_all

theorem ProperRow.joinRow_not_blank (hrow : ProperRow row) :
    (joinRow row).all Text.isBlank = false := by
  match hcases : row with
  | [] => exact absurd rfl hrow.nonempty
  | [token] =>
      rw [joinRow, List.intercalate_singleton]
      exact hrow.not_blank token rfl
  | token :: next :: rest =>
      rw [joinRow, List.intercalate_cons_cons, List.all_append, List.all_append, List.all_cons,
        not_isBlank_comma, Bool.false_and, Bool.and_false, Bool.false_and]

theorem ProperRow.lineWords?_joinRow (hrow : ProperRow row) :
    lineWords? (joinRow row) = some (row.map Text.trim) := by
  have hhash : '#' ∉ joinRow row := not_mem_joinRow (by decide) hrow.no_hash
  rw [lineWords?, dataPart_eq_self hhash, dataWords?, hrow.joinRow_not_blank,
    if_neg Bool.false_ne_true, words, fields, joinRow,
    List.splitOn_intercalate ',' hrow.no_comma hrow.nonempty]

theorem LineEnd.returns_blank (stop : LineEnd) : ∀ c ∈ stop.returns, Text.isBlank c := by
  cases stop with
  | newline => exact fun _ hc => absurd hc List.not_mem_nil
  | returnNewline => exact List.forall_mem_singleton.mpr (by decide)

theorem LineEnd.returns_not_newline (stop : LineEnd) : '\n' ∉ stop.returns := by
  cases stop <;> decide

theorem ProperRow.wordRows_joinRow (hrow : ProperRow row) :
    wordRows (joinRow row) = [row.map Text.trim] := by
  have hnewline : '\n' ∉ joinRow row := not_mem_joinRow (by decide) hrow.no_newline
  rw [wordRows_of_line hnewline, hrow.lineWords?_joinRow]
  rfl

theorem ProperRow.wordRows_append (hrow : ProperRow row) (stop : LineEnd) (rest : List Char) :
    wordRows (joinRow row ++ stop.text ++ rest) = row.map Text.trim :: wordRows rest := by
  have hnewline : '\n' ∉ joinRow row ++ stop.returns := by
    have hnewline : '\n' ∉ joinRow row := not_mem_joinRow (by decide) hrow.no_newline
    simp [hnewline, stop.returns_not_newline]
  have hsplit : joinRow row ++ stop.text ++ rest = joinRow row ++ stop.returns ++ '\n' :: rest := by
    simp [LineEnd.text]
  rw [hsplit, Trace.wordRows_append, wordRows_of_line hnewline,
    lineWords?_append_blank stop.returns_blank, hrow.lineWords?_joinRow]
  rfl

theorem Table.wordRows_text {t : Table} (hrows : ∀ row ∈ t.tokens, ProperRow row) :
    wordRows t.text = t.tokens.map (List.map Text.trim) := by
  obtain ⟨rows, last, stop⟩ := t
  induction rows with
  | nil =>
      have hlast : ProperRow last := hrows last (by simp [tokens])
      cases stop with
      | none => simpa [text, tokens] using hlast.wordRows_joinRow
      | some stop =>
          have happend := hlast.wordRows_append stop []
          rw [List.append_nil, show wordRows [] = [] from rfl] at happend
          simpa [text, tokens] using happend
  | cons row rows ih =>
      obtain ⟨row, stop'⟩ := row
      have hrow : ProperRow row := hrows row (by simp [tokens])
      have hrest := ih fun r hr => hrows r (by simp_all [tokens])
      have hsplit : text ⟨(row, stop') :: rows, last, stop⟩ =
          joinRow row ++ stop'.text ++ text ⟨rows, last, stop⟩ := by
        simp [text]
      rw [hsplit, hrow.wordRows_append, hrest]
      rfl

/-! ## Rectangles -/

theorem columns_le {rows : List (List (Option Binary64))} {n : Nat}
    (hrows : ∀ row ∈ rows, row.length ≤ n) : columns rows ≤ n := by
  induction rows with
  | nil => exact Nat.zero_le n
  | cons row rows ih =>
      obtain ⟨hrow, hrows⟩ := List.forall_mem_cons.mp hrows
      have hrest : (rows.map List.length).foldl max 0 ≤ n := ih hrows
      rw [columns, List.map_cons, List.foldl_cons, foldl_max_eq]
      omega

theorem ofRows_rectangular {rows : List (List (Option Binary64))} {width : Nat}
    (hrows : ∀ row ∈ rows, row.length = width) : ofRows rows = ⟨rows.flatten⟩ := by
  have hcolumns : columns rows ≤ width := columns_le fun row hrow => Nat.le_of_eq (hrows row hrow)
  have hfill : ∀ row ∈ rows, fill (columns rows) row = row := by
    intro row hrow
    rw [fill, hrows row hrow, Nat.sub_eq_zero_of_le hcolumns, List.replicate_zero,
      List.append_nil]
  rw [ofRows, List.flatMap_def, List.map_congr_left hfill, List.map_id']

/-- A table whose rows have one width is read as the values of its tokens, row after row. -/
theorem values_ofText_table {t : Table} {width : Nat} (hrows : ∀ row ∈ t.tokens, ProperRow row)
    (hwidth : ∀ row ∈ t.tokens, row.length = width) :
    (ofText t.text).values = t.tokens.flatten.map readField ∧
      (ofText t.text).length = t.tokens.length * width := by
  have hread : rows t.text = t.tokens.map (List.map readField) := by
    rw [rows_eq_map_wordRows, t.wordRows_text hrows, List.map_map]
    apply List.map_congr_left
    intro row _
    exact List.map_map
  have hrectangular : ∀ row ∈ rows t.text, row.length = width := by
    rw [hread]
    intro row hrow
    obtain ⟨tokens, htokens, rfl⟩ := List.mem_map.mp hrow
    rw [List.length_map, hwidth tokens htokens]
  have hlast : t.last.map readField ∈ rows t.text := by
    rw [hread]
    exact List.mem_map_of_mem (List.mem_append_right _ List.mem_cons_self)
  have hcolumns : columns (rows t.text) = width := by
    apply Nat.le_antisymm
    · exact columns_le fun row hrow => Nat.le_of_eq (hrectangular row hrow)
    · rw [← hrectangular _ hlast]
      exact length_le_columns hlast
  constructor
  · rw [ofText, ofRows_rectangular hrectangular, hread, List.map_flatten]
  · rw [ofText, length_ofRows, hcolumns, hread, List.length_map]

/-- Rows of tokens that are empty or blank, tokens that end in white space of other kinds, both
line ends, and no line end after the last row. -/
def blankTable : Table where
  rows := [([[' '], ['1', '\r']], .newline), ([[], []], .returnNewline)]
  last := [['\u3000', '2', '\u00A0'], ['\t']]
  stop := none

theorem values_ofText_blankTable :
    blankTable.text = [' ', ',', '1', '\r', '\n', ',', '\r', '\n', '\u3000', '2', '\u00A0', ',',
      '\t'] ∧
      (ofText blankTable.text).values = [none, some (Numeral.decimal false ⟨1, 0⟩).toBinary64,
        none, none, some (Numeral.decimal false ⟨2, 0⟩).toBinary64, none] := by
  have hrows : ∀ row ∈ blankTable.tokens, ProperRow row := by
    intro row hrow
    simp only [blankTable, Table.tokens, List.map_cons, List.map_nil, List.cons_append,
      List.nil_append, List.mem_cons, List.not_mem_nil, or_false] at hrow
    rcases hrow with rfl | rfl | rfl <;> constructor <;> simp
  have hwidth : ∀ row ∈ blankTable.tokens, row.length = 2 := by decide
  refine ⟨by decide, ?_⟩
  rw [(values_ofText_table hrows hwidth).1]
  rfl

end RewardPlot.Trace
