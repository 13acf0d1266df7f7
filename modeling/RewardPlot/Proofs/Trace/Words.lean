import RewardPlot.Proofs.Trace.Layout
/-!
# The words of a text

A trace depends on its text only through the words that stand between the commas, row by row.
Comments do not show in the words of a line, and neither does white space at its ends, before
a comment or beside a comma.
-/

namespace RewardPlot.Trace

variable {blanks : List Char}

/-- The value of a field without white space at its ends. -/
def readWord (word : List Char) : Option Binary64 :=
  (Numeral.ofChars? word).map Numeral.toBinary64

/-- The fields of the data on a line, each without white space at its ends. -/
def words (data : List Char) : List (List Char) := (fields data).map Text.trim

/-- The words of a line without comment, if it holds data. -/
def dataWords? (data : List Char) : Option (List (List Char)) :=
  if data.all Text.isBlank then none else some (words data)

def lineWords? (line : List Char) : Option (List (List Char)) := dataWords? (dataPart line)

def wordRows (text : List Char) : List (List (List Char)) :=
  (text.splitOn '\n').filterMap lineWords?

theorem map_lineData? (line : List Char) :
    (lineData? line).map readRow = (lineWords? line).map (List.map readWord) := by
  rw [lineData?_eq, lineWords?, dataWords?]
  split
  · rfl
  · rw [Option.map_some, readRow_trim, Option.map_some, words, List.map_map]
    rfl

theorem rows_eq_map_wordRows (text : List Char) :
    rows text = (wordRows text).map (List.map readWord) := by
  rw [rows, wordRows, List.map_filterMap, List.map_filterMap]
  exact congrFun (congrArg List.filterMap (funext map_lineData?)) _

theorem ofText_eq_of_wordRows {text text' : List Char} (hwords : wordRows text' = wordRows text) :
    ofText text' = ofText text := by
  rw [ofText, ofText, rows_eq_map_wordRows, rows_eq_map_wordRows, hwords]

/-! ## Lines -/

theorem wordRows_append (text rest : List Char) :
    wordRows (text ++ '\n' :: rest) = wordRows text ++ wordRows rest := by
  rw [wordRows, List.splitOn_append_cons_self, List.filterMap_append, wordRows, wordRows]

theorem wordRows_of_line {line : List Char} (hline : '\n' ∉ line) :
    wordRows line = (lineWords? line).toList := by
  rw [wordRows, List.splitOn_eq_singleton hline]
  cases hwords : lineWords? line <;> simp [hwords]

/-! ## White space around words -/

theorem not_isBlank_comma : Text.isBlank ',' = false := by decide

theorem not_isBlank_hash : Text.isBlank '#' = false := by decide

theorem words_append_blank (hblanks : ∀ c ∈ blanks, Text.isBlank c) (data : List Char) :
    words (data ++ blanks) = words data :=
  Text.map_splitOn_append_right (not_mem_of_isBlank not_isBlank_comma hblanks)
    (Text.trimBy_append_right hblanks) data

theorem words_blank_append (hblanks : ∀ c ∈ blanks, Text.isBlank c) (data : List Char) :
    words (blanks ++ data) = words data :=
  Text.map_splitOn_append_left (not_mem_of_isBlank not_isBlank_comma hblanks)
    (fun c hc field => Text.trimBy_cons (hblanks c hc) field) data

theorem words_comma (left right : List Char) :
    words (left ++ ',' :: right) = words left ++ words right := by
  rw [words, fields, List.splitOn_append_cons_self, List.map_append, words, words, fields, fields]

theorem dataWords?_append_blank (hblanks : ∀ c ∈ blanks, Text.isBlank c) (data : List Char) :
    dataWords? (data ++ blanks) = dataWords? data := by
  have hall : blanks.all Text.isBlank = true := List.all_eq_true.mpr hblanks
  rw [dataWords?, List.all_append, hall, Bool.and_true, words_append_blank hblanks, dataWords?]

theorem dataWords?_blank_append (hblanks : ∀ c ∈ blanks, Text.isBlank c) (data : List Char) :
    dataWords? (blanks ++ data) = dataWords? data := by
  have hall : blanks.all Text.isBlank = true := List.all_eq_true.mpr hblanks
  rw [dataWords?, List.all_append, hall, Bool.true_and, words_blank_append hblanks, dataWords?]

theorem dataWords?_comma (left right : List Char) :
    dataWords? (left ++ ',' :: right) = some (words left ++ words right) := by
  have hall : (left ++ ',' :: right).all Text.isBlank = false := by
    rw [List.all_append, List.all_cons, not_isBlank_comma, Bool.false_and, Bool.and_false]
  rw [dataWords?, hall, if_neg Bool.false_ne_true, words_comma]

/-! ## Comments -/

theorem dataPart_append_of_mem {line : List Char} (hline : '#' ∈ line) (rest : List Char) :
    dataPart (line ++ rest) = dataPart line :=
  Text.takeWhile_ne_append_of_mem hline rest

theorem dataPart_append_of_not_mem {line : List Char} (hline : '#' ∉ line) (rest : List Char) :
    dataPart (line ++ rest) = line ++ dataPart rest :=
  Text.takeWhile_ne_append_of_not_mem hline rest

theorem dataPart_eq_self {line : List Char} (hline : '#' ∉ line) : dataPart line = line :=
  Text.takeWhile_ne_eq_self hline

theorem lineWords?_comment (line comment : List Char) :
    lineWords? (line ++ '#' :: comment) = lineWords? line := by
  rw [lineWords?, lineWords?]
  by_cases hline : '#' ∈ line
  · rw [dataPart_append_of_mem hline]
  · rw [dataPart, Text.takeWhile_ne_append_cons hline, dataPart_eq_self hline]

theorem lineWords?_append_blank (hblanks : ∀ c ∈ blanks, Text.isBlank c) (line : List Char) :
    lineWords? (line ++ blanks) = lineWords? line := by
  have hhash := not_mem_of_isBlank not_isBlank_hash hblanks
  rw [lineWords?, lineWords?]
  by_cases hline : '#' ∈ line
  · rw [dataPart_append_of_mem hline]
  · rw [dataPart_append_of_not_mem hline, dataPart_eq_self hhash, dataWords?_append_blank hblanks,
      dataPart_eq_self hline]

theorem lineWords?_blank_append (hblanks : ∀ c ∈ blanks, Text.isBlank c) (line : List Char) :
    lineWords? (blanks ++ line) = lineWords? line := by
  have hhash := not_mem_of_isBlank not_isBlank_hash hblanks
  rw [lineWords?, dataPart_append_of_not_mem hhash, dataWords?_blank_append hblanks, lineWords?]

/-- A comma and what is behind it are data, unless there is a comment before them. -/
theorem lineWords?_comma (left right : List Char) :
    lineWords? (left ++ ',' :: right) =
      if '#' ∈ left then lineWords? left else some (words left ++ words (dataPart right)) := by
  have hcomma : dataPart (',' :: right) = ',' :: dataPart right :=
    List.takeWhile_cons_of_pos (by decide)
  rw [lineWords?]
  split
  · next hleft => rw [dataPart_append_of_mem hleft, lineWords?]
  · next hleft => rw [dataPart_append_of_not_mem hleft, hcomma, dataWords?_comma]

theorem lineWords?_blank_comma (hblanks : ∀ c ∈ blanks, Text.isBlank c) (left right : List Char) :
    lineWords? (left ++ blanks ++ ',' :: right) = lineWords? (left ++ ',' :: right) := by
  have hhash := not_mem_of_isBlank not_isBlank_hash hblanks
  rw [lineWords?_comma, lineWords?_comma, lineWords?_append_blank hblanks,
    words_append_blank hblanks]
  simp only [List.mem_append, hhash, or_false]

theorem lineWords?_comma_blank (hblanks : ∀ c ∈ blanks, Text.isBlank c) (left right : List Char) :
    lineWords? (left ++ ',' :: (blanks ++ right)) = lineWords? (left ++ ',' :: right) := by
  have hhash := not_mem_of_isBlank not_isBlank_hash hblanks
  rw [lineWords?_comma, lineWords?_comma, dataPart_append_of_not_mem hhash,
    words_blank_append hblanks]

end RewardPlot.Trace
