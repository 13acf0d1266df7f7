import RewardPlot.Collection
import RewardPlot.Proofs.Decimal.Numeral
import RewardPlot.Proofs.Text.Malformed
import RewardPlot.Proofs.Trace.Layout
/-!
# Traces from bytes

The line breaks, number signs and commas of a file are found in its bytes as well as in the
text that they decode to.  Malformed bytes between them therefore concern one field only, and
that field is masked.
-/

namespace RewardPlot.Trace

open Utf8

/-- The bytes of a line that are no comment. -/
def dataBytes (line : List UInt8) : List UInt8 := line.takeWhile (· != 0x23)

/-- The lines that hold more than white space and a comment, each without its comment. -/
def byteLines (bytes : List UInt8) : List (List UInt8) :=
  ((bytes.splitOn 0x0A).map dataBytes).filter fun line => !(decodeLossy line).all Text.isBlank

def pieces (line : List UInt8) : List (List UInt8) := line.splitOn 0x2C

def mostPieces (lines : List (List UInt8)) : Nat :=
  (lines.map fun line => (pieces line).length).foldl max 0

/-- The value of a piece that is decoded on its own. -/
def readPiece (piece : List UInt8) : Option Binary64 := readField (decodeLossy piece)

/-! ## Decoding and cutting -/

theorem dataPart_decodeLossy (line : List UInt8) :
    dataPart (decodeLossy line) = decodeLossy (dataBytes line) :=
  takeWhile_decodeLossy (d := 0x23) (by decide) line

theorem fields_decodeLossy (line : List UInt8) :
    fields (decodeLossy line) = (pieces line).map decodeLossy :=
  splitOn_decodeLossy (d := 0x2C) (by decide) line

theorem dataLines_decodeLossy (bytes : List UInt8) :
    dataLines (decodeLossy bytes) = (byteLines bytes).map decodeLossy := by
  have hlines : (decodeLossy bytes).splitOn '\n' = (bytes.splitOn 0x0A).map decodeLossy :=
    splitOn_decodeLossy (d := 0x0A) (by decide) bytes
  have hdata : ((bytes.splitOn 0x0A).map decodeLossy).map dataPart =
      ((bytes.splitOn 0x0A).map dataBytes).map decodeLossy := by
    rw [List.map_map, List.map_map]
    exact List.map_congr_left fun line _ => dataPart_decodeLossy line
  rw [dataLines, hlines, hdata, byteLines, List.filter_map]
  rfl

theorem ofBytes_eq_ofRows (bytes : List UInt8) :
    ofBytes bytes = ofRows ((byteLines bytes).map fun line => (pieces line).map readPiece) := by
  rw [ofBytes, ofText, rows_eq_map_dataLines, dataLines_decodeLossy, List.map_map]
  congr 2
  funext line
  rw [Function.comp_apply, fields_decodeLossy, List.map_map]
  rfl

theorem mostFields_decodeLossy (lines : List (List UInt8)) :
    mostFields (lines.map decodeLossy) = mostPieces lines := by
  rw [mostFields, mostPieces, List.map_map]
  congr 2
  funext line
  rw [Function.comp_apply, fields_decodeLossy, List.length_map]

/-! ## Malformed lines and fields -/

theorem not_isBlank_replacement : Text.isBlank replacement = false := by decide

/-- A replacement is neither white space nor part of a numeral. -/
theorem readPiece_malformed {piece : List UInt8} (hpiece : ¬WellFormed piece) :
    readPiece piece = none := by
  have hmem : replacement ∈ Text.trim (decodeLossy piece) :=
    Text.mem_trimBy (replacement_mem_decodeLossy hpiece) not_isBlank_replacement
  have hnone : Numeral.ofChars? (Text.trim (decodeLossy piece)) = none := by
    by_contra hsome
    obtain ⟨n, hn⟩ := Option.ne_none_iff_exists'.mp hsome
    have hascii : replacement.toNat < 0x80 := Numeral.ascii_of_ofChars? hn replacement hmem
    exact absurd hascii (by decide)
  rw [readPiece, readField, hnone, Option.map_none]

theorem dataBytes_mem_byteLines {bytes line : List UInt8} (hline : line ∈ bytes.splitOn 0x0A)
    (hmalformed : ¬WellFormed (dataBytes line)) : dataBytes line ∈ byteLines bytes := by
  rw [byteLines, List.mem_filter]
  refine ⟨List.mem_map_of_mem hline, ?_⟩
  rw [Bool.not_eq_true', List.all_eq_false]
  exact ⟨replacement, replacement_mem_decodeLossy hmalformed, by decide⟩

theorem readPiece_encode (text : List Char) : readPiece (encode text) = readField text := by
  rw [readPiece, decodeLossy_encode]

theorem length_pieces (line : List UInt8) : (pieces line).length = line.count 0x2C + 1 :=
  Text.length_splitOn 0x2C line

/-! ## Files -/

/-- What is read from a file are its lines and their pieces, cut out of the bytes and decoded
one by one.  Commas alone say how many pieces there are, and malformed bytes neither remove
a line nor leave a value in the piece that they are in. -/
theorem readTrace_eq_ofRows {t : FileTree} {path : Path} {bytes : List UInt8}
    (hread : t.read path = .ok bytes) :
    let lines := byteLines bytes
    let width := mostPieces lines
    ∃ trace, Collection.readTrace t path = .ok trace ∧
      trace = ofRows (lines.map fun line => (pieces line).map readPiece) ∧
      trace.length = lines.length * width ∧
      (∀ (r c : Nat) (hr : r < lines.length), c < width →
        trace.values[r * width + c]? = some ((pieces lines[r])[c]?.bind readPiece)) ∧
      (∀ line ∈ bytes.splitOn 0x0A, ¬WellFormed (dataBytes line) → dataBytes line ∈ lines) ∧
      (∀ line, (pieces line).length = line.count 0x2C + 1) ∧
      (∀ piece, ¬WellFormed piece → readPiece piece = none) ∧
      ∀ text, readPiece (encode text) = readField text := by
  intro lines width
  obtain ⟨hlength, hvalues, -⟩ := layout_ofText (decodeLossy bytes)
  have hlines : dataLines (decodeLossy bytes) = lines.map decodeLossy := dataLines_decodeLossy bytes
  have hwidth : mostFields (lines.map decodeLossy) = width := mostFields_decodeLossy lines
  simp only [hlines, hwidth, List.length_map] at hlength hvalues
  refine ⟨ofBytes bytes, ?_, ofBytes_eq_ofRows bytes, hlength, ?_, ?_, length_pieces,
    fun _ => readPiece_malformed, readPiece_encode⟩
  · rw [Collection.readTrace, hread]
  · intro r c hr hc
    have hvalue := hvalues r c hr hc
    simp only [List.getElem_map, fields_decodeLossy, List.getElem?_map, Option.bind_map] at hvalue
    exact hvalue
  · exact fun line hline => dataBytes_mem_byteLines hline

/-- A file with characters of three and of four bytes that end too early, before a comma and
before a line break, and with a stray byte in a comment. -/
def damagedTree : FileTree where
  here := []
  entries := [([[0x61]], .file [0x31, 0x2C, 0xE2, 0x82, 0x2C, 0x32, 0x0A, 0xF0, 0x9F, 0x98, 0x0A,
    0x33, 0x23, 0xBF])]

theorem readTrace_damagedTree :
    ∃ trace, Collection.readTrace damagedTree ⟨[0x61]⟩ = .ok trace ∧
      trace.values = [some (Numeral.decimal false ⟨1, 0⟩).toBinary64, none,
        some (Numeral.decimal false ⟨2, 0⟩).toBinary64, none, none, none,
        some (Numeral.decimal false ⟨3, 0⟩).toBinary64, none, none] := by
  have hread : damagedTree.read ⟨[0x61]⟩ = .ok [0x31, 0x2C, 0xE2, 0x82, 0x2C, 0x32, 0x0A, 0xF0,
    0x9F, 0x98, 0x0A, 0x33, 0x23, 0xBF] := rfl
  obtain ⟨trace, htrace, hrows, -⟩ := readTrace_eq_ofRows hread
  refine ⟨trace, htrace, ?_⟩
  rw [hrows]
  rfl

end RewardPlot.Trace
