import RewardPlot.Decimal.Numeral
import RewardPlot.Text.Blank
import RewardPlot.Text.Utf8
import RewardPlot.Trace.Basic
/-!
# Layout of a trace file

Each line holds values between commas; what follows a number sign is a comment, and
lines without data are left out.  The rows follow each other, each filled up with
masked positions to the length of the longest one.
-/

namespace RewardPlot.Trace

/-- The data of a line: what stands before a comment, without white space at its
ends, unless nothing is left. -/
def lineData? (line : List Char) : Option (List Char) :=
  let data := Text.trim (line.takeWhile (· != '#'))
  if data = [] then none else some data

/-- The value of a field, none where it is not a number. -/
def readField (field : List Char) : Option Binary64 :=
  (Numeral.ofChars? (Text.trim field)).map Numeral.toBinary64

def readRow (data : List Char) : List (Option Binary64) := (data.splitOn ',').map readField

def rows (text : List Char) : List (List (Option Binary64)) :=
  ((text.splitOn '\n').filterMap lineData?).map readRow

def columns (rows : List (List (Option Binary64))) : Nat :=
  (rows.map List.length).foldl max 0

/-- Fills a row up with masked positions. -/
def fill (n : Nat) (row : List (Option Binary64)) : List (Option Binary64) :=
  row ++ List.replicate (n - row.length) none

/-- The rows in order, all filled up to the longest. -/
def ofRows (rows : List (List (Option Binary64))) : Trace :=
  ⟨rows.flatMap (fill (columns rows))⟩

/-- Reads the text of a trace file; every text is one. -/
def ofText (text : List Char) : Trace := ofRows (rows text)

def ofBytes (bytes : List UInt8) : Trace := ofText (Utf8.decodeLossy bytes)

end RewardPlot.Trace
