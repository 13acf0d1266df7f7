import RewardPlot.Decimal.Written
import RewardPlot.Manifest.Basic
import RewardPlot.Text.Utf8
/-!
# Writing manifests

A manifest is written as a JSON object with two spaces of indentation for each level.
-/

namespace RewardPlot.Manifest

/-- The written form of a character in a string: quotation marks, backslashes and
control characters are escaped. -/
def escapeChar (c : Char) : List Char :=
  if c = '"' then ['\\', '"']
  else if c = '\\' then ['\\', '\\']
  else if c = '\x08' then ['\\', 'b']
  else if c = '\x0c' then ['\\', 'f']
  else if c = '\n' then ['\\', 'n']
  else if c = '\r' then ['\\', 'r']
  else if c = '\t' then ['\\', 't']
  else if c.toNat < 0x20 then
    ['\\', 'u', '0', '0', Nat.digitChar (c.toNat / 16), Nat.digitChar (c.toNat % 16)]
  else [c]

def writeString (s : String) : List Char := '"' :: s.toList.flatMap escapeChar ++ ['"']

/-- A sum with the fewest digits that read back. -/
def writeSum : Option Binary64 → List Char
  | none => "null".toList
  | some x => x.written Decimal.dataStyle

/-- A line break and the indentation of a level. -/
def newLine (level : Nat) : List Char := '\n' :: List.replicate (2 * level) ' '

def writeField (name : String) (value : List Char) : List Char :=
  writeString name ++ ':' :: ' ' :: value

/-- Items between brackets, each on lines of its own; no lines where there are no items. -/
def writeBlock (level : Nat) (first last : Char) (items : List (List Char)) : List Char :=
  if items = [] then [first, last]
  else
    first :: newLine (level + 1) ++ (',' :: newLine (level + 1)).intercalate items ++
      newLine level ++ [last]

def writeCount (n : UInt64) : List Char := Decimal.digits n.toNat

def Item.write (level : Nat) (i : Item) : List Char :=
  writeBlock level '\x7b' '\x7d' [
    writeField "label" (writeString i.label),
    writeField "points" (writeCount i.points),
    writeField "masked" (writeCount i.masked),
    writeField "sum" (writeSum i.sum)]

def write (m : Manifest) : List Char :=
  writeBlock 0 '\x7b' '\x7d' [
    writeField "version" (writeString m.version),
    writeField "title" (writeString m.title),
    writeField "generated_at" (writeString m.generatedAt),
    writeField "series" (writeBlock 1 '[' ']' (m.series.map (Item.write 2)))]

/-- The content of the file of a manifest. -/
def bytes (m : Manifest) : List UInt8 := Utf8.encode m.write

end RewardPlot.Manifest
