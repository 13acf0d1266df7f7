import RewardPlot.Json.Number
import RewardPlot.Text.Utf8
/-!
# JSON tokens

A text is cut into tokens without regard to where they stand.  Some faults matter only
where the value of a token is needed; a token therefore tells both what it is when it
is taken and what happens when it is passed over.
-/

namespace RewardPlot.Json

/-- Why a text is not read. -/
inductive Problem where
  /-- The text ends too early. -/
  | atEnd
  /-- The text is not JSON. -/
  | malformed
  /-- The text is JSON, but not of the wanted form. -/
  | mismatch
  /-- There is no text to read. -/
  | unreadable
deriving DecidableEq, Repr

inductive Token where
  | openBrace
  | closeBrace
  | openBracket
  | closeBracket
  | colon
  | comma
  | null
  | truth (value : Bool)
  /-- A complete string; its text is missing where it is not well-formed. -/
  | string (text : Option (List Char))
  /-- A complete number; its value is missing where it is beyond the range. -/
  | number (value : Option Number)
  /-- A token that breaks off: what is wrong when it is taken, and when it is passed
  over. -/
  | broken (isString : Bool) (taken passed : Problem)
  | stray
deriving DecidableEq

namespace Token

/-! ## Strings -/

/-- A part of a string: a byte, or the number of an escaped UTF-16 unit. -/
inductive Piece where
  | byte (b : UInt8)
  | unit (n : Nat)
deriving DecidableEq

/-- How a string ends. -/
inductive Ending where
  | closed (rest : List UInt8)
  | broken (problem : Problem)
deriving DecidableEq

def hexValue? (b : UInt8) : Option Nat :=
  if 0x30 ≤ b ∧ b ≤ 0x39 then some (b.toNat - 0x30)
  else if 0x41 ≤ b ∧ b ≤ 0x46 then some (b.toNat - 0x41 + 10)
  else if 0x61 ≤ b ∧ b ≤ 0x66 then some (b.toNat - 0x61 + 10)
  else none

def hexUnit? (a b c d : UInt8) : Option Nat := do
  return ((((← hexValue? a) * 16 + (← hexValue? b)) * 16 + (← hexValue? c)) * 16 +
    (← hexValue? d))

/-- The byte that an escape with one letter stands for. -/
def simpleEscape? (b : UInt8) : Option UInt8 :=
  if b = 0x22 ∨ b = 0x5C ∨ b = 0x2F then some b
  else if b = 0x62 then some 0x08
  else if b = 0x66 then some 0x0C
  else if b = 0x6E then some 0x0A
  else if b = 0x72 then some 0x0D
  else if b = 0x74 then some 0x09
  else none

def after (p : Piece) : List Piece × Ending → List Piece × Ending
  | (pieces, ending) => (p :: pieces, ending)

/-- The pieces of a string up to its closing quotation mark or the first fault. -/
def stringPieces : List UInt8 → List Piece × Ending
  | [] => ([], .broken .atEnd)
  | b :: rest =>
    if b = 0x22 then ([], .closed rest)
    else if b = 0x5C then
      match rest with
      | [] => ([], .broken .atEnd)
      | e :: rest =>
        if e = 0x75 then
          match rest with
          | h :: i :: j :: k :: rest =>
            match hexUnit? h i j k with
            | some n => after (.unit n) (stringPieces rest)
            | none => ([], .broken .malformed)
          | _ => ([], .broken .atEnd)
        else
          match simpleEscape? e with
          | some b => after (.byte b) (stringPieces rest)
          | none => ([], .broken .malformed)
    else if b < 0x20 then ([], .broken .malformed)
    else after (.byte b) (stringPieces rest)

def isHighUnit (n : Nat) : Bool := 0xD800 ≤ n && n < 0xDC00

def isLowUnit (n : Nat) : Bool := 0xDC00 ≤ n && n < 0xE000

/-- The bytes of a string, if its UTF-16 units pair up.  Where more may follow, the
last unit may still be without its partner. -/
def pieceBytes? (mayContinue : Bool) : List Piece → Option (List UInt8)
  | [] => some []
  | .byte b :: rest => (pieceBytes? mayContinue rest).map (b :: ·)
  | .unit n :: rest =>
    if isHighUnit n then
      match rest with
      | [] => if mayContinue then some [] else none
      | .unit m :: rest =>
        if isLowUnit m then
          let c := Char.ofNat (0x10000 + (n - 0xD800) * 0x400 + (m - 0xDC00))
          (pieceBytes? mayContinue rest).map (String.utf8EncodeChar c ++ ·)
        else none
      | _ => none
    else if isLowUnit n then none
    else (pieceBytes? mayContinue rest).map (String.utf8EncodeChar (Char.ofNat n) ++ ·)

/-- The token of a string after its opening quotation mark, and what follows it. -/
def scanString (bytes : List UInt8) : Token × List UInt8 :=
  match stringPieces bytes with
  | (pieces, .closed rest) => (.string ((pieceBytes? false pieces).bind Utf8.decode?), rest)
  | (pieces, .broken problem) =>
    let taken := if (pieceBytes? true pieces).isSome then problem else .malformed
    (.broken true taken problem, [])

/-! ## Numbers -/

def isDigit (b : UInt8) : Bool := 0x30 ≤ b && b ≤ 0x39

def digitChars (bytes : List UInt8) : List Char := bytes.map fun b => Char.ofNat b.toNat

/-- At least one digit, or the problem when there is none. -/
def takeDigits (bytes : List UInt8) : Except Problem (List Char × List UInt8) :=
  match bytes.takeWhile isDigit with
  | [] => .error (if bytes = [] then .atEnd else .malformed)
  | ds => .ok (digitChars ds, bytes.dropWhile isDigit)

/-- The digits before the point, which begin with a zero only if it stands alone. -/
def takeWhole (bytes : List UInt8) : Except Problem (List Char × List UInt8) :=
  match takeDigits bytes with
  | .ok ('0' :: _ :: _, _) => .error .malformed
  | r => r

/-- The digits after the point, if there is one. -/
def takeFraction : List UInt8 → Except Problem (Option (List Char) × List UInt8)
  | 0x2E :: rest => (takeDigits rest).map fun (ds, rest) => (some ds, rest)
  | bytes => .ok (none, bytes)

/-- The exponent with its sign, if there is one. -/
def takeExponent : List UInt8 → Except Problem (Option (Bool × List Char) × List UInt8)
  | b :: rest =>
    if b = 0x65 ∨ b = 0x45 then
      let (minus, rest) := match rest with
        | 0x2D :: rest => (true, rest)
        | 0x2B :: rest => (false, rest)
        | rest => (false, rest)
      (takeDigits rest).map fun (ds, rest) => (some (minus, ds), rest)
    else .ok (none, b :: rest)
  | [] => .ok (none, [])

def takeParts (bytes : List UInt8) : Except Problem (Number.Parts × List UInt8) := do
  let (whole, rest) ← takeWhole bytes
  let (fraction, rest) ← takeFraction rest
  let (exponent, rest) ← takeExponent rest
  return (⟨whole, fraction, exponent⟩, rest)

/-- The token of a number after its sign, and what follows it. -/
def scanNumber (minus : Bool) (bytes : List UInt8) : Token × List UInt8 :=
  match takeParts bytes with
  | .ok (parts, rest) => (.number (Number.ofParts? minus parts), rest)
  | .error problem => (.broken false problem .malformed, [])

/-! ## Words and marks -/

/-- The token of a word of which the first letter was taken. -/
def scanWord (token : Token) : List UInt8 → List UInt8 → Token × List UInt8
  | [], rest => (token, rest)
  | _ :: _, [] => (.broken false .atEnd .atEnd, [])
  | w :: word, b :: rest =>
    if w = b then scanWord token word rest else (.broken false .malformed .malformed, [])

def scan (b : UInt8) (rest : List UInt8) : Token × List UInt8 :=
  if b = 0x7B then (.openBrace, rest)
  else if b = 0x7D then (.closeBrace, rest)
  else if b = 0x5B then (.openBracket, rest)
  else if b = 0x5D then (.closeBracket, rest)
  else if b = 0x3A then (.colon, rest)
  else if b = 0x2C then (.comma, rest)
  else if b = 0x22 then scanString rest
  else if b = 0x2D then scanNumber true rest
  else if isDigit b then scanNumber false (b :: rest)
  else if b = 0x6E then scanWord .null [0x75, 0x6C, 0x6C] rest
  else if b = 0x74 then scanWord (.truth true) [0x72, 0x75, 0x65] rest
  else if b = 0x66 then scanWord (.truth false) [0x61, 0x6C, 0x73, 0x65] rest
  else (.stray, [])

def isSpace (b : UInt8) : Bool := b = 0x20 || b = 0x09 || b = 0x0A || b = 0x0D

/-- The tokens of a text, of which each takes at least one byte. -/
def scanAll : Nat → List UInt8 → List Token
  | 0, _ => []
  | _ + 1, [] => []
  | fuel + 1, b :: rest =>
    if isSpace b then scanAll fuel rest
    else
      let (token, rest) := scan b rest
      token :: scanAll fuel rest

end Token

/-- The tokens of a text up to the first that breaks off. -/
def tokens (bytes : List UInt8) : List Token := Token.scanAll bytes.length bytes

end RewardPlot.Json
