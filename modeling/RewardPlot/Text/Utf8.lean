/-!
# UTF-8

Bytes are decoded by a machine that takes one byte at a time.  A sequence that no
character begins with is cut off where it stops being one, counts as one malformed
part, and the byte that ended it starts afresh.
-/

namespace RewardPlot.Utf8

/-- A character of which some bytes are still to come; the next one has to lie in a
range. -/
structure Pending where
  value : Nat
  missing : Nat
  low : UInt8
  high : UInt8
deriving DecidableEq, Repr

/-- What the first byte of a longer character announces. -/
def announced (b : UInt8) : Option Pending :=
  if 0xC2 ≤ b ∧ b ≤ 0xDF then some ⟨b.toNat % 32, 1, 0x80, 0xBF⟩
  else if b = 0xE0 then some ⟨0, 2, 0xA0, 0xBF⟩
  else if b = 0xED then some ⟨13, 2, 0x80, 0x9F⟩
  else if 0xE1 ≤ b ∧ b ≤ 0xEF then some ⟨b.toNat % 16, 2, 0x80, 0xBF⟩
  else if b = 0xF0 then some ⟨0, 3, 0x90, 0xBF⟩
  else if 0xF1 ≤ b ∧ b ≤ 0xF3 then some ⟨b.toNat % 8, 3, 0x80, 0xBF⟩
  else if b = 0xF4 then some ⟨4, 3, 0x80, 0x8F⟩
  else none

/-- A byte between characters: what it completes and what it leaves open.  A malformed
part is `none`. -/
def begin (b : UInt8) : List (Option Char) × Option Pending :=
  if b < 0x80 then ([some (Char.ofNat b.toNat)], none)
  else match announced b with
    | some p => ([], some p)
    | none => ([none], none)

/-- One byte: the parts that it completes and the character that it leaves open. -/
def step (pending : Option Pending) (b : UInt8) : List (Option Char) × Option Pending :=
  match pending with
  | none => begin b
  | some p =>
    if p.low ≤ b ∧ b ≤ p.high then
      let value := p.value * 64 + b.toNat % 64
      if p.missing = 1 then ([some (Char.ofNat value)], none)
      else ([], some ⟨value, p.missing - 1, 0x80, 0xBF⟩)
    else (none :: (begin b).1, (begin b).2)

/-- The characters and malformed parts of the bytes that follow an open character. -/
def partsAfter : Option Pending → List UInt8 → List (Option Char)
  | none, [] => []
  | some _, [] => [none]
  | pending, b :: rest => (step pending b).1 ++ partsAfter (step pending b).2 rest

/-- The characters and malformed parts of a byte string. -/
def parts (bytes : List UInt8) : List (Option Char) := partsAfter none bytes

def replacement : Char := '\uFFFD'

/-- Decodes any bytes; each malformed part becomes a replacement character. -/
def decodeLossy (bytes : List UInt8) : List Char := (parts bytes).map (·.getD replacement)

def decode? (bytes : List UInt8) : Option (List Char) := (parts bytes).mapM id

def encode (text : List Char) : List UInt8 := text.flatMap String.utf8EncodeChar

def ofString (s : String) : List UInt8 := encode s.toList

def toStringLossy (bytes : List UInt8) : String := String.ofList (decodeLossy bytes)

end RewardPlot.Utf8
