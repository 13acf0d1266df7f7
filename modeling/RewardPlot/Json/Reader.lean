import RewardPlot.Json.Token
/-!
# Reading JSON values

A reader takes the tokens of one value and leaves the rest.  Tokens are taken from left
to right, and the first problem decides.
-/

namespace RewardPlot.Json

/-- Takes the tokens of a value from the front of a list. -/
abbrev Reader (α : Type) := List Token → Except Problem (α × List Token)

/-- The problem of a list that does not begin with the wanted value. -/
def mismatchOf : List Token → Problem
  | [] => .atEnd
  | .broken _ taken _ :: _ => taken
  | .string none :: _ | .number none :: _ => .malformed
  | .string (some _) :: _ | .number (some _) :: _ => .mismatch
  | .null :: _ | .truth _ :: _ | .openBrace :: _ | .openBracket :: _ => .mismatch
  | _ => .malformed

/-- A problem with the text itself: it ends, or it goes on in the wrong way. -/
def wrongWay : List Token → Problem
  | [] => .atEnd
  | _ => .malformed

def readText : Reader String
  | .string (some text) :: rest => .ok (String.ofList text, rest)
  | ts => .error (mismatchOf ts)

/-- A whole number of 64 bits. -/
def readCount : Reader UInt64
  | .number (some (.natural n)) :: rest => .ok (.ofNat n, rest)
  | ts => .error (mismatchOf ts)

/-- A number, or `null` for none. -/
def readNumber? : Reader (Option Binary64)
  | .null :: rest => .ok (none, rest)
  | .number (some n) :: rest => .ok (some n.toBinary64, rest)
  | ts => .error (mismatchOf ts)

/-! ## Values that are passed over -/

/-- A bracket that is open. -/
inductive Frame where
  | array
  | object
deriving DecidableEq, Repr

/-- What comes next in a value that is passed over. -/
inductive Expected where
  | value
  | firstItem
  | separator
  | key
  | colon
deriving DecidableEq, Repr

def skipFrom : Expected → List Frame → List Token → Except Problem (List Token)
  | _, _, [] => .error .atEnd
  | expected, frames, t :: ts =>
    let complete (frames : List Frame) : Except Problem (List Token) :=
      if frames = [] then .ok ts else skipFrom .separator frames ts
    let value (_ : Unit) : Except Problem (List Token) :=
      match t with
      | .null | .truth _ | .string _ | .number _ => complete frames
      | .openBracket => skipFrom .firstItem (.array :: frames) ts
      | .openBrace => skipFrom .firstItem (.object :: frames) ts
      | .broken _ _ passed => .error passed
      | _ => .error .malformed
    let key (_ : Unit) : Except Problem (List Token) :=
      match t with
      | .string _ => skipFrom .colon frames ts
      | .broken true _ passed => .error passed
      | _ => .error .malformed
    match expected, frames, t with
    | .firstItem, .array :: outer, .closeBracket
    | .firstItem, .object :: outer, .closeBrace
    | .separator, .array :: outer, .closeBracket
    | .separator, .object :: outer, .closeBrace => complete outer
    | .value, _, _ | .firstItem, .array :: _, _ => value ()
    | .key, _, _ | .firstItem, .object :: _, _ => key ()
    | .separator, .array :: _, .comma => skipFrom .value frames ts
    | .separator, .object :: _, .comma => skipFrom .key frames ts
    | .colon, _, .colon => skipFrom .value frames ts
    | _, _, _ => .error .malformed

def skip (ts : List Token) : Except Problem (List Token) := skipFrom .value [] ts

/-! ## Records -/

/-- A field of a record that is being read: its name, whether it has its value, and how
it takes one. -/
structure Member (α : Type) where
  name : String
  isSet : α → Bool
  take : α → Reader α

def afterColon (ts : List Token) : Except Problem (List Token) :=
  match ts with
  | .colon :: rest => .ok rest
  | ts => .error (wrongWay ts)

/-- A member of an object: a known field takes its value, once; any other is passed over. -/
def takeMember {α : Type} (fields : List (Member α)) (a : α) : Reader α
  | .string (some key) :: rest =>
    match fields.find? (·.name = String.ofList key) with
    | some f =>
      if f.isSet a then .error .mismatch
      else (afterColon rest).bind (f.take a)
    | none => ((afterColon rest).bind skip).map fun rest => (a, rest)
  | .broken true taken _ :: _ => .error taken
  | ts => .error (wrongWay ts)

def takeMembers {α : Type} (fields : List (Member α)) : Nat → Bool → α → Reader α
  | 0, _, _, _ => .error .malformed
  | fuel + 1, isFirst, a, ts =>
    let more (ts : List Token) : Except Problem (α × List Token) :=
      (takeMember fields a ts).bind fun (a, rest) => takeMembers fields fuel false a rest
    match ts with
    | .closeBrace :: rest => .ok (a, rest)
    | .comma :: rest => if isFirst then .error .malformed else more rest
    | ts => if isFirst then more ts else .error (wrongWay ts)

/-- The next item of an array: what is left when there is one, none at the closing
bracket. -/
def nextItem? (isFirst : Bool) : List Token → Except Problem (Option (List Token))
  | [] => .error .atEnd
  | .closeBracket :: _ => .ok none
  | .comma :: rest =>
    if isFirst then .error .malformed
    else match rest with
      | .closeBracket :: _ => .error .malformed
      | [] => .error .atEnd
      | rest => .ok (some rest)
  | ts => if isFirst then .ok (some ts) else .error .malformed

/-- The fields of a record in their order as items of an array. -/
def takeItems {α : Type} : List (Member α) → Bool → α → Reader α
  | [], _, a, .closeBracket :: rest => .ok (a, rest)
  | [], _, _, ts => .error (wrongWay ts)
  | f :: fs, isFirst, a, ts =>
    match nextItem? isFirst ts with
    | .error problem => .error problem
    | .ok none => .error .mismatch
    | .ok (some ts) => (f.take a ts).bind fun (a, rest) => takeItems fs false a rest

/-- A record, as an object or as an array of all its fields. -/
def readRecord {α β : Type} (fields : List (Member α)) (start : α) (finish : α → Option β) :
    Reader β
  | .openBrace :: rest => do
    let (a, rest) ← takeMembers fields (rest.length + 1) true start rest
    match finish a with
    | some b => return (b, rest)
    | none => throw .mismatch
  | .openBracket :: rest => do
    let (a, rest) ← takeItems fields true start rest
    match finish a with
    | some b => return (b, rest)
    | none => throw .mismatch
  | ts => .error (mismatchOf ts)

def takeAll {α : Type} (item : Reader α) : Nat → Bool → Reader (List α)
  | 0, _, _ => .error .malformed
  | fuel + 1, isFirst, ts =>
    match nextItem? isFirst ts with
    | .error problem => .error problem
    | .ok none => .ok ([], ts.drop 1)
    | .ok (some ts) => do
      let (a, rest) ← item ts
      let (as, rest) ← takeAll item fuel false rest
      return (a :: as, rest)

def readArray {α : Type} (item : Reader α) : Reader (List α)
  | .openBracket :: rest => takeAll item (rest.length + 1) true rest
  | ts => .error (mismatchOf ts)

/-- A text that holds one value and nothing else. -/
def readOnly {α : Type} (reader : Reader α) (bytes : List UInt8) : Except Problem α :=
  match reader (tokens bytes) with
  | .ok (a, []) => .ok a
  | .ok _ => .error .malformed
  | .error problem => .error problem

end RewardPlot.Json
