import RewardPlot.Text.Utf8
/-!
# Paths

A path is any byte string.  Slashes divide it into pieces, of which empty ones and
single dots mean nothing, except for a dot at the very beginning.
-/

namespace RewardPlot

/-- The name of an entry in its directory, which may be any bytes. -/
abbrev Name := List UInt8

structure Path where
  bytes : List UInt8
deriving DecidableEq

/-- What a path consists of when the parts without meaning are left out. -/
inductive Component where
  | root
  | here
  | up
  | name (name : Name)
deriving DecidableEq

namespace Name

def dot : UInt8 := 0x2E

/-- The name of a directory in itself. -/
def self : Name := [dot]

def above : Name := [dot, dot]

/-- The part after the last dot, if there is something before the dot. -/
def extension? (name : Name) : Option Name :=
  let back := name.reverse
  match back.dropWhile (· != dot) with
  | _ :: _ :: _ => if name = above then none else some (back.takeWhile (· != dot)).reverse
  | _ => none

end Name

namespace Path

def slash : UInt8 := 0x2F

def ofString (s : String) : Path := ⟨Utf8.ofString s⟩

/-- The text of a path, with each malformed part replaced. -/
def display (p : Path) : String := Utf8.toStringLossy p.bytes

def isEmpty (p : Path) : Bool := p.bytes.isEmpty

def isAbsolute (p : Path) : Bool := p.bytes.head? = some slash

def endsWithSlash (p : Path) : Bool := p.bytes.getLast? = some slash

/-- What stands between the slashes. -/
def pieces (p : Path) : List Name := p.bytes.splitOn slash

/-- The names that a walk along the path takes in turn; an empty one at the end asks
for a directory. -/
def steps (p : Path) : List Name :=
  let names := p.pieces.filter (· ≠ [])
  if names ≠ [] ∧ p.endsWithSlash then names ++ [[]] else names

/-- The component of a piece that is not the first. -/
def component? (piece : Name) : Option Component :=
  if piece = [] ∨ piece = .self then none
  else if piece = .above then some .up
  else some (.name piece)

/-- The components of a path, by which paths are compared. -/
def components (p : Path) : List Component :=
  match p.pieces with
  | [] => []
  | first :: rest =>
    let start :=
      if p.isAbsolute then [.root]
      else if first = .self then [.here]
      else (component? first).toList
    start ++ rest.filterMap component?

/-- Drops the pieces without meaning from the end; the first piece is kept. -/
def trimPieces : List Name → List Name
  | [] => []
  | first :: rest => first :: (rest.reverse.dropWhile fun n => (component? n).isNone).reverse

def ofPieces (pieces : List Name) : Path :=
  if pieces = [[]] then ⟨[slash]⟩ else ⟨[slash].intercalate pieces⟩

/-- The path without its last component; the root and the empty path have none. -/
def parent? (p : Path) : Option Path :=
  match trimPieces p.pieces with
  | [] | [[]] => none
  | [_] => some ⟨[]⟩
  | pieces => some (ofPieces (trimPieces pieces.dropLast))

def fileName? (p : Path) : Option Name :=
  match p.components.getLast? with
  | some (.name n) => some n
  | _ => none

def extension? (p : Path) : Option Name := p.fileName?.bind Name.extension?

def join (p : Path) (name : Name) : Path :=
  if p.isEmpty ∨ p.endsWithSlash then ⟨p.bytes ++ name⟩ else ⟨p.bytes ++ slash :: name⟩

end Path

end RewardPlot
