import RewardPlot.FileTree.Basic
/-!
# Walking along paths

A path is resolved name by name.  A link on the way is replaced by the steps of its
target; at most forty links are followed.
-/

namespace RewardPlot.FileTree

def longestName : Nat := 255

/-- The length from which a path is too long. -/
def pathLimit : Nat := 4096

/-- The number of links that one walk follows. -/
def mostLinks : Nat := 40

/-- Where a walk without links comes to. -/
inductive Stop where
  | fault (cause : FileFault)
  | found (place : Location) (entry : Entry)
  /-- The last name is not in its directory. -/
  | missing (directory : Location) (name : Name)
  /-- There is a link, and the names after it are still to be taken. -/
  | link (directory : Location) (target : Path) (rest : List Name)
deriving DecidableEq

/-- What a walk is for. -/
inductive Purpose where
  | finding
  | creating
  /-- To tell the path without links, which is looked up anew with each name. -/
  | resolving
deriving DecidableEq, Repr

/-- The path of a location from the root. -/
def pathOf (place : Location) : Path :=
  ⟨Path.slash :: [Path.slash].intercalate place⟩

/-- Takes names from a directory on up to the end, a fault or a link.  A walk that is
to create a file refuses a slash after the last name. -/
def walkNames (t : FileTree) (purpose : Purpose) : Location → List Name → Stop
  | directory, [] => .found directory .directory
  | directory, name :: rest =>
    if name = [] ∨ name = .self then walkNames t purpose directory rest
    else if name = .above then walkNames t purpose directory.dropLast rest
    else if purpose = .creating ∧ rest ≠ [] ∧ rest.all List.isEmpty then .fault .isDirectory
    else if longestName < name.length then .fault .nameTooLong
    else
      let place := directory ++ [name]
      if purpose = .resolving ∧ pathLimit ≤ (pathOf place).bytes.length then
        .fault .nameTooLong
      else match t.entryAt place with
      | none => if rest = [] then .missing directory name else .fault .notFound
      | some .directory => walkNames t purpose place rest
      | some (.file content) =>
        if rest = [] then .found place (.file content) else .fault .notDirectory
      | some (.link target) => .link directory target rest

/-- Where a path leads to. -/
inductive Goal where
  | existing (place : Location) (entry : Entry)
  /-- The directory is there, but the name is not in it. -/
  | vacant (directory : Location) (name : Name)
deriving DecidableEq

/-- The directory in which a path begins when it is met in another one. -/
def origin (directory : Location) (p : Path) : Location :=
  if p.isAbsolute then [] else directory

/-- Takes names from a directory on and follows so many links. -/
def followLinks (t : FileTree) (purpose : Purpose) :
    Nat → Location → List Name → Except FileFault Goal
  | links, directory, names =>
    match t.walkNames purpose directory names with
    | .fault cause => .error cause
    | .found place entry => .ok (.existing place entry)
    | .missing directory name => .ok (.vacant directory name)
    | .link directory target rest =>
      match links with
      | 0 => .error .tooManyLinks
      | links + 1 =>
        t.followLinks purpose links (origin directory target) (target.steps ++ rest)

/-- The fault that a path has before any step is taken.  A path may be long when it is
only to be resolved. -/
def pathFault? (purpose : Purpose) (p : Path) : Option FileFault :=
  if 0 ∈ p.bytes then some .nulInPath
  else if p.isEmpty then some .notFound
  else if purpose ≠ .resolving ∧ pathLimit ≤ p.bytes.length then some .nameTooLong
  else none

def goal (t : FileTree) (purpose : Purpose) (p : Path) : Except FileFault Goal :=
  match pathFault? purpose p with
  | some cause => .error cause
  | none => t.followLinks purpose mostLinks (origin t.here p) p.steps

/-- The entry that a walk along a path reaches, and where it is. -/
def reach (t : FileTree) (purpose : Purpose) (p : Path) : Except FileFault (Location × Entry) :=
  match t.goal purpose p with
  | .error cause => .error cause
  | .ok (.vacant ..) => .error .notFound
  | .ok (.existing place entry) => .ok (place, entry)

/-- The entry to which a path leads, and where it is. -/
def find (t : FileTree) (p : Path) : Except FileFault (Location × Entry) := t.reach .finding p

def isDirectory (t : FileTree) (p : Path) : Bool :=
  match t.find p with
  | .ok (_, .directory) => true
  | _ => false

def hasEntry (t : FileTree) (p : Path) : Bool := (t.find p).isOk

def read (t : FileTree) (p : Path) : Except FileFault (List UInt8) :=
  match t.find p with
  | .error cause => .error cause
  | .ok (_, .file content) => .ok content
  | .ok _ => .error .isDirectory

/-- The path from the root that leads to the same entry without links. -/
def canonical (t : FileTree) (p : Path) : Except FileFault Path :=
  (t.reach .resolving p).map fun (place, _) => pathOf place

end RewardPlot.FileTree
