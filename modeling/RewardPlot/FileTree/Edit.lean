import RewardPlot.FileTree.Walk
/-!
# Changing a file tree

Writing files, making directories and links, and removing entries.
-/

namespace RewardPlot.FileTree

/-- Writes a file, through links, in place of the file that is there, if any. -/
def write (t : FileTree) (p : Path) (content : List UInt8) : Except FileFault FileTree :=
  match t.goal .creating p with
  | .error cause => .error cause
  | .ok (.vacant directory name) => .ok (t.set (directory ++ [name]) (.file content))
  | .ok (.existing place (.file _)) => .ok (t.set place (.file content))
  | .ok (.existing ..) => .error .isDirectory

/-- The place of a new entry: a directory that is there and a name.  The last name
itself is not followed. -/
def newPlace (t : FileTree) (p : Path) : Except FileFault Location :=
  match pathFault? .finding p with
  | some cause => .error cause
  | none =>
    let names := p.steps.filter (· ≠ [])
    match t.followLinks .finding mostLinks (origin t.here p) names.dropLast with
    | .error cause => .error cause
    | .ok (.vacant ..) => .error .notFound
    | .ok (.existing directory .directory) =>
      match names.getLast? with
      | none => .error .alreadyExists
      | some name =>
        if name = Name.self ∨ name = Name.above then .error .alreadyExists
        else if longestName < name.length then .error .nameTooLong
        else .ok (directory ++ [name])
    | .ok (.existing ..) => .error .notDirectory

def add (t : FileTree) (p : Path) (entry : Entry) : Except FileFault FileTree :=
  match t.newPlace p with
  | .error cause => .error cause
  | .ok place =>
    match t.entryAt place with
    | some _ => .error .alreadyExists
    | none => .ok (t.set place entry)

def makeDirectory (t : FileTree) (p : Path) : Except FileFault FileTree := t.add p .directory

/-- A path and the paths above it, as far as names go. -/
def ancestors (p : Path) : List Path :=
  go p.bytes.length p
where
  go : Nat → Path → List Path
    | 0, _ => []
    | fuel + 1, p =>
      match p.parent? with
      | none => []
      | some above => p :: go fuel above

/-- Makes the first of some paths, after the following ones where a directory above it
is missing.  A directory that is there already will do. -/
def makeFirst (t : FileTree) : List Path → Except FileFault Unit × FileTree
  | [] => (.ok (), t)
  | p :: above =>
    match t.makeDirectory p with
    | .ok made => (.ok (), made)
    | .error .notFound =>
      match t.makeFirst above with
      | (.error cause, t) => (.error cause, t)
      | (.ok (), t) => settle t p (t.makeDirectory p)
    | .error cause => settle t p (.error cause)
where
  settle (t : FileTree) (p : Path) :
      Except FileFault FileTree → Except FileFault Unit × FileTree
    | .ok made => (.ok (), made)
    | .error cause => if t.isDirectory p then (.ok (), t) else (.error cause, t)

/-- Makes a directory and those above it.  What was made before a fault stays. -/
def makeDirectories (t : FileTree) (p : Path) : Except FileFault Unit × FileTree :=
  t.makeFirst (ancestors p)

/-- Removes the entry at a path, a link itself and not what it leads to. -/
def remove? (t : FileTree) (p : Path) : Option FileTree :=
  match t.newPlace p with
  | .error _ => none
  | .ok place => if (t.entryAt place).isSome then some (t.erase place) else none

end RewardPlot.FileTree
