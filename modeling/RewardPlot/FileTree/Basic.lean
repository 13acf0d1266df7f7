import RewardPlot.FileTree.Path
/-!
# File trees

A file tree is a value: the entries below the root, each at the list of names that
leads to it, and the directory in which relative paths begin.
-/

namespace RewardPlot

/-- Where an entry is: the names on the way from the root. -/
abbrev Location := List Name

inductive Entry where
  | file (content : List UInt8)
  | directory
  | link (target : Path)
deriving DecidableEq

structure FileTree where
  /-- The directory in which relative paths begin. -/
  here : Location
  /-- The entries other than the root. -/
  entries : List (Location × Entry)
  /-- No location has two entries. -/
  distinct : (entries.map Prod.fst).Nodup := by decide
deriving DecidableEq

inductive FileFault where
  | notFound
  | alreadyExists
  | notDirectory
  | isDirectory
  | nameTooLong
  | tooManyLinks
  | nulInPath
deriving DecidableEq, Repr

namespace FileFault

/-- The text of a fault, with the number under which the system knows it. -/
def message : FileFault → String
  | notFound => "No such file or directory (os error 2)"
  | alreadyExists => "File exists (os error 17)"
  | notDirectory => "Not a directory (os error 20)"
  | isDirectory => "Is a directory (os error 21)"
  | nameTooLong => "File name too long (os error 36)"
  | tooManyLinks => "Too many levels of symbolic links (os error 40)"
  | nulInPath => "file name contained an unexpected NUL byte"

end FileFault

namespace FileTree

/-- The entry at a location; the root is a directory. -/
def entryAt (t : FileTree) (place : Location) : Option Entry :=
  if place = [] then some .directory else t.entries.lookup place

def names (t : FileTree) (directory : Location) : List Name :=
  t.entries.filterMap fun (place, _) =>
    if place.dropLast = directory then place.getLast? else none

private theorem nodup_filter (t : FileTree) (p : Location × Entry → Bool) :
    ((t.entries.filter p).map Prod.fst).Nodup :=
  t.distinct.sublist (List.filter_sublist.map _)

/-- The tree with an entry at a location, whatever was there. -/
def set (t : FileTree) (place : Location) (entry : Entry) : FileTree where
  here := t.here
  entries := (place, entry) :: t.entries.filter (·.1 ≠ place)
  distinct := by
    rw [List.map_cons, List.nodup_cons]
    exact ⟨by simp, nodup_filter t _⟩

/-- The tree without an entry and all that is below it. -/
def erase (t : FileTree) (place : Location) : FileTree where
  here := t.here
  entries := t.entries.filter fun (other, _) => !place.isPrefixOf other
  distinct := nodup_filter t _

end FileTree

end RewardPlot
