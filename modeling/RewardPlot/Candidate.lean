import RewardPlot.FileTree.Walk
/-!
# Candidates

Every entry of the scanned directory is a candidate; the traces among them are the
files that are not empty and whose name ends in `.log`.
-/

namespace RewardPlot

/-- An entry of the scanned directory. -/
structure Candidate where
  path : Path
  /-- The name as text, which labels the series of a trace. -/
  label : String
  /-- The bytes of a file; nothing for any other entry. -/
  size : Nat
  /-- The extension as text, with its dot. -/
  suffix : Option String
  /-- Whether the path leads to a file. -/
  isFile : Bool
deriving DecidableEq

inductive ScanFault where
  | noDirectory (path : Path)
  | unreachable (path : Path) (cause : FileFault)
deriving DecidableEq

namespace ScanFault

def message : ScanFault → String
  | noDirectory p => s!"Scan directory does not exist: {p.display}"
  | unreachable p cause => s!"Failed to read metadata for {p.display}: {cause.message}"

def sources : ScanFault → List String
  | noDirectory _ => []
  | unreachable _ cause => [cause.message]

end ScanFault

namespace Candidate

def traceEnding : String := ".log"

def isTrace (c : Candidate) : Bool := c.isFile && 0 < c.size && c.suffix == some traceEnding

/-- Describes an entry by what its path leads to.  A path that leads nowhere is no
file; any other fault remains one. -/
def describe (t : FileTree) (directory : Path) (name : Name) : Except ScanFault Candidate :=
  let path := directory.join name
  let withKind (isFile : Bool) (size : Nat) : Candidate :=
    { path, size, isFile,
      label := Utf8.toStringLossy name,
      suffix := (Name.extension? name).map fun e => "." ++ Utf8.toStringLossy e }
  match t.find path with
  | .ok (_, .file content) => .ok (withKind true content.length)
  | .ok _ => .ok (withKind false 0)
  | .error .notFound => .ok (withKind false 0)
  | .error cause => .error (.unreachable path cause)

/-- The candidates in a directory, one for each entry. -/
def inDirectory (t : FileTree) (directory : Path) : Except ScanFault (List Candidate) :=
  match t.find directory with
  | .ok (place, .directory) => (t.names place).mapM (describe t directory)
  | _ => .error (.noDirectory directory)

def tracesInDirectory (t : FileTree) (directory : Path) : Except ScanFault (List Candidate) :=
  (inDirectory t directory).map (·.filter isTrace)

end Candidate

end RewardPlot
