import RewardPlot.CommandLine.Program
import Std.Time.Format
/-!
# Main

The program runs on a picture of the part of the file system to which its arguments and
its own path lead.  The directories and files that the run leaves in it are then made.
-/

namespace RewardPlot

/-- The location of a path from the root that has no links. -/
private def locationOf (real : String) : Location :=
  (Path.ofString real).pieces.filter (· ≠ [])

/-- Adds an entry where there is none yet, and the directories above it. -/
private def FileTree.draw (t : FileTree) (place : Location) (entry : Entry) : FileTree :=
  let steps := (List.range place.length).tail.map fun n => (place.take n, Entry.directory)
  (steps ++ [(place, entry)]).foldl
    (fun t (place, entry) => if (t.entryAt place).isSome then t else t.set place entry) t

/-- The target of a link that leads nowhere: no entry has this name. -/
private def nowhere : Path := ⟨[0]⟩

/-- Draws what a name in a directory leads to, and the link if it is one.  The content
of a file is read only where it is wanted. -/
private def drawName (t : FileTree) (directory name : String) (wanted : Bool) :
    IO FileTree := do
  let above ← IO.FS.realPath directory
  let place := locationOf above.toString ++ [Utf8.ofString name]
  match ← (above / name).metadata.toBaseIO with
  | .error (.noFileOrDirectory ..) => return t.draw place (.link nowhere)
  | .error _ => return t.draw place (.link (.ofString name))
  | .ok data =>
    let real ← IO.FS.realPath (above / name)
    let entry ← match data.type with
      | .dir => pure .directory
      | .file =>
        if wanted then .file <$> ByteArray.toList <$> IO.FS.readBinFile real
        else pure (.file [])
      | _ => pure (.file [])
    let goal := locationOf real.toString
    let t := t.draw goal entry
    return if goal = place then t else t.draw place (.link (.ofString real.toString))

/-- Draws the entries of a directory.  Only of files that may be traces the content is
read; they come first, since another entry may be a link to the same file. -/
private def drawEntries (t : FileTree) (directory : String) : IO FileTree := do
  match ← (IO.FS.realPath directory).toBaseIO with
  | .error _ => return t
  | .ok real =>
    if !(← real.isDir) then return t
    let names := (← real.readDir).toList.map (·.fileName)
    let (traces, others) := names.partition (·.endsWith Candidate.traceEnding)
    let t ← traces.foldlM (drawName · real.toString · true) t
    others.foldlM (drawName · real.toString · false) t

/-- Draws what lies on the way along a path, as far as there is anything. -/
private def drawPath (wanted : Bool) (t : FileTree) (p : String) : IO FileTree := do
  let mut t := t
  let mut directory := if p.startsWith "/" then "/" else "."
  for name in p.splitOn "/" do
    let next := s!"{directory}/{name}"
    match ← (IO.FS.realPath next).toBaseIO with
    | .error _ => return t
    | .ok _ =>
      if name ≠ "" ∧ name ≠ "." ∧ name ≠ ".." then t ← drawName t directory name wanted
      directory := next
  return t

private def draw (o : CommandLine.Options) (executable : Path) : IO FileTree := do
  let here := (← IO.currentDir).toString
  let request := o.request (o.directory.getD (executable.parent?.getD ⟨[]⟩))
  let outputs := request.output :: request.manifest.toList
  let t ← (outputs.map Path.display).foldlM (drawPath true) ⟨locationOf here, [], List.nodup_nil⟩
  let t ← drawEntries t request.directory.display
  [here, executable.display, request.directory.display].foldlM (drawPath false) t

/-- Makes the directories and writes the files in which a tree differs from the one
before it. -/
private def store (o : CommandLine.Options) (before after : FileTree) : IO Unit := do
  for (place, entry) in after.entries do
    if entry = .directory ∧ (before.entryAt place).isNone then
      IO.FS.createDirAll (FileTree.pathOf place).display
  let request := o.request ⟨[]⟩
  for p in request.output :: request.manifest.toList do
    if let .ok content := after.read p then
      if (before.read p).toOption ≠ some content then
        IO.FS.writeBinFile p.display ⟨content.toArray⟩

private def timeText : IO String := do
  let now := Std.Time.DateTime.ofTimestamp (← Std.Time.Timestamp.now) .UTC
  return now.format "uuuu-MM-dd'T'HH:mm:ss.SSSSSSSSSxxx"

end RewardPlot

open RewardPlot in
def main (words : List String) : IO UInt32 := do
  let arguments := words.map Utf8.ofString
  let executable := Path.ofString (← IO.appPath).toString
  let surroundings := { executable, time := ← timeText }
  let outcome ← match CommandLine.read arguments with
    | .options o => do
      let tree ← draw o executable
      let outcome := CommandLine.run surroundings arguments tree
      store o tree outcome.tree
      pure outcome
    | _ => pure (CommandLine.run surroundings arguments ⟨[], [], List.nodup_nil⟩)
  outcome.log.forM fun line => IO.eprintln line
  IO.eprint outcome.stderr
  IO.print outcome.stdout
  return outcome.exitCode.toUInt32
