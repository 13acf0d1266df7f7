import RewardPlot.Drawing
import RewardPlot.Output
import RewardPlot.Summary
/-!
# Runs

A run scans a directory, collects its traces into a chart, writes the image of the
chart and, where it is wanted, a manifest and a summary.  The first fault ends it.
-/

namespace RewardPlot

structure Request where
  directory : Path := .ofString "."
  output : Path := .ofString "LCT_reward.png"
  manifest : Option Path := none
  settings : Chart.Settings := {}
  summary : Bool := false
deriving DecidableEq

/-- Why a request is turned down before the run. -/
inductive Objection where
  | noDirectory
  | noOutput
  | noTitle
  | zeroSize
  | tooLarge
  | sharedPath
deriving DecidableEq, Repr

def Objection.message : Objection → String
  | noDirectory => "Scan directory cannot be empty"
  | noOutput => "Output path cannot be empty"
  | noTitle => "Chart title cannot be empty"
  | zeroSize => "Chart width and height must be greater than 0"
  | tooLarge => s!"Chart size is too large (max {Chart.mostPixels} pixels per side)"
  | sharedPath => "Manifest and chart cannot share an output path"

/-- Whether two paths have the same components. -/
def Path.agrees (p q : Path) : Bool := p.components == q.components

/-- The first objection against a request, if there is one. -/
def Request.objection? (r : Request) : Option Objection :=
  let s := r.settings
  if r.directory.isEmpty then some .noDirectory
  else if r.output.isEmpty then some .noOutput
  else if Text.trim s.title.toList = [] then some .noTitle
  else if s.width = 0 ∨ s.height = 0 then some .zeroSize
  else if Chart.mostPixels < s.width ∨ Chart.mostPixels < s.height then some .tooLarge
  else if r.manifest.any (·.agrees r.output) then some .sharedPath
  else none

inductive RunFault where
  | unresolved (path : Path) (cause : FileFault)
  | objection (cause : Objection)
  | scan (cause : ScanFault)
  | trace (cause : TraceFault)
  | image (cause : OutputFault)
  | manifest (cause : OutputFault)
deriving DecidableEq

namespace RunFault

/-- The texts of a fault, from what failed down to the first cause. -/
def chain : RunFault → List String
  | unresolved p cause => [s!"Failed to resolve directory {p.display}", cause.message]
  | objection cause => [cause.message]
  | scan cause => "Failed to scan trace directory" :: cause.message :: cause.sources
  | trace f =>
    [s!"Failed to parse trace {f.path.display}", f.message, f.cause.message]
  | image cause => "Failed to write chart PNG" :: cause.message :: cause.sources
  | manifest cause => "Failed to write chart manifest" :: cause.message :: cause.sources

end RunFault

/-- The outcome of a run that succeeds. -/
structure Report where
  directory : Path
  output : Path
  tally : Tally
  labels : List String
  notes : List Note
  /-- What the image shows. -/
  drawing : Option Drawing
  /-- The printed summary; nothing where none is wanted. -/
  printed : String
deriving DecidableEq

/-- The collection of the traces in a directory. -/
def collectDirectory (t : FileTree) (directory : Path) (settings : Chart.Settings) :
    Except RunFault Collection :=
  match Candidate.inDirectory t directory with
  | .error fault => .error (.scan fault)
  | .ok files =>
    match Collection.collect t (.empty settings) files with
    | (_, some fault) => .error (.trace fault)
    | (collection, none) => .ok collection

namespace Request

def storeManifest (r : Request) (time : String) (c : Chart) (t : FileTree)
    (interruption : Option Interruption := none) : Except RunFault Unit × FileTree :=
  match r.manifest with
  | none => (.ok (), t)
  | some p =>
    match Output.storeManifest t (.ofChart time c) p interruption with
    | (.ok (), t) => (.ok (), t)
    | (.error fault, t) => (.error (.manifest fault), t)

def report (r : Request) (c : Collection) : Report :=
  { directory := r.directory
    output := r.output
    tally := c.tally
    labels := c.chart.labels
    notes := c.notes
    drawing := c.chart.drawing?
    printed := if r.summary then Summary.text c.chart c.tally r.directory else "" }

/-- Runs a request at some time, on a file tree that it leaves changed.  The writing of the
manifest may be interrupted. -/
def run (r : Request) (time : String) (t : FileTree)
    (interruption : Option Interruption := none) : Except RunFault Report × FileTree :=
  match collectDirectory t r.directory r.settings with
  | .error fault => (.error fault, t)
  | .ok collection =>
    match Output.storeImage t collection.chart r.output with
    | (.error fault, t) => (.error (.image fault), t)
    | (.ok (), t) =>
      match r.storeManifest time collection.chart t interruption with
      | (.error fault, t) => (.error fault, t)
      | (.ok (), t) => (.ok (r.report collection), t)

end Request

end RewardPlot
