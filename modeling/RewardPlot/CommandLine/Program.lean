import RewardPlot.CommandLine.Options
/-!
# The program

From the arguments and the file tree to what is printed, the exit code, and the file
tree as it is left.
-/

namespace RewardPlot.CommandLine

def programName : String := "lct-reward-plot"

def versionText : String := programName ++ " 0.1.0\n"

def usage : String := s!"Usage: {programName} [OPTIONS] [DIR]"

def helpText : String :=
  String.join <| [
    "Aggregate reinforcement-learning reward logs into a single labeled line chart",
    "",
    usage,
    "",
    "Arguments:",
    "  [DIR]  Directory holding the .log traces (defaults to the executable's directory)",
    "",
    "Options:",
    "  -o, --output <OUTPUT>      Output path for the PNG chart [default: LCT_reward.png]",
    "      --manifest <MANIFEST>  " ++
      "Output path for a JSON manifest of the plotted series (optional)",
    "      --title <TITLE>        Chart title [default: \"LCT reward\"]",
    "      --width <WIDTH>        Chart width in pixels [default: 1400]",
    "      --height <HEIGHT>      Chart height in pixels [default: 1000]",
    "      --summary              Print text summary to stdout",
    "  -v, --verbose              Enable verbose logging",
    "  -h, --help                 Print help",
    "  -V, --version              Print version"].map (· ++ "\n")

def misuseText : String := s!"error: unexpected arguments\n\n{usage}\n"

/-- A cause below a fault: its number, where there are several, stands before its first
line, and the other lines are indented as far. -/
def causeLines (number : Option Nat) (cause : String) : String :=
  let (first, others) := match number with
    | none => ("    ", "    ")
    | some n => (Summary.padLeft 5 (toString n) ++ ": ", "       ")
  first ++ String.intercalate ("\n" ++ others)
    ((cause.toList.splitOn '\n').map String.ofList)

def errorReport : List String → String
  | [] => ""
  | [top] => s!"Error: {top}\n"
  | top :: causes =>
    let numbered := causes.zipIdx.map fun (cause, n) =>
      causeLines (if 1 < causes.length then some n else none) cause ++ "\n"
    s!"Error: {top}\n\nCaused by:\n" ++ String.join numbered

/-- What surrounds a run of the program. -/
structure Surroundings where
  executable : Path
  /-- The time that is put into manifests. -/
  time : String
  /-- How the writing of the manifest is interrupted, if it is. -/
  interruption : Option Interruption := none
deriving DecidableEq

/-- What the program leaves behind. -/
structure Outcome where
  exitCode : UInt8
  stdout : String
  stderr : String
  /-- The lines for the log of a run that succeeds. -/
  log : List String
  tree : FileTree
deriving DecidableEq

/-- The directory to scan, without links: the given one, or that of the program. -/
def directoryToScan (t : FileTree) (executable : Path) (given : Option Path) :
    Except RunFault Path :=
  let directory := given.getD (executable.parent?.getD ⟨[]⟩)
  (t.canonical directory).mapError (.unresolved directory)

def Options.request (o : Options) (directory : Path) : Request :=
  let standard : Request := {}
  { directory
    output := o.output.getD standard.output
    manifest := o.manifest
    settings :=
      { standard.settings with
        title := o.title.getD standard.settings.title
        width := o.width.getD standard.settings.width
        height := o.height.getD standard.settings.height }
    summary := o.summary }

def Options.run (o : Options) (s : Surroundings) (t : FileTree) :
    Except RunFault Report × FileTree :=
  match directoryToScan t s.executable o.directory with
  | .error fault => (.error fault, t)
  | .ok directory =>
    let request := o.request directory
    match request.objection? with
    | some objection => (.error (.objection objection), t)
    | none => request.run s.time t s.interruption

def Options.logs (o : Options) (n : Note) : Bool := o.verbose || n.level != .debug

def run (s : Surroundings) (arguments : List (List UInt8)) (t : FileTree) : Outcome :=
  match read arguments with
  | .help => ⟨0, helpText, "", [], t⟩
  | .version => ⟨0, versionText, "", [], t⟩
  | .misuse => ⟨2, "", misuseText, [], t⟩
  | .options o =>
    match o.run s t with
    | (.ok report, t) => ⟨0, report.printed, "", (report.notes.filter o.logs).map Note.line, t⟩
    | (.error fault, t) => ⟨1, "", errorReport fault.chain, [], t⟩

end RewardPlot.CommandLine
