import RewardPlot.Candidate
import RewardPlot.Chart
import RewardPlot.Decimal.Written
import RewardPlot.Text.Quoted
import RewardPlot.Trace.Layout
/-!
# Collecting traces

The traces among some candidates are read in turn.  Each becomes a series of the
chart, unless its sum is zero; the first one that cannot be read ends the collection.
-/

namespace RewardPlot

structure Tally where
  /-- Candidates in all. -/
  entries : Nat := 0
  /-- Traces among them. -/
  eligible : Nat := 0
  /-- Traces that became series. -/
  plotted : Nat := 0
  /-- Traces that were left out because their sum is zero. -/
  placeholders : Nat := 0
deriving DecidableEq, Repr

structure TraceFault where
  path : Path
  cause : FileFault
deriving DecidableEq

def TraceFault.message (f : TraceFault) : String :=
  s!"Failed to read trace file {f.path.display}: {f.cause.message}"

/-- What is noted while traces are collected. -/
inductive Note where
  | ignored (c : Candidate)
  | parsed (path : Path) (trace : Trace)
  | masked (label : String) (trace : Trace)
  | leftOut (label : String)
  | plotted (label : String) (trace : Trace)
deriving DecidableEq

inductive Note.Level where
  | warn
  | info
  | debug
deriving DecidableEq, Repr

namespace Note

def Level.name : Level → String
  | warn => "WARN"
  | info => "INFO"
  | debug => "DEBUG"

def level : Note → Level
  | ignored _ | parsed .. => .debug
  | masked .. => .warn
  | leftOut _ | plotted .. => .info

private def suffixText : Option String → String
  | none => "None"
  | some s => s!"Some({Text.quote s})"

def message : Note → String
  | ignored c =>
    s!"Skipping {c.label} (file: {c.isFile}, size: {c.size}, suffix: {suffixText c.suffix})"
  | parsed p t => s!"Parsed {p.display}: {t.length} values ({t.masked} masked)"
  | masked label t => s!"{label}: {t.masked} of {t.length} values masked"
  | leftOut label => s!"Skipping {label} (sum is zero)"
  | plotted label t =>
    s!"Plotting {label} ({t.length} values, sum " ++
      String.ofList (t.sum.written Decimal.plainStyle) ++ ")"

def line (n : Note) : String := n.level.name ++ ": " ++ n.message

end Note

/-- A chart under way, with the counts and the notes so far. -/
structure Collection where
  chart : Chart
  tally : Tally
  notes : List Note
deriving DecidableEq

namespace Collection

def readTrace (t : FileTree) (path : Path) : Except TraceFault Trace :=
  match t.read path with
  | .ok content => .ok (.ofBytes content)
  | .error cause => .error ⟨path, cause⟩

/-- The notes about a trace that was read. -/
def notesOn (path : Path) (label : String) (trace : Trace) : List Note :=
  [.parsed path trace] ++
    (if 0 < trace.masked then [.masked label trace] else []) ++
    [if trace.sumsToZero then .leftOut label else .plotted label trace]

def takeTrace (c : Collection) (path : Path) (label : String) (trace : Trace) : Collection :=
  let notes := c.notes ++ notesOn path label trace
  let tally := { c.tally with eligible := c.tally.eligible + 1 }
  if trace.sumsToZero then
    { c with notes, tally := { tally with placeholders := tally.placeholders + 1 } }
  else
    { chart := c.chart.add ⟨label, trace⟩, notes,
      tally := { tally with plotted := tally.plotted + 1 } }

def take (t : FileTree) (c : Collection) (f : Candidate) : Except TraceFault Collection :=
  if f.isTrace then (readTrace t f.path).map (c.takeTrace f.path f.label)
  else .ok { c with notes := c.notes ++ [.ignored f] }

/-- Takes candidates in turn, up to the first trace that cannot be read. -/
def takeAll (t : FileTree) : Collection → List Candidate → Collection × Option TraceFault
  | c, [] => (c, none)
  | c, f :: fs =>
    match c.take t f with
    | .ok c => takeAll t c fs
    | .error fault => (c, some fault)

def collect (t : FileTree) (chart : Chart) (files : List Candidate) :
    Collection × Option TraceFault :=
  takeAll t ⟨chart, { entries := files.length }, []⟩ files

end Collection

end RewardPlot
