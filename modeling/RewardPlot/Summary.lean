import RewardPlot.Collection
/-!
# Summaries

A table of the series of a chart for a reader at a terminal.  Columns are padded with
spaces to a width in characters; longer texts are not cut.
-/

namespace RewardPlot.Summary

def padRight (width : Nat) (s : String) : String :=
  s ++ String.ofList (List.replicate (width - s.length) ' ')

def padLeft (width : Nat) (s : String) : String :=
  String.ofList (List.replicate (width - s.length) ' ') ++ s

/-- A line across the table. -/
def rule : String := String.ofList (List.replicate 80 '=')

def tableLine (name points masked sum : String) : String :=
  String.intercalate " "
    [padRight 40 name, padLeft 8 points, padLeft 8 masked, padLeft 16 sum]

/-- The line of a series; its sum has four places. -/
def seriesLine (s : Series) : String :=
  tableLine s.label (toString s.trace.length) (toString s.trace.masked)
    (String.ofList (s.trace.sum.writtenFixed 4))

def lines (c : Chart) (tally : Tally) (directory : Path) : List String :=
  ["", rule, "REWARD PLOT SUMMARY", rule,
    s!"Directory:    {directory.display}",
    s!"Entries:      {tally.entries}",
    s!"Eligible:     {tally.eligible}",
    s!"Plotted:      {tally.plotted}",
    s!"Placeholders: {tally.placeholders}",
    "", tableLine "Series" "Points" "Masked" "Sum"] ++
    c.series.map seriesLine ++ [rule]

/-- The printed text, in which every line is ended. -/
def text (c : Chart) (tally : Tally) (directory : Path) : String :=
  String.join ((lines c tally directory).map (· ++ "\n"))

end RewardPlot.Summary
