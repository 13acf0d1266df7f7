import RewardPlot.Axis.Dashes
import RewardPlot.Main
import RewardPlot.Proofs.Text.Splitting
import RewardPlot.Proofs.Trace.Layout
import RewardPlot.Proofs.Binary64.Rounding
import RewardPlot.Proofs.Collection
import RewardPlot.Proofs.Decimal.Shortest
import RewardPlot.Proofs.FileTree.Edit
import RewardPlot.Proofs.Json.Number
import RewardPlot.Proofs.Json.Reader
import RewardPlot.Proofs.Json.Token
import RewardPlot.Proofs.Json.Written
import RewardPlot.Proofs.Manifest.Printer
import RewardPlot.Proofs.Manifest.RoundTrip
import RewardPlot.Proofs.Output
import RewardPlot.Proofs.Run
import RewardPlot.Proofs.Run.Outputs
import RewardPlot.Proofs.CommandLine.Failure
import RewardPlot.Proofs.Binary64.Order
import RewardPlot.Proofs.Chart
import RewardPlot.Proofs.Collection.Listing
import RewardPlot.Proofs.Run.Labels
import RewardPlot.Proofs.Image
import RewardPlot.Proofs.Drawing
import RewardPlot.Proofs.Decimal.Rounding
import RewardPlot.Proofs.Decimal.Numeral
import RewardPlot.Proofs.Manifest.Distinct
import RewardPlot.Proofs.Run.Reports
import RewardPlot.Proofs.FileTree.Join
import RewardPlot.Proofs.Collection.Plain
import RewardPlot.Proofs.Run.Again
import RewardPlot.Proofs.Binary64.Monotone
import RewardPlot.Proofs.Trace.Segments
import RewardPlot.Proofs.Axis.Inside
import RewardPlot.Proofs.Text.Malformed
import RewardPlot.Proofs.Trace.Bytes
import RewardPlot.Proofs.Trace.Words
import RewardPlot.Proofs.Trace.Tables
import RewardPlot.Proofs.Trace.Presentation
import RewardPlot.Proofs.Trace.Appended
import RewardPlot.Proofs.Trace.Runs
import RewardPlot.Proofs.Binary64.Nearest
import RewardPlot.Proofs.Decimal.Grammar
import RewardPlot.Proofs.Trace.Fields
import RewardPlot.Proofs.FileTree.Leads
import RewardPlot.Proofs.Candidate.Listing
import RewardPlot.Proofs.Collection.Fault
import RewardPlot.Proofs.Chart.Extremes
import RewardPlot.Proofs.Binary64.Error
import RewardPlot.Proofs.Axis.Span
import RewardPlot.Proofs.FileTree.Astray
import RewardPlot.Proofs.FileTree.Without
import RewardPlot.Proofs.Candidate.Broken
import RewardPlot.Proofs.Trace.Signal
import RewardPlot.Proofs.Binary64.Whole
import RewardPlot.Proofs.Binary64.Value
import RewardPlot.Proofs.Axis.MinorGrid
import RewardPlot.Proofs.Binary64.Decade
import RewardPlot.Proofs.Axis.Multiples
import RewardPlot.Proofs.Axis.Subdivision
import RewardPlot.Proofs.Axis.Spacing
import RewardPlot.Proofs.Axis.KeyPoints
import RewardPlot.Proofs.Axis.Termination
import RewardPlot.Proofs.Axis.Dashes
