import RewardPlot.Proofs.Manifest.RoundTrip
import RewardPlot.Proofs.Run
import RewardPlot.Proofs.Run.Labels
import RewardPlot.Proofs.Summary
import RewardPlot.Proofs.Trace.Layout
/-!
# The reports of a run

A run reports its series three times: in the labels that it returns, in its manifest and in
its summary.  All three are made from one chart, and the manifest says the same when it is
read back.
-/

namespace RewardPlot

namespace Manifest

/-- An entry of a manifest that tells what a series is. -/
structure Item.Records (i : Item) (s : Series) : Prop where
  label : i.label = s.label
  points : i.points = .ofNat s.trace.length
  masked : i.masked = .ofNat s.trace.masked
  /-- Both counts are told in full where they fit into a word. -/
  counts : s.trace.length < UInt64.size →
    i.points.toNat = s.trace.length ∧ i.masked.toNat = s.trace.masked
  sum : i.sum = none ↔ ¬s.trace.sum.isFinite

theorem Item.records_reread (s : Series) : (Item.ofSeries s).reread.Records s where
  label := rfl
  points := rfl
  masked := rfl
  counts := by
    intro hsize
    have hmasked := s.trace.length_present_add_masked
    exact ⟨UInt64.toNat_ofNat_of_lt' hsize, UInt64.toNat_ofNat_of_lt' (by omega)⟩
  sum := by simp [ofSeries, reread]

theorem labels_reread (m : Manifest) :
    m.reread.series.map Item.label = m.series.map Item.label := by
  simp [reread, Item.reread]

theorem labels_ofChart (generatedAt : String) (c : Chart) :
    (ofChart generatedAt c).series.map Item.label = c.labels := by
  simp [ofChart, Item.ofSeries, Chart.labels]

/-- The manifest of a chart has an entry for each series, also when it was read back. -/
theorem records_ofChart (generatedAt : String) (c : Chart) :
    List.Forall₂ (fun s i => i.Records s) c.series (ofChart generatedAt c).reread.series := by
  simp only [reread, ofChart, List.map_map, List.forall₂_map_right_iff, List.forall₂_same]
  intro s _
  exact Item.records_reread s

end Manifest

namespace Summary

/-- The lines above the rows of the series. -/
def heading (tally : Tally) (directory : Path) : List String :=
  ["", rule, "REWARD PLOT SUMMARY", rule,
    s!"Directory:    {directory.display}",
    s!"Entries:      {tally.entries}",
    s!"Eligible:     {tally.eligible}",
    s!"Plotted:      {tally.plotted}",
    s!"Placeholders: {tally.placeholders}",
    "", "Series                                     Points   Masked              Sum"]

theorem columns_eq : tableLine "Series" "Points" "Masked" "Sum" =
    "Series                                     Points   Masked              Sum" := by decide

theorem lines_eq (c : Chart) (tally : Tally) (directory : Path) :
    lines c tally directory =
      heading tally directory ++ c.series.map seriesLine ++ [rule] := by
  rw [lines, columns_eq, heading]

theorem shows_seriesLines (series : List Series) :
    List.Forall₂ Shows series (series.map seriesLine) := by
  rw [List.forall₂_map_right_iff, List.forall₂_same]
  intro s _
  exact shows_seriesLine s

end Summary

/-- Each series of a collection was counted as it was plotted. -/
theorem plotted_of_collectDirectory {t : FileTree} {directory : Path}
    {settings : Chart.Settings} {c : Collection}
    (hcollect : collectDirectory t directory settings = .ok c) :
    c.tally.plotted = c.chart.labels.length := by
  obtain ⟨place, files, -, -, -, rfl⟩ := collectDirectory_ok hcollect
  simp [Collection.after, Chart.empty, Chart.labels]

namespace Request

/-- The manifest that a run leaves, as it is read back. -/
theorem loadManifest_after_run {r : Request} {time : String} {t later : FileTree} {p : Path}
    {report : Report} (hrun : r.run time t = (.ok report, later)) (hpath : r.manifest = some p)
    {c : Collection}
    (hcollect : collectDirectory t r.directory r.settings = .ok c) :
    Output.loadManifest later p = .ok (Manifest.ofChart time c.chart).reread := by
  obtain ⟨c', drawn, hcollect', -, hmanifest, -⟩ := run_eq_ok_iff.mp hrun
  cases hcollect.symm.trans hcollect'
  rcases storeManifest_eq_ok_iff.mp hmanifest with ⟨hnone, -⟩ | ⟨q, hsome, hstored⟩
  · rw [hpath] at hnone
    cases hnone
  · cases hpath.symm.trans hsome
    exact Output.loadManifest_stored (Manifest.sumsFinite_ofChart time c.chart) hstored

/-- A run with a manifest and a summary returns the labels of its series, and the manifest
that is read back and the rows of the summary tell of the same series in the same order.  Each
of them is the trace of what a file held when the run read it. -/
theorem reports_agree {r : Request} {time : String} {t later : FileTree} {p : Path}
    {report : Report} (hpath : r.manifest = some p) (hsummary : r.summary)
    (hrun : r.run time t = (.ok report, later)) :
    ∃ place names series m rows,
      t.find r.directory = .ok (place, .directory) ∧ names.Sublist (t.names place) ∧
      List.Forall₂ (Series.OfName t r.directory) names series ∧
      report.labels = series.map Series.label ∧
      report.tally.plotted = report.labels.length ∧
      Output.loadManifest later p = .ok m ∧
      m.series.map Manifest.Item.label = report.labels ∧
      List.Forall₂ (fun s i => i.Records s) series m.series ∧
      report.printed = String.join ((Summary.heading report.tally r.directory ++ rows ++
        [Summary.rule]).map (· ++ "\n")) ∧
      List.Forall₂ Summary.Shows series rows := by
  obtain ⟨c, drawn, hcollect, -, -, rfl⟩ := run_eq_ok_iff.mp hrun
  obtain ⟨place, names, hfind, hnames, hseries⟩ := series_of_collectDirectory hcollect
  have hload := loadManifest_after_run hrun hpath hcollect
  refine ⟨place, names, c.chart.series, _, c.chart.series.map Summary.seriesLine, hfind,
    hnames, hseries, rfl, plotted_of_collectDirectory hcollect, hload, ?_,
    Manifest.records_ofChart time c.chart, ?_, Summary.shows_seriesLines _⟩
  · rw [Manifest.labels_reread, Manifest.labels_ofChart]
    rfl
  · rw [Request.report, if_pos hsummary, Summary.text, Summary.lines_eq]

/-- A request for everything that a run can report. -/
def fullReport : Request :=
  { directory := .ofString "d", output := .ofString "o.png",
    manifest := some (.ofString "m.json"), summary := true }

theorem fullReport_agrees :
    ∃ report, (fullReport.run "" oneTrace).1 = .ok report ∧
    ∃ place names series m rows,
      oneTrace.find fullReport.directory = .ok (place, .directory) ∧
      names.Sublist (oneTrace.names place) ∧
      List.Forall₂ (Series.OfName oneTrace fullReport.directory) names series ∧
      report.labels = series.map Series.label ∧
      report.tally.plotted = report.labels.length ∧
      Output.loadManifest (fullReport.run "" oneTrace).2 (.ofString "m.json") = .ok m ∧
      m.series.map Manifest.Item.label = report.labels ∧
      List.Forall₂ (fun s i => i.Records s) series m.series ∧
      report.printed = String.join ((Summary.heading report.tally fullReport.directory ++ rows ++
        [Summary.rule]).map (· ++ "\n")) ∧
      List.Forall₂ Summary.Shows series rows ∧
      report.labels = ["t.log"] ∧
      m.series.map (fun i => (i.label, i.points, i.masked)) = [("t.log", 2, 0)] ∧
      report.printed = String.join ((Summary.heading ⟨1, 1, 1, 0⟩ (.ofString "d") ++
        ["t.log                                           2        0           3.0000",
          Summary.rule]).map (· ++ "\n")) := by
  obtain ⟨hlabels, hprinted, hentries⟩ :
      (fullReport.run "" oneTrace).1.toOption.map Report.labels = some ["t.log"] ∧
        (fullReport.run "" oneTrace).1.toOption.map Report.printed = some (String.join
          ((Summary.heading ⟨1, 1, 1, 0⟩ (.ofString "d") ++
            ["t.log                                           2        0           3.0000",
              Summary.rule]).map (· ++ "\n"))) ∧
        (Output.loadManifest (fullReport.run "" oneTrace).2 (.ofString "m.json")).toOption.map
          (fun m => m.series.map fun i => (i.label, i.points, i.masked)) =
            some [("t.log", 2, 0)] := by decide +kernel
  cases hrun : fullReport.run "" oneTrace with
  | mk outcome later =>
      rw [hrun] at hlabels hprinted hentries
      cases outcome with
      | error fault => cases hlabels
      | ok report =>
          obtain ⟨place, names, series, m, rows, hfind, hnames, hseries, hreported, hplotted,
            hload, hitems, hrecords, htext, hrows⟩ := reports_agree rfl rfl hrun
          rw [hload] at hentries
          exact ⟨report, rfl, place, names, series, m, rows, hfind, hnames, hseries, hreported,
            hplotted, hload, hitems, hrecords, htext, hrows, Option.some.inj hlabels,
            Option.some.inj hentries, Option.some.inj hprinted⟩

end Request

end RewardPlot
