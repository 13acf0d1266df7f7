import RewardPlot.Proofs.Binary64.Order
import RewardPlot.Proofs.Collection.Plain
import RewardPlot.Proofs.Image
import RewardPlot.Proofs.Run.Reports
/-!
# Runs that are made again

What a run stores is no trace, so a second run of the same request finds the traces that the
first one found, though its directory may list them in another order.  It stores its outputs
where the first one did.
-/

namespace RewardPlot

open FileTree (pathFault?)

namespace Manifest

theorem sameSeries_self {items : List Item} (hsums : ∀ i ∈ items, i.sum ≠ some .nan) :
    sameSeries items items := by
  induction items with
  | nil => rfl
  | cons i items ih =>
      have hsum : sameSum i.sum i.sum := by
        have hne := hsums i List.mem_cons_self
        cases hi : i.sum with
        | none => rfl
        | some x =>
            rw [hi] at hne
            exact Binary64.coincides_of_place_eq (fun hnan => hne (by rw [hnan])) rfl
      simp [sameSeries, Item.same, hsum, ih fun j hj => hsums j (List.mem_cons_of_mem i hj)]

/-- A manifest that is read back has sums that equal themselves. -/
theorem sum_reread_ne_nan {m : Manifest} (hfinite : m.SumsFinite) :
    ∀ i ∈ m.reread.series, i.sum ≠ some .nan := by
  intro i hi
  obtain ⟨i, hi', rfl⟩ := List.mem_map.mp hi
  cases hsum : i.sum with
  | none => simp [Item.reread, hsum]
  | some x =>
      have hx := Json.reread_ne_nan (hfinite i hi' x hsum)
      simp [Item.reread, hsum, hx]

end Manifest

namespace Request

/-- The paths at which a run stores something. -/
def outputs (r : Request) : List Path := r.output :: r.manifest.toList

/-- No output is a file of the directory with the suffix of a trace. -/
def SparesTraces (r : Request) (t : FileTree) (place : Location) : Prop :=
  ∀ p ∈ r.outputs, ∀ name entry, t.find p = .ok (place ++ [name], entry) →
    Candidate.suffixOf name ≠ some Candidate.traceEnding

variable {r : Request} {time time' : String} {t later last : FileTree} {report report' : Report}
  {place : Location}

/-- The last names on the way to the outputs tell whether they spare traces. -/
theorem sparesTraces_of_lastNames (hnames : ∀ p ∈ r.outputs,
    ((t.find p).toOption.bind (·.1.getLast?)).bind Candidate.suffixOf ≠
      some Candidate.traceEnding) : r.SparesTraces t place := by
  intro p hp name entry hfind
  have hname := hnames p hp
  rw [hfind] at hname
  simpa [Except.toOption] using hname

theorem path_mem_outputs {outcome : Except RunFault Report} {s : SavedFile}
    (hs : r.Saved time t none outcome s) : s.path ∈ r.outputs := by
  cases hs with
  | image | empty => exact List.mem_cons_self
  | manifest hpath | part hpath => simp [outputs, hpath]

theorem storeManifest_keeps {c : Chart} (hstored : r.storeManifest time c t = (.ok (), later)) :
    FileTree.Keeps t later := by
  rcases storeManifest_eq_ok_iff.mp hstored with ⟨-, rfl⟩ | ⟨p, -, hmanifest⟩
  · exact .refl later
  · exact (Output.storeManifest_saves hmanifest).keeps

/-- After a run there is a file at each output, and nothing is to be made above it. -/
theorem outputs_settled (hrun : r.run time t = (.ok report, later)) :
    ∀ p ∈ r.outputs, Output.Settled later p := by
  obtain ⟨c, drawn, -, himage, hmanifest, -⟩ := run_eq_ok_iff.mp hrun
  intro p hp
  rcases List.mem_cons.mp hp with rfl | hp
  · exact (Output.settled_of_storeImage himage).keeps (storeManifest_keeps hmanifest)
  · rcases storeManifest_eq_ok_iff.mp hmanifest with ⟨hnone, -⟩ | ⟨q, hsome, hstored⟩
    · simp [hnone] at hp
    · have hp : p = q := by simpa [hsome, eq_comm] using hp
      rw [hp]
      exact Output.settled_of_storeManifest hstored

/-- A run succeeds when its directory is collected and its outputs were stored by a run
before. -/
theorem run_isOk (hrun : r.run time t = (.ok report, later)) (time' : String)
    {c : Collection} (hcollect : collectDirectory later r.directory r.settings = .ok c) :
    ∃ last, r.run time' later = (.ok (r.report c), last) := by
  have hsettled := outputs_settled hrun
  obtain ⟨first, drawn, hfirst, himage, -, -⟩ := run_eq_ok_iff.mp hrun
  have hsettings : c.chart.settings = first.chart.settings := by
    rw [collectDirectory_settings hcollect, collectDirectory_settings hfirst]
  obtain ⟨format, image, -, hformat, hbytes, -⟩ := Output.storeImage_ok himage
  have hsize := Output.sizeFits_of_storeImage himage
  rw [← hsettings] at hbytes hsize
  obtain ⟨again, hagain⟩ :=
    (hsettled r.output (by simp [outputs])).storeImage hsize hformat hbytes
  have hkeeps := (Output.storeImage_saves hagain).keeps
  have hstored : ∃ last, r.storeManifest time' c.chart again = (.ok (), last) := by
    cases hmanifest : r.manifest with
    | none => exact ⟨again, storeManifest_eq_ok_iff.mpr (.inl ⟨hmanifest, rfl⟩)⟩
    | some p =>
        have hp := hsettled p (by simp [outputs, hmanifest])
        obtain ⟨last, hlast⟩ := (hp.keeps hkeeps).storeManifest (.ofChart time' c.chart)
        exact ⟨last, storeManifest_eq_ok_iff.mpr (.inr ⟨p, hmanifest, hlast⟩)⟩
  obtain ⟨last, hlast⟩ := hstored
  exact ⟨last, run_eq_ok_iff.mpr ⟨c, again, hcollect, hagain, hlast, rfl⟩⟩

/-- What two runs of a request have in common: the counts, the series, and what their
manifests say, where the series may come in another order. -/
structure Repeats (r : Request) (t later last : FileTree) (report report' : Report) : Prop where
  eligible : report'.tally.eligible = report.tally.eligible
  plotted : report'.tally.plotted = report.tally.plotted
  placeholders : report'.tally.placeholders = report.tally.placeholders
  series : ∃ c c', collectDirectory t r.directory r.settings = .ok c ∧
    collectDirectory later r.directory r.settings = .ok c' ∧
    report.labels = c.chart.labels ∧ report'.labels = c'.chart.labels ∧
    c'.chart.series.Perm c.chart.series
  manifest : ∀ p ∈ r.manifest, ∃ m m', Output.loadManifest later p = .ok m ∧
    Output.loadManifest last p = .ok m' ∧ m'.title = m.title ∧ m'.series.Perm m.series ∧
    m.agrees { m' with series := m.series }

theorem run_plain (hhere : FileTree.ProperPlace t.here) (hplain : t.Plain place)
    (hdirectory : t.find r.directory = .ok (place, .directory))
    (hrun : r.run time t = (.ok report, later))
    (hspared : r.SparesTraces later place) :
    later.Plain place ∧ later.find r.directory = .ok (place, .directory) ∧
      (later.tracesIn place).Perm (t.tracesIn place) := by
  obtain ⟨saved, hsaves, hsaved⟩ := r.run_saves time t none
  rw [hrun] at hsaves
  refine ⟨hplain.saves hsaves hhere,
    FileTree.find_directory_persists hsaves.keeps hdirectory, ?_⟩
  exact hsaves.tracesIn_perm fun s hs => hspared s.path (path_mem_outputs (hsaved s hs))

theorem agrees_reordered {c c' : Chart} (hseries : c'.series.Perm c.series)
    (htitle : c'.settings.title = c.settings.title) :
    (Manifest.ofChart time' c').reread.series.Perm (Manifest.ofChart time c).reread.series ∧
      (Manifest.ofChart time c).reread.agrees
        { (Manifest.ofChart time' c').reread with
          series := (Manifest.ofChart time c).reread.series } := by
  refine ⟨(hseries.map _).map _, ?_⟩
  have hself := Manifest.sameSeries_self
    (Manifest.sum_reread_ne_nan (Manifest.sumsFinite_ofChart time c))
  have htitle' : (Manifest.ofChart time c).reread.title =
      (Manifest.ofChart time' c').reread.title := htitle.symm
  simp [Manifest.agrees, hself, htitle']

section Plain

variable (hplain : t.Plain place) (hplain' : later.Plain place)
  (hdirectory : t.find r.directory = .ok (place, .directory))
  (hdirectory' : later.find r.directory = .ok (place, .directory))
  (hrun : r.run time t = (.ok report, later))
include hplain hplain' hdirectory hdirectory' hrun

/-- The first run came to all names that were there, so only those that it added can stop the
second one. -/
theorem runs_again_iff : (∃ report' last, r.run time' later = (.ok report', last)) ↔
    ∀ name ∈ later.names place, name ∉ t.names place →
      pathFault? .finding (r.directory.join name) = none := by
  constructor
  · rintro ⟨report', last, hagain⟩ name hname -
    obtain ⟨c', drawn', hcollect', -⟩ := run_eq_ok_iff.mp hagain
    exact (collectDirectory_plain hplain' hdirectory' hcollect').1 name hname
  · intro hnew
    obtain ⟨c, drawn, hcollect, -⟩ := run_eq_ok_iff.mp hrun
    have hold := (collectDirectory_plain hplain hdirectory hcollect).1
    have hreach : ∀ name ∈ later.names place,
        pathFault? .finding (r.directory.join name) = none := by
      intro name hname
      by_cases hthere : name ∈ t.names place
      · exact hold name hthere
      · exact hnew name hname hthere
    obtain ⟨c', hcollect'⟩ := collectDirectory_isOk hplain' hdirectory' hreach
    obtain ⟨last, hlast⟩ := run_isOk hrun time' hcollect'
    exact ⟨_, last, hlast⟩

/-- Runs over directories with the same traces come to the same. -/
theorem repeats_of_perm (htraces : (later.tracesIn place).Perm (t.tracesIn place))
    (hagain : r.run time' later = (.ok report', last)) :
    r.Repeats t later last report report' := by
  obtain ⟨c, drawn, hcollect, -, -, rfl⟩ := run_eq_ok_iff.mp hrun
  obtain ⟨c', drawn', hcollect', -, -, rfl⟩ := run_eq_ok_iff.mp hagain
  obtain ⟨-, hseries, heligible, hplotted, hplaceholders⟩ :=
    collectDirectory_plain hplain hdirectory hcollect
  obtain ⟨-, hseries', heligible', hplotted', hplaceholders'⟩ :=
    collectDirectory_plain hplain' hdirectory' hcollect'
  have hperm : c'.chart.series.Perm c.chart.series := by
    rw [hseries, hseries']
    exact htraces.filter _
  constructor
  · exact heligible'.trans (htraces.length_eq.trans heligible.symm)
  · exact hplotted'.trans ((htraces.filter _).length_eq.trans hplotted.symm)
  · exact hplaceholders'.trans ((htraces.filter _).length_eq.trans hplaceholders.symm)
  · exact ⟨c, c', hcollect, hcollect', rfl, rfl, hperm⟩
  · intro p hp
    have htitle : c'.chart.settings.title = c.chart.settings.title := by
      rw [collectDirectory_settings hcollect, collectDirectory_settings hcollect']
    obtain ⟨hitems, hagrees⟩ := agrees_reordered hperm htitle
    exact ⟨_, _, loadManifest_after_run hrun hp hcollect,
      loadManifest_after_run hagain hp hcollect', htitle, hitems, hagrees⟩

end Plain

/-- A second run of a request succeeds exactly when the path of each entry that the first one
added to the directory can be looked up, and then it comes to the same as the first one. -/
theorem run_again (hnamed : t.WellNamed)
    (hdirectory : t.find r.directory = .ok (place, .directory))
    (hlinks : ∀ name target, t.entryAt (place ++ [name]) ≠ some (.link target))
    (hrun : r.run time t = (.ok report, later))
    (hspared : r.SparesTraces later place) :
    ((∃ report' last, r.run time' later = (.ok report', last)) ↔
      ∀ name ∈ later.names place, name ∉ t.names place →
        pathFault? .finding (r.directory.join name) = none) ∧
    ∀ report' last, r.run time' later = (.ok report', last) →
      r.Repeats t later last report report' := by
  have hplain : t.Plain place := ⟨fun _ => hnamed.names, hlinks⟩
  obtain ⟨hplain', hdirectory', htraces⟩ :=
    run_plain hnamed.here hplain hdirectory hrun hspared
  constructor
  · exact runs_again_iff hplain hplain' hdirectory hdirectory' hrun
  · intro report' last hagain
    exact repeats_of_perm hplain hplain' hdirectory hdirectory' hrun htraces hagain

/-- A request whose outputs come into the scanned directory, one of them into a directory that
is made there. -/
def outputsInside : Request :=
  { directory := .ofString "d", output := .ofString "d/o.png",
    manifest := some (.ofString "d/more/m.json") }

theorem oneTrace_wellNamed : oneTrace.WellNamed := ⟨by decide, by decide⟩

theorem oneTrace_noLink (name : Name) (target : Path) :
    oneTrace.entryAt ([Utf8.ofString "d"] ++ [name]) ≠ some (.link target) := by
  intro hentry
  have hmem := FileTree.mem_entries_of_entryAt (by simp) hentry
  simp [oneTrace] at hmem

theorem outputsInside_runs :
    (outputsInside.run "" oneTrace).1.isOk ∧ ∀ p ∈ outputsInside.outputs,
      (((outputsInside.run "" oneTrace).2.find p).toOption.bind (·.1.getLast?)).bind
        Candidate.suffixOf ≠ some Candidate.traceEnding := by
  decide +kernel

theorem outputsInside_again :
    ∃ report later, outputsInside.run "" oneTrace = (.ok report, later) ∧
      oneTrace.WellNamed ∧
      oneTrace.find outputsInside.directory = .ok ([Utf8.ofString "d"], .directory) ∧
      (∀ name target,
        oneTrace.entryAt ([Utf8.ofString "d"] ++ [name]) ≠ some (.link target)) ∧
      outputsInside.SparesTraces later [Utf8.ofString "d"] ∧
      ((∃ report' last, outputsInside.run "later" later = (.ok report', last)) ↔
        ∀ name ∈ later.names [Utf8.ofString "d"],
          name ∉ oneTrace.names [Utf8.ofString "d"] →
            pathFault? .finding (outputsInside.directory.join name) = none) ∧
      ∀ report' last, outputsInside.run "later" later = (.ok report', last) →
        outputsInside.Repeats oneTrace later last report report' := by
  obtain ⟨hok, hnames⟩ := outputsInside_runs
  obtain ⟨report, later, hrun⟩ := exists_of_run_isOk hok
  rw [hrun] at hnames
  have hspared : outputsInside.SparesTraces later [Utf8.ofString "d"] :=
    sparesTraces_of_lastNames hnames
  exact ⟨report, later, hrun, oneTrace_wellNamed, rfl, oneTrace_noLink, hspared,
    run_again oneTrace_wellNamed rfl oneTrace_noLink hrun hspared⟩

/-- A request whose directory has so long a path that only short names can follow it. -/
def longDirectory : Request :=
  { directory := ⟨Utf8.ofString "d" ++ List.replicate 4089 Path.slash⟩,
    output := .ofString "d/out.png" }

/-- A second run may fail at an entry that the first one added. -/
theorem not_all_runs_repeat :
    ¬∀ (r : Request) (time time' : String) (t later : FileTree) (place : Location)
      (report : Report), t.WellNamed → t.find r.directory = .ok (place, .directory) →
      (∀ name target, t.entryAt (place ++ [name]) ≠ some (.link target)) →
      r.run time t = (.ok report, later) → r.SparesTraces later place →
      ∃ report' last, r.run time' later = (.ok report', last) := by
  intro hrepeat
  have hruns : (longDirectory.run "" oneTrace).1.isOk ∧
      (∀ p ∈ longDirectory.outputs,
        (((longDirectory.run "" oneTrace).2.find p).toOption.bind (·.1.getLast?)).bind
          Candidate.suffixOf ≠ some Candidate.traceEnding) ∧
      (longDirectory.run "" (longDirectory.run "" oneTrace).2).1.isOk = false := by
    decide +kernel
  have hfind : (oneTrace.find longDirectory.directory).toOption =
      some ([Utf8.ofString "d"], .directory) := by decide +kernel
  have hdirectory : oneTrace.find longDirectory.directory =
      .ok ([Utf8.ofString "d"], .directory) := by
    rcases hfound : oneTrace.find longDirectory.directory with fault | found <;>
      simp_all [Except.toOption]
  obtain ⟨hok, hnames, hfails⟩ := hruns
  obtain ⟨report, later, hrun⟩ := exists_of_run_isOk hok
  rw [hrun] at hnames hfails
  obtain ⟨report', last, hagain⟩ := hrepeat longDirectory "" "" oneTrace later _ report
    oneTrace_wellNamed hdirectory oneTrace_noLink hrun (sparesTraces_of_lastNames hnames)
  rw [hagain] at hfails
  cases hfails

end Request

end RewardPlot
