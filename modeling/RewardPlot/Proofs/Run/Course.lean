import RewardPlot.Run
import RewardPlot.Proofs.Candidate
import RewardPlot.Proofs.Collection
import RewardPlot.Proofs.Output
/-!
# The course of a run

A run ends at its first fault or with a report.  Each way in which it can end says which of
its steps came before, so what holds of a run follows from what holds of its steps.
-/

namespace RewardPlot

/-- A directory that is collected: its names are described one by one, the traces among them
are read, and what they add to an empty chart is the collection. -/
theorem collectDirectory_ok {t : FileTree} {directory : Path} {settings : Chart.Settings}
    {c : Collection} (hcollect : collectDirectory t directory settings = .ok c) :
    ∃ place files, t.find directory = .ok (place, .directory) ∧
      List.Forall₂ (fun name f => Candidate.describe t directory name = .ok f)
        (t.names place) files ∧
      (∀ f ∈ files, f.isTrace → t.read f.path = .ok (Collection.contentIn t f)) ∧
      c = Collection.after (Collection.contentIn t)
        ⟨.empty settings, { entries := files.length }, []⟩ files := by
  rw [collectDirectory] at hcollect
  split at hcollect
  · cases hcollect
  · next files hfiles =>
    split at hcollect
    · cases hcollect
    · next hfinish =>
      cases hcollect
      obtain ⟨place, hfind, hdescribed⟩ := Candidate.inDirectory_ok hfiles
      exact ⟨place, files, hfind, hdescribed, Collection.takeAll_ok hfinish⟩

theorem collectDirectory_settings {t : FileTree} {directory : Path}
    {settings : Chart.Settings} {c : Collection}
    (hcollect : collectDirectory t directory settings = .ok c) :
    c.chart.settings = settings := by
  obtain ⟨_, _, -, -, -, rfl⟩ := collectDirectory_ok hcollect
  rfl

namespace Request

/-- How a run can go: the steps that succeeded, the one that failed, and the outcome. -/
inductive Course (r : Request) (time : String) (t : FileTree)
    (interruption : Option Interruption) : Except RunFault Report × FileTree → Prop where
  | uncollected {fault : RunFault}
      (hcollect : collectDirectory t r.directory r.settings = .error fault) :
      Course r time t interruption (.error fault, t)
  | undrawn {c : Collection} {fault : OutputFault} {later : FileTree}
      (hcollect : collectDirectory t r.directory r.settings = .ok c)
      (himage : Output.storeImage t c.chart r.output = (.error fault, later)) :
      Course r time t interruption (.error (.image fault), later)
  | unrecorded {c : Collection} {drawn later : FileTree} {p : Path} {fault : OutputFault}
      (hcollect : collectDirectory t r.directory r.settings = .ok c)
      (himage : Output.storeImage t c.chart r.output = (.ok (), drawn))
      (hpath : r.manifest = some p)
      (hmanifest : Output.storeManifest drawn (.ofChart time c.chart) p interruption =
        (.error fault, later)) :
      Course r time t interruption (.error (.manifest fault), later)
  | drawn {c : Collection} {later : FileTree}
      (hcollect : collectDirectory t r.directory r.settings = .ok c)
      (himage : Output.storeImage t c.chart r.output = (.ok (), later))
      (hpath : r.manifest = none) :
      Course r time t interruption (.ok (r.report c), later)
  | recorded {c : Collection} {drawn later : FileTree} {p : Path}
      (hcollect : collectDirectory t r.directory r.settings = .ok c)
      (himage : Output.storeImage t c.chart r.output = (.ok (), drawn))
      (hpath : r.manifest = some p)
      (hmanifest : Output.storeManifest drawn (.ofChart time c.chart) p interruption =
        (.ok (), later)) :
      Course r time t interruption (.ok (r.report c), later)

theorem course (r : Request) (time : String) (t : FileTree)
    (interruption : Option Interruption := none) :
    Course r time t interruption (r.run time t interruption) := by
  rw [run]
  cases hcollect : collectDirectory t r.directory r.settings with
  | error fault => exact .uncollected hcollect
  | ok c =>
      dsimp only
      rcases himage : Output.storeImage t c.chart r.output with ⟨fault | ⟨⟩, drawn⟩
      · exact .undrawn hcollect himage
      · dsimp only
        rw [storeManifest]
        cases hpath : r.manifest with
        | none => exact .drawn hcollect himage hpath
        | some p =>
            dsimp only
            rcases hmanifest : Output.storeManifest drawn (.ofChart time c.chart) p
              interruption with ⟨fault | ⟨⟩, later⟩
            · exact .unrecorded hcollect himage hpath hmanifest
            · exact .recorded hcollect himage hpath hmanifest

/-! ## Runs that succeed -/

variable {r : Request} {time : String} {t later : FileTree} {report : Report}

/-- A run succeeds when each of its steps does. -/
theorem run_eq_ok_iff : r.run time t = (.ok report, later) ↔
    ∃ c drawn, collectDirectory t r.directory r.settings = .ok c ∧
      Output.storeImage t c.chart r.output = (.ok (), drawn) ∧
      r.storeManifest time c.chart drawn = (.ok (), later) ∧ report = r.report c := by
  unfold run
  constructor
  · intro hrun
    split at hrun
    · simp at hrun
    · next c hcollect =>
      split at hrun
      · simp at hrun
      · next drawn himage =>
        split at hrun
        · simp at hrun
        · next stored hmanifest =>
          cases hrun
          exact ⟨c, drawn, hcollect, himage, hmanifest, rfl⟩
  · rintro ⟨c, drawn, hcollect, himage, hmanifest, rfl⟩
    simp only [hcollect, himage, hmanifest]

theorem storeManifest_eq_ok_iff {c : Chart} :
    r.storeManifest time c t = (.ok (), later) ↔
      (r.manifest = none ∧ later = t) ∨ ∃ p, r.manifest = some p ∧
        Output.storeManifest t (.ofChart time c) p = (.ok (), later) := by
  unfold storeManifest
  cases r.manifest with
  | none => simp [eq_comm]
  | some p =>
      rcases hstored : Output.storeManifest t (.ofChart time c) p with ⟨fault | ⟨⟩, stored⟩ <;>
        simp [hstored]

/-- A run that succeeds goes as if its manifest could not be interrupted. -/
theorem run_of_isOk {interruption : Option Interruption}
    (hok : (r.run time t interruption).1.isOk) : r.run time t interruption = r.run time t := by
  have hcourse := r.course time t interruption
  generalize r.run time t interruption = outcome at hcourse hok ⊢
  cases hcourse with
  | uncollected | undrawn | unrecorded => cases hok
  | drawn hcollect himage hpath =>
      exact (run_eq_ok_iff.mpr ⟨_, _, hcollect, himage,
        storeManifest_eq_ok_iff.mpr (.inl ⟨hpath, rfl⟩), rfl⟩).symm
  | recorded hcollect himage hpath hmanifest =>
      cases Output.interruption_eq_none hmanifest
      exact (run_eq_ok_iff.mpr ⟨_, _, hcollect, himage,
        storeManifest_eq_ok_iff.mpr (.inr ⟨_, hpath, hmanifest⟩), rfl⟩).symm

theorem exists_of_run_isOk (hok : (r.run time t).1.isOk) :
    ∃ report later, r.run time t = (.ok report, later) := by
  rcases hrun : r.run time t with ⟨fault | report, later⟩
  · rw [hrun] at hok
    cases hok
  · exact ⟨report, later, rfl⟩

end Request

end RewardPlot
