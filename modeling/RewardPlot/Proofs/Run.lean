import RewardPlot.Proofs.Run.Course
/-!
# What runs change

A run saves its image and its manifest and makes the directories above them.  A trace of
the scanned directory therefore stays as it is, unless one of these two paths leads to it.
How much of an output such a file holds depends on how the run ended.
-/

namespace RewardPlot

open FileTree (Saves find_file_persists find_directory_persists entryAt_of_find)

namespace Request

/-- A file that a run with this outcome leaves at the path of an output. -/
inductive Saved (r : Request) (time : String) (t : FileTree)
    (interruption : Option Interruption) : Except RunFault Report → SavedFile → Prop where
  /-- The image, once it was drawn. -/
  | image {outcome : Except RunFault Report} {format : ImageFormat} {image : List UInt8}
      (hdrawn : ∀ fault, outcome ≠ .error (.image fault))
      (hformat : ImageFormat.ofPath? r.output = some format)
      (hbytes : Image.bytes? ⟨format, r.settings.width, r.settings.height⟩ = some image) :
      Saved r time t interruption outcome ⟨r.output, image⟩
  /-- An empty file, where no image is written in the format of the extension. -/
  | empty {format : ImageFormat} (hformat : ImageFormat.ofPath? r.output = some format)
      (hsignature : format.signature? = none) :
      Saved r time t interruption (.error (.image (.drawing .unwrittenFormat))) ⟨r.output, []⟩
  /-- The manifest, where the run succeeded. -/
  | manifest {report : Report} {c : Collection} {p : Path} (hpath : r.manifest = some p)
      (hcollect : collectDirectory t r.directory r.settings = .ok c) :
      Saved r time t interruption (.ok report) ⟨p, (Manifest.ofChart time c.chart).bytes⟩
  /-- A part of the manifest, where its writing was interrupted. -/
  | part {c : Collection} {p : Path} {i : Interruption} (hpath : r.manifest = some p)
      (hcollect : collectDirectory t r.directory r.settings = .ok c)
      (hinterruption : interruption = some i) :
      Saved r time t interruption (.error (.manifest i.fault))
        ⟨p, (Manifest.ofChart time c.chart).bytes.take i.length⟩

/-- The paths above the outputs of a run. -/
def parents (r : Request) : List Path :=
  Output.parents r.output ++ r.manifest.toList.flatMap Output.parents

section

variable {r : Request} {time : String} {t drawn later : FileTree} {c : Collection} {p : Path}
  {interruption : Option Interruption} {s : SavedFile}
  (hcollect : collectDirectory t r.directory r.settings = .ok c)

include hcollect

theorem saved_of_drawn {outcome : Except RunFault Report}
    (himage : Output.storeImage t c.chart r.output = (.ok (), drawn))
    (hdrawn : ∀ fault, outcome ≠ .error (.image fault))
    (hs : s ∈ Output.imageSaved c.chart r.output (.ok ())) :
    r.Saved time t interruption outcome s := by
  obtain ⟨format, image, -, hformat, hbytes, -⟩ := Output.storeImage_ok himage
  rw [Output.imageSaved_ok hformat hbytes, List.mem_singleton] at hs
  rw [collectDirectory_settings hcollect] at hbytes
  rw [hs]
  exact .image hdrawn hformat hbytes

omit hcollect in
theorem saved_of_undrawn {fault : OutputFault}
    (himage : Output.storeImage t c.chart r.output = (.error fault, later))
    (hs : s ∈ Output.imageSaved c.chart r.output (.error fault)) :
    r.Saved time t interruption (.error (.image fault)) s := by
  by_cases hfault : fault = .drawing .unwrittenFormat
  · subst hfault
    obtain ⟨format, -, hformat, hsignature, -⟩ := Output.storeImage_unwritten himage
    rw [List.mem_singleton.mp hs]
    exact .empty hformat hsignature
  · rw [Output.imageSaved_error _ _ hfault] at hs
    cases hs

theorem saved_of_recorded {report : Report} (hpath : r.manifest = some p)
    (hmanifest : Output.storeManifest drawn (.ofChart time c.chart) p interruption =
      (.ok (), later))
    (hs : s ∈ Output.manifestSaved (.ofChart time c.chart) p interruption (.ok ())) :
    r.Saved time t interruption (.ok report) s := by
  cases Output.interruption_eq_none hmanifest
  rw [List.mem_singleton.mp hs]
  exact .manifest hpath hcollect

theorem saved_of_unrecorded {fault : OutputFault} (hpath : r.manifest = some p)
    (hs : s ∈ Output.manifestSaved (.ofChart time c.chart) p interruption (.error fault)) :
    r.Saved time t interruption (.error (.manifest fault)) s := by
  by_cases hfault : ∀ i ∈ interruption, fault ≠ i.fault
  · rw [Output.manifestSaved_error _ _ hfault] at hs
    cases hs
  · push Not at hfault
    obtain ⟨i, hi, rfl⟩ := hfault
    cases Option.mem_def.mp hi
    rw [Output.manifestSaved_interrupted, List.mem_singleton] at hs
    rw [hs]
    exact .part hpath hcollect rfl

end

/-- A run changes no more than the files that it saves, and the directories that it makes
above them. -/
theorem run_saves (r : Request) (time : String) (t : FileTree)
    (interruption : Option Interruption) :
    ∃ saved, Saves t (r.run time t interruption).2 saved r.parents ∧
      ∀ s ∈ saved, r.Saved time t interruption (r.run time t interruption).1 s := by
  have hcourse := r.course time t interruption
  rw [parents]
  generalize r.run time t interruption = ended at hcourse
  cases hcourse with
  | uncollected hcollect =>
      exact ⟨[], (Saves.refl t).mono (by simp) (by simp), List.forall_mem_nil _⟩
  | undrawn hcollect himage =>
      refine ⟨_, (Output.storeImage_saves himage).mono (List.Subset.refl _) (by simp), ?_⟩
      exact fun s hs => saved_of_undrawn himage hs
  | drawn hcollect himage hpath =>
      refine ⟨_, (Output.storeImage_saves himage).mono (List.Subset.refl _) (by simp), ?_⟩
      exact fun s hs => saved_of_drawn hcollect himage (by simp) hs
  | unrecorded hcollect himage hpath hmanifest =>
      rw [hpath]
      have hboth := (Output.storeImage_saves himage).trans (Output.storeManifest_saves hmanifest)
      refine ⟨_, hboth.mono (List.Subset.refl _) (by simp), fun s hs => ?_⟩
      rcases List.mem_append.mp hs with hs | hs
      · exact saved_of_drawn hcollect himage (by simp) hs
      · exact saved_of_unrecorded hcollect hpath hs
  | recorded hcollect himage hpath hmanifest =>
      rw [hpath]
      have hboth := (Output.storeImage_saves himage).trans (Output.storeManifest_saves hmanifest)
      refine ⟨_, hboth.mono (List.Subset.refl _) (by simp), fun s hs => ?_⟩
      rcases List.mem_append.mp hs with hs | hs
      · exact saved_of_drawn hcollect himage (by simp) hs
      · exact saved_of_recorded hcollect hpath hmanifest hs

def oneTrace : FileTree :=
  ⟨[], [([Utf8.ofString "d"], .directory),
    ([Utf8.ofString "d", Utf8.ofString "t.log"], .file (Utf8.ofString "1,2"))], by decide⟩

/-- A request whose manifest takes the path of a trace. -/
def manifestOverTrace : Request :=
  { directory := .ofString "d", output := .ofString "o.png",
    manifest := some (.ofString "d/t.log") }

/-- No space for more than the first bytes of a text. -/
def fullDisk : Interruption := ⟨2, true, "No space left on device (os error 28)"⟩

end Request

end RewardPlot
