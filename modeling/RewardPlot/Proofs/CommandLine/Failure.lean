import RewardPlot.CommandLine.Program
import RewardPlot.Proofs.Run
/-!
# What failed runs leave behind

A run that fails before its first output leaves the file tree as it was.  Where an output
fails, directories above it may have been made, and an image that was saved stays.  A file
is only lost, or left without its content, where it was made before its output failed.
-/

namespace RewardPlot

open FileTree (Saves find_file_persists entryAt_of_find)

/-- Every entry below the root lies in a directory. -/
def FileTree.Grounded (t : FileTree) : Prop :=
  ∀ directory name, (t.entryAt (directory ++ [name])).isSome →
    t.entryAt directory = some .directory

theorem FileTree.grounded_of_entries {t : FileTree}
    (h : ∀ e ∈ t.entries, t.entryAt e.1.dropLast = some .directory) : t.Grounded := by
  intro directory name hentry
  rw [entryAt, if_neg (by simp), List.lookup_isSome_iff] at hentry
  obtain ⟨e, he, hplace⟩ := hentry
  have habove := h e he
  rwa [← eq_of_beq hplace, List.dropLast_concat] at habove

/-- New directories hold no files as long as no files are saved. -/
theorem FileTree.Saves.noFile {t later : FileTree} {made : List Path}
    (h : Saves t later [] made) (hgrounded : t.Grounded) {place : Location}
    (hvacant : t.entryAt place = none) (name : Name) (content : List UInt8) :
    later.entryAt (place ++ [name]) ≠ some (.file content) := by
  intro hfile
  rcases h.entryAt (place ++ [name]) with hsame | ⟨s, hs, -⟩ | ⟨p, -, hmadeAt⟩
  · rw [hfile] at hsame
    have hdirectory := hgrounded place name (by rw [← hsame, Option.isSome_some])
    cases hvacant.symm.trans hdirectory
  · cases hs
  · cases hfile.symm.trans hmadeAt.entry

/-- What a run that failed leaves of the tree in which it began. -/
def RunFault.Leaves (r : Request) (time : String) (t : FileTree)
    (interruption : Option Interruption) (later : FileTree) : RunFault → Prop
  | .unresolved .. | .objection _ | .scan _ | .trace _ => later = t
  | .image cause =>
    -- Only a format in which no images are written has its file made before the fault.
    (cause ≠ .drawing .unwrittenFormat →
      Saves t later [] (Output.parents r.output) ∧
        (t.Grounded → ∀ place name content, t.entryAt place = none →
          later.entryAt (place ++ [name]) ≠ some (.file content))) ∧
    (cause = .drawing .unwrittenFormat →
      ∃ format place, ImageFormat.ofPath? r.output = some format ∧ format.signature? = none ∧
        later.find r.output = .ok (place, .file []) ∧
        Saves t later [⟨r.output, []⟩] (Output.parents r.output)) ∧
    -- The manifest's path plays no part.
    ∀ manifest interruption',
      { r with manifest }.run time t interruption' = (.error (.image cause), later)
  | .manifest cause =>
    ∃ p c format image place, r.manifest = some p ∧
      collectDirectory t r.directory r.settings = .ok c ∧
      ImageFormat.ofPath? r.output = some format ∧
      Image.bytes? ⟨format, r.settings.width, r.settings.height⟩ = some image ∧
      -- The fault came before the manifest's file was made.
      ((∀ i ∈ interruption, cause ≠ i.fault) →
        later.find r.output = .ok (place, .file image) ∧
        Saves t later [⟨r.output, image⟩] (Output.parents r.output ++ Output.parents p)) ∧
      -- It came after that, and the file holds what it took of the manifest.
      ∀ i ∈ interruption, cause = i.fault →
        let part := (Manifest.ofChart time c.chart).bytes.take i.length
        ∃ place', later.find p = .ok (place', .file part) ∧
          later.find r.output = .ok (place, .file (if place = place' then part else image)) ∧
          Saves t later [⟨r.output, image⟩, ⟨p, part⟩]
            (Output.parents r.output ++ Output.parents p)

namespace Request

variable {r : Request} {time : String} {t drawn later : FileTree} {c : Collection}
  {interruption : Option Interruption}

theorem leaves_of_undrawn {cause : OutputFault}
    (hcollect : collectDirectory t r.directory r.settings = .ok c)
    (himage : Output.storeImage t c.chart r.output = (.error cause, later)) :
    (RunFault.image cause).Leaves r time t interruption later := by
  have hsaves := Output.storeImage_saves himage
  refine ⟨fun hwritten => ?_, ?_, fun manifest interruption' => ?_⟩
  · rw [Output.imageSaved_error _ _ hwritten] at hsaves
    exact ⟨hsaves, fun hgrounded place name content hvacant =>
      hsaves.noFile hgrounded hvacant name content⟩
  · rintro rfl
    obtain ⟨format, place, hformat, hsignature, hfind⟩ := Output.storeImage_unwritten himage
    exact ⟨format, place, hformat, hsignature, hfind, hsaves⟩
  · rw [run, hcollect]
    dsimp only
    rw [himage]

theorem leaves_of_unrecorded {p : Path} {cause : OutputFault}
    (hcollect : collectDirectory t r.directory r.settings = .ok c)
    (himage : Output.storeImage t c.chart r.output = (.ok (), drawn))
    (hpath : r.manifest = some p)
    (hmanifest : Output.storeManifest drawn (.ofChart time c.chart) p interruption =
      (.error cause, later)) :
    (RunFault.manifest cause).Leaves r time t interruption later := by
  obtain ⟨format, image, place, hformat, hbytes, hdrawn⟩ := Output.storeImage_ok himage
  have hsaves := Output.storeImage_saves himage
  have hsaves' := Output.storeManifest_saves hmanifest
  rw [Output.imageSaved_ok hformat hbytes] at hsaves
  rw [collectDirectory_settings hcollect] at hbytes
  refine ⟨p, c, format, image, place, hpath, hcollect, hformat, hbytes, ?_, ?_⟩
  · intro hearly
    rw [Output.manifestSaved_error _ _ hearly] at hsaves'
    refine ⟨?_, hsaves.trans hsaves'⟩
    rcases hsaves'.find_file hdrawn with hfind | ⟨s, hs, -⟩
    · exact hfind
    · cases hs
  · rintro i hi rfl
    cases Option.mem_def.mp hi
    obtain ⟨place', hfind'⟩ := Output.find_interrupted hmanifest
    rw [Output.manifestSaved_interrupted] at hsaves'
    exact ⟨place', hfind', hsaves'.find_beside hdrawn hfind', hsaves.trans hsaves'⟩

theorem run_leaves {fault : RunFault}
    (hrun : r.run time t interruption = (.error fault, later)) :
    fault.Leaves r time t interruption later := by
  have hcourse := r.course time t interruption
  rw [hrun] at hcourse
  cases hcourse with
  | uncollected hcollect =>
      rw [collectDirectory] at hcollect
      split at hcollect
      · cases hcollect
        rfl
      · split at hcollect <;> cases hcollect
        rfl
  | undrawn hcollect himage => exact leaves_of_undrawn hcollect himage
  | unrecorded hcollect himage hpath hmanifest =>
      exact leaves_of_unrecorded hcollect himage hpath hmanifest

end Request

namespace CommandLine

theorem directoryToScan_error {t : FileTree} {executable : Path} {given : Option Path}
    {fault : RunFault} (hdirectory : directoryToScan t executable given = .error fault) :
    ∃ p cause, fault = .unresolved p cause := by
  unfold directoryToScan at hdirectory
  dsimp only at hdirectory
  cases hcanonical : t.canonical (given.getD (executable.parent?.getD ⟨[]⟩)) with
  | error cause =>
      rw [hcanonical] at hdirectory
      cases hdirectory
      exact ⟨_, _, rfl⟩
  | ok directory =>
      rw [hcanonical] at hdirectory
      cases hdirectory

theorem Options.run_leaves {o : Options} {s : Surroundings} {t later : FileTree}
    {fault : RunFault} (hrun : o.run s t = (.error fault, later)) :
    ∃ directory, fault.Leaves (o.request directory) s.time t s.interruption later := by
  unfold Options.run at hrun
  split at hrun
  · next hdirectory =>
    cases hrun
    obtain ⟨p, cause, rfl⟩ := directoryToScan_error hdirectory
    exact ⟨⟨[]⟩, rfl⟩
  · next directory hdirectory =>
    dsimp only at hrun
    split at hrun
    · cases hrun
      exact ⟨directory, rfl⟩
    · exact ⟨directory, Request.run_leaves hrun⟩

/-- A run that fails leaves what its fault says: the tree as it was, or new directories above
an output that could not be written and the image where only the manifest is missing.  A file
has another content only where it was made before its output failed: it is empty where no image
is written in the format of the extension, and has a part of the manifest where the writing was
interrupted.  The program leaves the same and ends with one; arguments that it does not take
change nothing. -/
theorem leftovers_after_failure (t : FileTree) :
    (∀ (r : Request) (time : String) (interruption : Option Interruption) (fault : RunFault),
      (r.run time t interruption).1 = .error fault →
        fault.Leaves r time t interruption (r.run time t interruption).2) ∧
    ∀ (s : Surroundings) (arguments : List (List UInt8)),
      ((∀ o, read arguments ≠ .options o) → (run s arguments t).tree = t) ∧
      ∀ (o : Options) (fault : RunFault), read arguments = .options o →
        (o.run s t).1 = .error fault →
          (run s arguments t).exitCode = 1 ∧ (run s arguments t).tree = (o.run s t).2 ∧
            ∃ directory,
              fault.Leaves (o.request directory) s.time t s.interruption (o.run s t).2 := by
  refine ⟨fun r time interruption fault hfault => ?_, fun s arguments => ⟨?_, ?_⟩⟩
  · exact Request.run_leaves (Prod.ext hfault rfl)
  · intro hread
    rw [run]
    cases hreading : read arguments with
    | options o => exact absurd hreading (hread o)
    | help | version | misuse => rfl
  · intro o fault hread hfault
    have hrun : o.run s t = (.error fault, (o.run s t).2) := Prod.ext hfault rfl
    rw [run, hread]
    dsimp only
    rw [hrun]
    exact ⟨rfl, rfl, o.run_leaves hrun⟩

open Request (oneTrace manifestOverTrace fullDisk)

/-- A request whose manifest lies below a trace, and on its way there a directory is made. -/
def belowTrace : Request :=
  { directory := .ofString "d", output := .ofString "new/o.png",
    manifest := some (.ofString "m/../d/t.log/x/m.json") }

def belowTraceFault : RunFault :=
  .manifest (.noParent (.ofString "m/../d/t.log/x") .alreadyExists)

/-- A path without an extension, below directories that are made, which is no text. -/
def noFormatPath : Path := ⟨Utf8.ofString "a/../b/" ++ [0xFF]⟩

def noFormat : Options := { directory := some (.ofString "d"), output := some noFormatPath }

def noFormatArguments : List (List UInt8) :=
  [Utf8.ofString "d", Utf8.ofString "-o", noFormatPath.bytes]

def noFormatFault : RunFault := .image (.drawing .unknownFormat)

def atRoot : Surroundings := { executable := .ofString "/plot", time := "" }

theorem oneTrace_grounded : oneTrace.Grounded := FileTree.grounded_of_entries (by decide)

theorem leftovers_in_oneTrace :
    (belowTrace.run "" oneTrace).1 = .error belowTraceFault ∧
      belowTraceFault.Leaves belowTrace "" oneTrace none (belowTrace.run "" oneTrace).2 ∧
      (manifestOverTrace.run "" oneTrace fullDisk).1 = .error (.manifest fullDisk.fault) ∧
      (RunFault.manifest fullDisk.fault).Leaves manifestOverTrace "" oneTrace fullDisk
        (manifestOverTrace.run "" oneTrace fullDisk).2 ∧
      (∀ o, read [Utf8.ofString "--width"] ≠ .options o) ∧
      (run atRoot [Utf8.ofString "--width"] oneTrace).tree = oneTrace ∧
      read noFormatArguments = .options noFormat ∧
      (noFormat.run atRoot oneTrace).1 = .error noFormatFault ∧
      (run atRoot noFormatArguments oneTrace).exitCode = 1 ∧
      (run atRoot noFormatArguments oneTrace).tree = (noFormat.run atRoot oneTrace).2 ∧
      oneTrace.Grounded ∧
      ∃ directory, noFormatFault.Leaves (noFormat.request directory) "" oneTrace none
          (noFormat.run atRoot oneTrace).2 ∧
        ∀ place name content, oneTrace.entryAt place = none →
          (noFormat.run atRoot oneTrace).2.entryAt (place ++ [name]) ≠ some (.file content) := by
  obtain ⟨hbelow, hfull, hmisuse, hread, hformat⟩ :
      (belowTrace.run "" oneTrace).1 = .error belowTraceFault ∧
        (manifestOverTrace.run "" oneTrace fullDisk).1 = .error (.manifest fullDisk.fault) ∧
        read [Utf8.ofString "--width"] = .misuse ∧
        read noFormatArguments = .options noFormat ∧
        (noFormat.run atRoot oneTrace).1 = .error noFormatFault := by decide +kernel
  have hnone : ∀ o, read [Utf8.ofString "--width"] ≠ .options o := by
    intro o
    rw [hmisuse]
    exact Reading.noConfusion
  obtain ⟨hrun, hprogram⟩ := leftovers_after_failure oneTrace
  obtain ⟨hexit, htree, directory, hleaves⟩ := (hprogram atRoot _).2 _ _ hread hformat
  have hnew := (hleaves.1 (by decide)).2 oneTrace_grounded
  exact ⟨hbelow, hrun _ _ _ _ hbelow, hfull, hrun _ _ _ _ hfull, hnone,
    (hprogram atRoot _).1 hnone, hread, hformat, hexit, htree, oneTrace_grounded, directory,
    hleaves, hnew⟩

/-- A request for an image in a format in which none is written. -/
def unwrittenImage : Request := { directory := .ofString "d", output := .ofString "k.gif" }

/-- A request that meets no objection may leave an empty file when its image cannot be written,
and may replace a file when the writing of its manifest is interrupted. -/
theorem not_all_failures_clean :
    (¬∀ (r : Request) (time : String) (t : FileTree) (interruption : Option Interruption)
        (cause : OutputFault), r.objection? = none →
        (r.run time t interruption).1 = .error (.image cause) →
        Saves t (r.run time t interruption).2 [] (Output.parents r.output)) ∧
      ¬∀ (r : Request) (time : String) (t : FileTree) (interruption : Option Interruption)
        (p : Path) (cause : OutputFault), r.objection? = none → r.manifest = some p →
        (r.run time t interruption).1 = .error (.manifest cause) →
        ∃ image, Saves t (r.run time t interruption).2 [⟨r.output, image⟩]
          (Output.parents r.output ++ Output.parents p) := by
  have hplaces : oneTrace.entryAt [Utf8.ofString "k.gif"] = none ∧
      oneTrace.entryAt [Utf8.ofString "d", Utf8.ofString "t.log"] =
        some (.file (Utf8.ofString "1,2")) := by decide
  obtain ⟨hobjection, hfault, hempty, hobjection', hfault', hpart, hbeside⟩ :
      unwrittenImage.objection? = none ∧
        (unwrittenImage.run "" oneTrace).1 = .error (.image (.drawing .unwrittenFormat)) ∧
        (unwrittenImage.run "" oneTrace).2.entryAt [Utf8.ofString "k.gif"] =
          some (.file []) ∧
        manifestOverTrace.objection? = none ∧
        (manifestOverTrace.run "" oneTrace fullDisk).1 = .error (.manifest fullDisk.fault) ∧
        (manifestOverTrace.run "" oneTrace fullDisk).2.entryAt
          [Utf8.ofString "d", Utf8.ofString "t.log"] = some (.file [0x7B, 0x0A]) ∧
        ((manifestOverTrace.run "" oneTrace fullDisk).2.find
          manifestOverTrace.output).toOption.map Prod.fst = some [Utf8.ofString "o.png"] := by
    decide +kernel
  constructor
  · intro hclean
    have hsaves := hclean unwrittenImage "" oneTrace none _ hobjection hfault
    rcases hsaves.entryAt [Utf8.ofString "k.gif"] with hsame | ⟨s, hs, -⟩ | ⟨p, -, hmade⟩
    · cases hempty.symm.trans (hsame.trans hplaces.1)
    · cases hs
    · cases hempty.symm.trans hmade.entry
  · intro hclean
    obtain ⟨image, hsaves⟩ := hclean manifestOverTrace "" oneTrace fullDisk _ _ hobjection' rfl hfault'
    rcases hsaves.file _ _ hplaces.2 with hsame | ⟨s, hs, hfind⟩
    · cases hpart.symm.trans hsame
    · rw [List.mem_singleton.mp hs] at hfind
      rw [hfind] at hbeside
      cases hbeside

end CommandLine

end RewardPlot
