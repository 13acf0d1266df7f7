import RewardPlot.Output
import RewardPlot.Proofs.FileTree.Changes
/-!
# What outputs change

An output makes the directories above it that are missing and then saves its file.  What is
left of an attempt follows from how it ended.
-/

namespace RewardPlot

/-- The faults of a path that is not made ready for its file. -/
def OutputFault.IsPrior : OutputFault → Prop
  | .emptyPath | .directory _ | .noParent .. => True
  | .size .. | .drawing _ | .file _ | .text _ | .flush _ => False

theorem Interruption.fault_cases (i : Interruption) :
    i.fault = .flush i.cause ∨ i.fault = .text i.cause := by
  unfold fault
  split
  · exact .inl rfl
  · exact .inr rfl

theorem Interruption.not_isPrior_fault (i : Interruption) : ¬i.fault.IsPrior := by
  rcases i.fault_cases with hfault | hfault <;> rw [hfault] <;> exact id

theorem Interruption.fault_ne_file (i : Interruption) (cause : FileFault) :
    i.fault ≠ .file cause := by
  rcases i.fault_cases with hfault | hfault <;> rw [hfault] <;> exact OutputFault.noConfusion

namespace Output

open FileTree (Saves Keeps goal_persists hasEntry_persists)

/-- The paths above an output, from the nearest one on. -/
def parents (p : Path) : List Path := (p.parent?.map FileTree.ancestors).getD []

/-! ## Paths that are made ready -/

theorem makeParent_saves (t : FileTree) (p : Path) :
    Saves t (makeParent t p).2 [] (parents p) := by
  rw [makeParent]
  split
  · exact (Saves.refl t).mono (by simp) (by simp)
  · next above habove =>
    have hparents : parents p = FileTree.ancestors above := by
      rw [parents, habove, Option.map_some, Option.getD_some]
    rw [hparents]
    split
    · exact (Saves.refl t).mono (by simp) (by simp)
    · have hsaves := t.makeDirectories_saves above
      split
      · next hmade =>
        rw [hmade] at hsaves
        exact hsaves
      · next hmade =>
        rw [hmade] at hsaves
        exact hsaves

theorem pathFault?_isPrior {t : FileTree} {p : Path} {fault : OutputFault}
    (hfault : pathFault? t p = some fault) : fault.IsPrior := by
  unfold pathFault? at hfault
  split_ifs at hfault <;> cases hfault <;> trivial

theorem makeParent_isPrior {t made : FileTree} {p : Path} {fault : OutputFault}
    (hmade : makeParent t p = (.error fault, made)) : fault.IsPrior := by
  unfold makeParent at hmade
  split at hmade
  · cases hmade
  · split at hmade
    · cases hmade
    · split at hmade <;> cases hmade
      trivial

/-- An output fails before its path is ready, or it saves in a tree that only has new
directories above the path. -/
theorem atPath_cases {t later : FileTree} {p : Path}
    {save : FileTree → Except OutputFault Unit × FileTree} {outcome : Except OutputFault Unit}
    (hstored : atPath t p save = (outcome, later)) :
    (∃ fault, outcome = .error fault ∧ fault.IsPrior ∧ Saves t later [] (parents p)) ∨
      ∃ ready, Saves t ready [] (parents p) ∧ save ready = (outcome, later) := by
  rw [atPath] at hstored
  split at hstored
  · next fault hfault =>
    cases hstored
    have hsaves : Saves t t [] (parents p) := (Saves.refl t).mono (by simp) (by simp)
    exact .inl ⟨fault, rfl, pathFault?_isPrior hfault, hsaves⟩
  · have hsaves := makeParent_saves t p
    split at hstored
    · next fault ready hmade =>
      cases hstored
      rw [hmade] at hsaves
      exact .inl ⟨fault, rfl, makeParent_isPrior hmade, hsaves⟩
    · next ready hmade =>
      rw [hmade] at hsaves
      exact .inr ⟨ready, hsaves, hstored⟩

/-- An output changes what its last step changes, apart from new directories. -/
theorem atPath_saves {t later : FileTree} {p : Path}
    {save : FileTree → Except OutputFault Unit × FileTree} {outcome : Except OutputFault Unit}
    {saved : List SavedFile} (hstored : atPath t p save = (outcome, later))
    (hsave : ∀ ready, save ready = (outcome, later) → Saves ready later saved []) :
    Saves t later saved (parents p) := by
  rcases atPath_cases hstored with ⟨-, -, -, hsaves⟩ | ⟨ready, hready, hsaved⟩
  · exact hsaves.mono (by simp) (by simp)
  · exact (hready.trans (hsave ready hsaved)).mono (by simp) (by simp)

/-! ## Images -/

theorem saveFile_cases {t later : FileTree} {p : Path} {content : List UInt8}
    {unmade : FileFault → OutputFault} {written outcome : Except OutputFault Unit}
    (hsaved : saveFile t p content unmade written = (outcome, later)) :
    (∃ cause, outcome = .error (unmade cause) ∧ later = t) ∨
      (outcome = written ∧ t.write p content = .ok later) := by
  rw [saveFile] at hsaved
  split at hsaved
  · next cause _ =>
    cases hsaved
    exact .inl ⟨cause, rfl, rfl⟩
  · next hwrite =>
    cases hsaved
    exact .inr ⟨rfl, hwrite⟩

/-- The file that an attempt to save an image leaves at its path, if it leaves one.  It is
empty where no image is written in the format of the extension. -/
def imageSaved (c : Chart) (p : Path) : Except OutputFault Unit → List SavedFile
  | .ok () =>
    let image? := (ImageFormat.ofPath? p).bind fun format =>
      Image.bytes? ⟨format, c.settings.width, c.settings.height⟩
    image?.toList.map (SavedFile.mk p)
  | .error (.drawing .unwrittenFormat) => [⟨p, []⟩]
  | .error _ => []

theorem imageSaved_ok {c : Chart} {p : Path} {format : ImageFormat} {image : List UInt8}
    (hformat : ImageFormat.ofPath? p = some format)
    (hbytes : Image.bytes? ⟨format, c.settings.width, c.settings.height⟩ = some image) :
    imageSaved c p (.ok ()) = [⟨p, image⟩] := by
  rw [imageSaved, hformat, Option.bind_some, hbytes, Option.toList_some, List.map_singleton]

theorem imageSaved_error (c : Chart) (p : Path) {fault : OutputFault}
    (hfault : fault ≠ .drawing .unwrittenFormat) : imageSaved c p (.error fault) = [] := by
  unfold imageSaved
  split
  · next hok => cases hok
  · next hunwritten =>
    cases hunwritten
    exact absurd rfl hfault
  · rfl

/-- An attempt to save an image writes it, or leaves its file empty, or makes no file. -/
theorem saveImage_cases {t later : FileTree} {c : Chart} {p : Path}
    {outcome : Except OutputFault Unit} (hsaved : saveImage c p t = (outcome, later)) :
    (∃ format image, outcome = .ok () ∧ ImageFormat.ofPath? p = some format ∧
      Image.bytes? ⟨format, c.settings.width, c.settings.height⟩ = some image ∧
      t.write p image = .ok later) ∨
    (∃ format, outcome = .error (.drawing .unwrittenFormat) ∧
      ImageFormat.ofPath? p = some format ∧ format.signature? = none ∧
      t.write p [] = .ok later) ∨
    ∃ fault, outcome = .error fault ∧ fault ≠ .drawing .unwrittenFormat ∧ later = t := by
  rw [saveImage] at hsaved
  split at hsaved
  · cases hsaved
    exact .inr (.inr ⟨_, rfl, by simp, rfl⟩)
  · split at hsaved
    · cases hsaved
      exact .inr (.inr ⟨_, rfl, by simp, rfl⟩)
    · next format hformat =>
      split at hsaved
      · next image hbytes =>
        rcases saveFile_cases hsaved with ⟨cause, rfl, rfl⟩ | ⟨rfl, hwrite⟩
        · exact .inr (.inr ⟨_, rfl, by simp, rfl⟩)
        · exact .inl ⟨format, image, rfl, hformat, hbytes, hwrite⟩
      · next hbytes =>
        have hsignature : format.signature? = none := Option.map_eq_none_iff.mp hbytes
        rcases saveFile_cases hsaved with ⟨cause, rfl, rfl⟩ | ⟨rfl, hwrite⟩
        · exact .inr (.inr ⟨_, rfl, by simp, rfl⟩)
        · exact .inr (.inl ⟨format, rfl, hformat, hsignature, hwrite⟩)

theorem storeImage_saves {t later : FileTree} {c : Chart} {p : Path}
    {outcome : Except OutputFault Unit} (hstored : storeImage t c p = (outcome, later)) :
    Saves t later (imageSaved c p outcome) (parents p) := by
  refine atPath_saves hstored fun ready hsaved => ?_
  rcases saveImage_cases hsaved with ⟨format, image, rfl, hformat, hbytes, hwrite⟩ |
    ⟨format, rfl, -, -, hwrite⟩ | ⟨fault, rfl, hfault, rfl⟩
  · rw [imageSaved_ok hformat hbytes]
    exact FileTree.write_saves hwrite
  · exact FileTree.write_saves hwrite
  · rw [imageSaved_error c p hfault]
    exact .refl later

/-- Where an attempt to store an image leads: to the image, to an empty file, or to a fault that
leaves no file behind. -/
theorem storeImage_cases {t later : FileTree} {c : Chart} {p : Path}
    {outcome : Except OutputFault Unit} (hstored : storeImage t c p = (outcome, later)) :
    (∃ format image place, outcome = .ok () ∧ ImageFormat.ofPath? p = some format ∧
      Image.bytes? ⟨format, c.settings.width, c.settings.height⟩ = some image ∧
      later.find p = .ok (place, .file image)) ∨
    (∃ format place, outcome = .error (.drawing .unwrittenFormat) ∧
      ImageFormat.ofPath? p = some format ∧ format.signature? = none ∧
      later.find p = .ok (place, .file [])) ∨
    ∃ fault, outcome = .error fault ∧ fault ≠ .drawing .unwrittenFormat := by
  rcases atPath_cases hstored with ⟨fault, rfl, hprior, -⟩ | ⟨ready, -, hsaved⟩
  · refine .inr (.inr ⟨fault, rfl, ?_⟩)
    rintro rfl
    cases hprior
  · rcases saveImage_cases hsaved with ⟨format, image, rfl, hformat, hbytes, hwrite⟩ |
      ⟨format, rfl, hformat, hsignature, hwrite⟩ | ⟨fault, rfl, hne, -⟩
    · obtain ⟨place, hfind⟩ := FileTree.find_of_write hwrite
      exact .inl ⟨format, image, place, rfl, hformat, hbytes, hfind⟩
    · obtain ⟨place, hfind⟩ := FileTree.find_of_write hwrite
      exact .inr (.inl ⟨format, place, rfl, hformat, hsignature, hfind⟩)
    · exact .inr (.inr ⟨fault, rfl, hne⟩)

/-- An image that was stored is in the format of the extension, and its path leads to it. -/
theorem storeImage_ok {t later : FileTree} {c : Chart} {p : Path}
    (hstored : storeImage t c p = (.ok (), later)) :
    ∃ format image place, ImageFormat.ofPath? p = some format ∧
      Image.bytes? ⟨format, c.settings.width, c.settings.height⟩ = some image ∧
      later.find p = .ok (place, .file image) := by
  rcases storeImage_cases hstored with ⟨format, image, place, -, hleft⟩ |
    ⟨format, place, hfault, -⟩ | ⟨fault, hfault, -⟩
  · exact ⟨format, image, place, hleft⟩
  · cases hfault
  · cases hfault

/-- Only an extension that names a format without images leaves an empty file. -/
theorem storeImage_unwritten {t later : FileTree} {c : Chart} {p : Path}
    (hstored : storeImage t c p = (.error (.drawing .unwrittenFormat), later)) :
    ∃ format place, ImageFormat.ofPath? p = some format ∧ format.signature? = none ∧
      later.find p = .ok (place, .file []) := by
  rcases storeImage_cases hstored with ⟨format, image, place, hok, -⟩ |
    ⟨format, place, -, hleft⟩ | ⟨fault, hfault, hne⟩
  · cases hok
  · exact ⟨format, place, hleft⟩
  · cases hfault
    exact absurd rfl hne

/-! ## Manifests -/

section Manifests

/-- The file that an attempt to save a manifest leaves at its path, if it leaves one.  It holds
a part of the manifest where the writing was interrupted. -/
def manifestSaved (m : Manifest) (p : Path) :
    Option Interruption → Except OutputFault Unit → List SavedFile
  | none, .ok () => [⟨p, m.bytes⟩]
  | some i, .error fault => if fault = i.fault then [⟨p, m.bytes.take i.length⟩] else []
  | _, _ => []

theorem manifestSaved_interrupted (m : Manifest) (p : Path) (i : Interruption) :
    manifestSaved m p (some i) (.error i.fault) = [⟨p, m.bytes.take i.length⟩] := if_pos rfl

theorem manifestSaved_error (m : Manifest) (p : Path) {interruption : Option Interruption}
    {fault : OutputFault} (hfault : ∀ i ∈ interruption, fault ≠ i.fault) :
    manifestSaved m p interruption (.error fault) = [] := by
  cases interruption with
  | none => rfl
  | some i => exact if_neg (hfault i rfl)

variable {t later : FileTree} {m : Manifest} {p : Path} {interruption : Option Interruption}

theorem saveManifest_cases {outcome : Except OutputFault Unit}
    (hsaved : saveManifest m p interruption t = (outcome, later)) :
    (interruption = none ∧ outcome = .ok () ∧ t.write p m.bytes = .ok later) ∨
    (∃ i, interruption = some i ∧ outcome = .error i.fault ∧
      t.write p (m.bytes.take i.length) = .ok later) ∨
    ∃ cause, outcome = .error (.file cause) ∧ later = t := by
  cases interruption with
  | none =>
      rcases saveFile_cases hsaved with hunmade | ⟨rfl, hwrite⟩
      · exact .inr (.inr hunmade)
      · exact .inl ⟨rfl, rfl, hwrite⟩
  | some i =>
      rcases saveFile_cases hsaved with hunmade | ⟨rfl, hwrite⟩
      · exact .inr (.inr hunmade)
      · exact .inr (.inl ⟨i, rfl, rfl, hwrite⟩)

theorem storeManifest_saves {outcome : Except OutputFault Unit}
    (hstored : storeManifest t m p interruption = (outcome, later)) :
    Saves t later (manifestSaved m p interruption outcome) (parents p) := by
  refine atPath_saves hstored fun ready hsaved => ?_
  rcases saveManifest_cases hsaved with ⟨rfl, rfl, hwrite⟩ | ⟨i, rfl, rfl, hwrite⟩ |
    ⟨cause, rfl, rfl⟩
  · exact FileTree.write_saves hwrite
  · rw [manifestSaved_interrupted]
    exact FileTree.write_saves hwrite
  · rw [manifestSaved_error m p fun i _ => (i.fault_ne_file cause).symm]
    exact .refl later

/-- Where an attempt to store a manifest leads: to the manifest, to a part of it, or to a fault
that is no interruption. -/
theorem storeManifest_cases {outcome : Except OutputFault Unit}
    (hstored : storeManifest t m p interruption = (outcome, later)) :
    (interruption = none ∧ outcome = .ok () ∧
      ∃ place, later.find p = .ok (place, .file m.bytes)) ∨
    (∃ i, interruption = some i ∧ outcome = .error i.fault ∧
      ∃ place, later.find p = .ok (place, .file (m.bytes.take i.length))) ∨
    ∃ fault, outcome = .error fault ∧ ∀ i : Interruption, fault ≠ i.fault := by
  rcases atPath_cases hstored with ⟨fault, rfl, hprior, -⟩ | ⟨ready, -, hsaved⟩
  · refine .inr (.inr ⟨fault, rfl, ?_⟩)
    rintro i rfl
    exact i.not_isPrior_fault hprior
  · rcases saveManifest_cases hsaved with ⟨hnone, rfl, hwrite⟩ | ⟨i, hi, rfl, hwrite⟩ |
      ⟨cause, rfl, -⟩
    · exact .inl ⟨hnone, rfl, FileTree.find_of_write hwrite⟩
    · exact .inr (.inl ⟨i, hi, rfl, FileTree.find_of_write hwrite⟩)
    · exact .inr (.inr ⟨_, rfl, fun i => (i.fault_ne_file cause).symm⟩)

/-- A manifest is stored only where its writing is not interrupted. -/
theorem interruption_eq_none (hstored : storeManifest t m p interruption = (.ok (), later)) :
    interruption = none := by
  rcases storeManifest_cases hstored with ⟨hnone, -⟩ | ⟨i, -, hfault, -⟩ | ⟨fault, hfault, -⟩
  · exact hnone
  · cases hfault
  · cases hfault

theorem find_stored (hstored : storeManifest t m p = (.ok (), later)) :
    ∃ place, later.find p = .ok (place, .file m.bytes) := by
  rcases storeManifest_cases hstored with ⟨-, -, hfind⟩ | ⟨i, hi, -⟩ | ⟨fault, hfault, -⟩
  · exact hfind
  · cases hi
  · cases hfault

/-- Where the writing was interrupted, the path leads to what the file took of the manifest. -/
theorem find_interrupted {i : Interruption}
    (hstored : storeManifest t m p (some i) = (.error i.fault, later)) :
    ∃ place, later.find p = .ok (place, .file (m.bytes.take i.length)) := by
  rcases storeManifest_cases hstored with ⟨hnone, -⟩ | ⟨i', hi, -, hfind⟩ | ⟨fault, hfault, hne⟩
  · cases hnone
  · cases hi
    exact hfind
  · exact absurd (Except.error.inj hfault).symm (hne i)

end Manifests

/-! ## Outputs that are stored again -/

section Again

variable {t later written : FileTree} {p : Path}

/-- Nothing is to be made above a path. -/
def ParentReady (t : FileTree) (p : Path) : Prop :=
  ∀ above ∈ p.parent?, above.isEmpty ∨ t.hasEntry above ∨ FileTree.ancestors above = []

theorem ParentReady.keeps (h : ParentReady t p) (hkeeps : Keeps t later) :
    ParentReady later p := by
  intro above habove
  rcases h above habove with hempty | hentry | hnone
  · exact .inl hempty
  · exact .inr (.inl (hasEntry_persists hkeeps hentry))
  · exact .inr (.inr hnone)

theorem ParentReady.makeParent_eq (h : ParentReady t p) : makeParent t p = (.ok (), t) := by
  unfold makeParent
  split
  · rfl
  · next above habove =>
    split
    · rfl
    · next hmissing =>
      rw [not_or] at hmissing
      have hnone := ((h above habove).resolve_left hmissing.1).resolve_left hmissing.2
      simp [FileTree.makeDirectories, hnone, FileTree.makeFirst]

theorem parentReady_of_makeParent {ready : FileTree}
    (hmade : makeParent t p = (.ok (), ready)) : ParentReady ready p := by
  intro above habove
  have habove : p.parent? = some above := habove
  unfold makeParent at hmade
  rw [habove] at hmade
  dsimp only at hmade
  split at hmade
  · next hready =>
    cases hmade
    exact hready.imp_right .inl
  · split at hmade
    · next made hdirectories =>
      cases hmade
      rw [FileTree.makeDirectories] at hdirectories
      rcases FileTree.ancestors_eq above with hnone | ⟨more, hmore⟩
      · exact .inr (.inr hnone)
      · rw [hmore] at hdirectories
        have hmade := FileTree.isDirectory_of_makeFirst hdirectories
        exact .inr (.inl (FileTree.hasEntry_of_isDirectory hmade))
    · cases hmade

/-- A file is where a path leads, and nothing is to be made above it. -/
structure Settled (t : FileTree) (p : Path) : Prop where
  file : ∃ place content, t.goal .creating p = .ok (.existing place (.file content))
  parent : ParentReady t p

theorem Settled.keeps (h : Settled t p) (hkeeps : Keeps t later) : Settled later p := by
  obtain ⟨place, content, hgoal⟩ := h.file
  have hpersists := goal_persists hkeeps (.refl .creating) p
  rw [hgoal] at hpersists
  obtain ⟨content', -, hgoal'⟩ := hpersists
  exact ⟨⟨place, content', hgoal'⟩, h.parent.keeps hkeeps⟩

theorem Settled.pathFault?_eq_none (h : Settled t p) : pathFault? t p = none := by
  obtain ⟨place, content, hgoal⟩ := h.file
  have hpersists := goal_persists (.refl t) .found p
  rw [hgoal] at hpersists
  obtain ⟨content', -, hgoal'⟩ := hpersists
  have hfile : t.isDirectory p = false := by
    rw [FileTree.isDirectory, FileTree.find_eq_ok_iff.mpr hgoal']
  simp [pathFault?, FileTree.isEmpty_of_goal hgoal, hfile]

theorem Settled.atPath_eq (h : Settled t p)
    (save : FileTree → Except OutputFault Unit × FileTree) : atPath t p save = save t := by
  rw [atPath, h.pathFault?_eq_none, h.parent.makeParent_eq]

theorem Settled.write (h : Settled t p) (content : List UInt8) :
    ∃ written, t.write p content = .ok written := by
  obtain ⟨place, content', hgoal⟩ := h.file
  exact ⟨t.set place (.file content), by rw [FileTree.write, hgoal]⟩

theorem settled_of_write {content : List UInt8} (hwrite : t.write p content = .ok written)
    (hparent : ParentReady t p) : Settled written p := by
  have hparent := hparent.keeps (FileTree.write_saves hwrite).keeps
  obtain ⟨place, htarget, rfl⟩ := FileTree.write_ok hwrite
  exact ⟨⟨place, content, FileTree.goal_written (.refl .creating) htarget content⟩, hparent⟩

theorem settled_of_atPath {save : FileTree → Except OutputFault Unit × FileTree}
    (hsave : ∀ ready, save ready = (.ok (), later) →
      ∃ content, ready.write p content = .ok later)
    (hstored : atPath t p save = (.ok (), later)) : Settled later p := by
  unfold atPath at hstored
  split at hstored
  · cases hstored
  · split at hstored
    · cases hstored
    · next ready hmade =>
      obtain ⟨content, hwrite⟩ := hsave ready hstored
      exact settled_of_write hwrite (parentReady_of_makeParent hmade)

theorem settled_of_storeImage {c : Chart} (hstored : storeImage t c p = (.ok (), later)) :
    Settled later p := by
  refine settled_of_atPath (fun ready hsaved => ?_) hstored
  rcases saveImage_cases hsaved with ⟨format, image, -, -, -, hwrite⟩ | ⟨format, hfault, -⟩ |
    ⟨fault, hfault, -⟩
  · exact ⟨image, hwrite⟩
  · cases hfault
  · cases hfault

theorem settled_of_storeManifest {m : Manifest}
    (hstored : storeManifest t m p = (.ok (), later)) : Settled later p := by
  refine settled_of_atPath (fun ready hsaved => ?_) hstored
  rcases saveManifest_cases hsaved with ⟨-, -, hwrite⟩ | ⟨i, hsome, -⟩ | ⟨cause, hfault, -⟩
  · exact ⟨m.bytes, hwrite⟩
  · cases hsome
  · cases hfault

/-- Where a file is already, an image of allowed size in a format that is written is stored. -/
theorem Settled.storeImage (h : Settled t p) {c : Chart} (hsize : c.settings.sizeFits)
    {format : ImageFormat} {image : List UInt8} (hformat : ImageFormat.ofPath? p = some format)
    (hbytes : Image.bytes? ⟨format, c.settings.width, c.settings.height⟩ = some image) :
    ∃ drawn, storeImage t c p = (.ok (), drawn) := by
  obtain ⟨drawn, hwrite⟩ := h.write image
  refine ⟨drawn, ?_⟩
  rw [Output.storeImage, h.atPath_eq, saveImage]
  simp [hsize, hformat, hbytes, saveFile, hwrite]

theorem Settled.storeManifest (h : Settled t p) (m : Manifest) :
    ∃ stored, storeManifest t m p = (.ok (), stored) := by
  obtain ⟨stored, hwrite⟩ := h.write m.bytes
  refine ⟨stored, ?_⟩
  rw [Output.storeManifest, h.atPath_eq, saveManifest, saveFile, hwrite]

end Again

end Output

end RewardPlot
