import RewardPlot.Proofs.FileTree.Edit
/-!
# What has changed between two trees

Some files are saved and some missing directories are made, and nothing else happens.  The
relation says which paths led to what is new, so that it can be followed through a run.
-/

namespace RewardPlot

structure SavedFile where
  path : Path
  content : List UInt8
deriving DecidableEq

namespace FileTree

/-- A path that led nowhere leads to a directory that was made at this place. -/
structure MadeAt (t later : FileTree) (place : Location) (p : Path) : Prop where
  vacant : t.entryAt place = none
  missing : t.hasEntry p = false
  entry : later.entryAt place = some .directory
  find : later.find p = .ok (place, .directory)

/-- Between two trees some files are saved and some directories are made at paths that led
nowhere.  Nothing else happens: every entry that was there is kept, and the only new ones
are these. -/
structure Saves (t later : FileTree) (saved : List SavedFile) (made : List Path) : Prop where
  keeps : Keeps t later
  entryAt : ∀ place, later.entryAt place = t.entryAt place ∨
    (∃ s ∈ saved, later.find s.path = .ok (place, .file s.content)) ∨
    ∃ p ∈ made, MadeAt t later place p

namespace Saves

variable {t later last : FileTree} {saved saved' : List SavedFile} {made made' : List Path}

theorem refl (t : FileTree) : Saves t t [] [] := ⟨.refl t, fun _ => .inl rfl⟩

theorem mono (h : Saves t later saved made) (hsaved : saved ⊆ saved') (hmade : made ⊆ made') :
    Saves t later saved' made' := by
  refine ⟨h.keeps, fun place => ?_⟩
  rcases h.entryAt place with hsame | ⟨s, hs, hfind⟩ | ⟨p, hp, hmadeAt⟩
  · exact .inl hsame
  · exact .inr (.inl ⟨s, hsaved hs, hfind⟩)
  · exact .inr (.inr ⟨p, hmade hp, hmadeAt⟩)

theorem file (h : Saves t later saved made) (place : Location) (content : List UInt8)
    (hentry : t.entryAt place = some (.file content)) :
    later.entryAt place = some (.file content) ∨
      ∃ s ∈ saved, later.find s.path = .ok (place, .file s.content) := by
  rcases h.entryAt place with hsame | hsaved | ⟨p, -, hmadeAt⟩
  · exact .inl (hsame.trans hentry)
  · exact .inr hsaved
  · cases hentry.symm.trans hmadeAt.vacant

/-- A path leads to the file to which it led.  Its content changes where one was saved. -/
theorem find_file (h : Saves t later saved made) {p : Path} {place : Location}
    {content : List UInt8} (hfind : t.find p = .ok (place, .file content)) :
    later.find p = .ok (place, .file content) ∨
      ∃ s ∈ saved, later.find p = .ok (place, .file s.content) ∧
        later.find s.path = .ok (place, .file s.content) := by
  obtain ⟨content', hentry, hfind'⟩ := find_file_persists h.keeps hfind
  rcases h.file place content (entryAt_of_find hfind) with hsame | ⟨s, hs, hsaved⟩
  · cases hentry.symm.trans hsame
    exact .inl hfind'
  · cases hentry.symm.trans (entryAt_of_find hsaved)
    exact .inr ⟨s, hs, hfind', hsaved⟩

/-- Where one file was saved, another path leads to what it held before or to what was saved,
depending on whether it leads to the same file. -/
theorem find_beside {p q : Path} {place place' : Location} {content kept : List UInt8}
    (h : Saves t later [⟨p, content⟩] made) (hfind : t.find q = .ok (place, .file kept))
    (hsaved : later.find p = .ok (place', .file content)) :
    later.find q = .ok (place, .file (if place = place' then content else kept)) := by
  obtain ⟨content', hentry, hfind'⟩ := find_file_persists h.keeps hfind
  split
  · next hsame =>
    subst hsame
    cases hentry.symm.trans (entryAt_of_find hsaved)
    exact hfind'
  · next hother =>
    rcases h.find_file hfind with hsame | ⟨s, hs, -, hsaved'⟩
    · exact hsame
    · rw [List.mem_singleton.mp hs] at hsaved'
      cases hsaved'.symm.trans hsaved
      exact absurd rfl hother

/-- What the first change saved or made is found where it was, unless the second change saved
something there. -/
theorem trans (h : Saves t later saved made) (h' : Saves later last saved' made') :
    Saves t last (saved ++ saved') (made ++ made') := by
  refine ⟨h.keeps.trans h'.keeps, fun place => ?_⟩
  rcases h'.entryAt place with hsame' | ⟨s, hs, hfind⟩ | ⟨p, hp, hmadeAt⟩
  · rcases h.entryAt place with hsame | ⟨s, hs, hfind⟩ | ⟨p, hp, hmadeAt⟩
    · exact .inl (hsame'.trans hsame)
    · obtain ⟨content', hcontent', hfind'⟩ := find_file_persists h'.keeps hfind
      cases (hsame'.trans (entryAt_of_find hfind)).symm.trans hcontent'
      exact .inr (.inl ⟨s, List.mem_append_left saved' hs, hfind'⟩)
    · refine .inr (.inr ⟨p, List.mem_append_left made' hp, ?_⟩)
      exact ⟨hmadeAt.vacant, hmadeAt.missing, hsame'.trans hmadeAt.entry,
        find_directory_persists h'.keeps hmadeAt.find⟩
  · exact .inr (.inl ⟨s, List.mem_append_right saved hs, hfind⟩)
  · have hvacant : t.entryAt place = none := by
      cases hentry : t.entryAt place with
      | none => rfl
      | some entry =>
          obtain ⟨entry', hentry', -⟩ := h.keeps.entryAt place entry hentry
          cases hentry'.symm.trans hmadeAt.vacant
    have hmissing : t.hasEntry p = false := by
      rw [← Bool.not_eq_true]
      intro hentry
      have hlater := hasEntry_persists h.keeps hentry
      rw [hmadeAt.missing] at hlater
      cases hlater
    exact .inr (.inr ⟨p, List.mem_append_right made hp,
      ⟨hvacant, hmissing, hmadeAt.entry, hmadeAt.find⟩⟩)

end Saves

theorem write_saves {t written : FileTree} {p : Path} {content : List UInt8}
    (hwrite : t.write p content = .ok written) : Saves t written [⟨p, content⟩] [] := by
  obtain ⟨place, htarget, rfl⟩ := write_ok hwrite
  refine ⟨(target?_free htarget).keeps content, fun other => ?_⟩
  by_cases hother : other = place
  · subst hother
    exact .inr (.inl ⟨⟨p, content⟩, List.mem_singleton_self _, find_written htarget content⟩)
  · exact .inl (entryAt_set_of_ne t _ hother)

/-! ## Making directories -/

/-- A directory that is made lies at a new place, and its path leads there. -/
theorem makeDirectory_ok {t made : FileTree} {p : Path} (hmade : t.makeDirectory p = .ok made) :
    ∃ place, made = t.set place .directory ∧ Keeps t made ∧ MadeAt t made place p := by
  rw [makeDirectory, add] at hmade
  split at hmade
  · cases hmade
  · next place hplace =>
    split at hmade
    · cases hmade
    · next hnone =>
      cases hmade
      have hentry := entryAt_set_self t .directory (newPlace_ne_root hplace)
      have hkeeps : Keeps t (t.set place .directory) := by
        refine ⟨rfl, fun other entry hother => ⟨entry, ?_, rfl⟩⟩
        rw [entryAt_set_of_ne t _ (by rintro rfl; cases hnone.symm.trans hother), hother]
      exact ⟨place, rfl, hkeeps,
        ⟨hnone, hasEntry_newPlace hplace hnone, hentry, find_newPlace hkeeps hplace hentry⟩⟩

theorem makeDirectory_saves {t made : FileTree} {p : Path}
    (hmade : t.makeDirectory p = .ok made) : Saves t made [] [p] := by
  obtain ⟨place, rfl, hkeeps, hmadeAt⟩ := makeDirectory_ok hmade
  refine ⟨hkeeps, fun other => ?_⟩
  by_cases hother : other = place
  · subst hother
    exact .inr (.inr ⟨p, List.mem_singleton_self p, hmadeAt⟩)
  · exact .inl (entryAt_set_of_ne t _ hother)

theorem settle_saves (t : FileTree) (p : Path) {made : Except FileFault FileTree}
    (hmade : ∀ later, made = .ok later → Saves t later [] [p]) :
    Saves t (makeFirst.settle t p made).2 [] [p] := by
  cases made with
  | ok later => exact hmade later rfl
  | error cause =>
      have hsame : Saves t t [] [p] := (Saves.refl t).mono (by simp) (by simp)
      rw [makeFirst.settle]
      split <;> exact hsame

/-- However far it comes, only directories at the given paths are made. -/
theorem makeFirst_saves (t : FileTree) (paths : List Path) :
    Saves t (t.makeFirst paths).2 [] paths := by
  induction paths with
  | nil => exact .refl t
  | cons p above ih =>
      have hfirst {later : FileTree} (hlater : Saves t later [] [p]) :
          Saves t later [] (p :: above) := hlater.mono (by simp) (by simp)
      rw [makeFirst]
      split
      · next made hmade => exact hfirst (makeDirectory_saves hmade)
      · split
        · next cause later habove =>
          rw [habove] at ih
          exact ih.mono (by simp) (by simp)
        · next later habove =>
          rw [habove] at ih
          have hboth := ih.trans (settle_saves later p fun _ => makeDirectory_saves)
          exact hboth.mono (by simp) (by simp)
      · exact hfirst (settle_saves t p (by simp))

theorem makeDirectories_saves (t : FileTree) (p : Path) :
    Saves t (t.makeDirectories p).2 [] (ancestors p) :=
  makeFirst_saves t (ancestors p)

theorem isDirectory_iff {t : FileTree} {p : Path} :
    t.isDirectory p ↔ ∃ place, t.find p = .ok (place, .directory) := by
  unfold isDirectory
  rcases t.find p with cause | ⟨place, - | - | -⟩ <;> simp

theorem hasEntry_of_isDirectory {t : FileTree} {p : Path} (hdirectory : t.isDirectory p) :
    t.hasEntry p := by
  obtain ⟨place, hfind⟩ := isDirectory_iff.mp hdirectory
  exact hasEntry_iff.mpr ⟨place, .directory, hfind⟩

theorem ancestors_eq (p : Path) : ancestors p = [] ∨ ∃ above, ancestors p = p :: above := by
  unfold ancestors
  cases p.bytes.length with
  | zero => exact .inl rfl
  | succ fuel =>
      rw [ancestors.go]
      split <;> simp

theorem isDirectory_of_makeDirectory {t made : FileTree} {p : Path}
    (hmade : t.makeDirectory p = .ok made) : made.isDirectory p := by
  obtain ⟨place, -, -, hmadeAt⟩ := makeDirectory_ok hmade
  exact isDirectory_iff.mpr ⟨place, hmadeAt.find⟩

theorem isDirectory_of_settle {t later : FileTree} {p : Path}
    {made : Except FileFault FileTree} (hmade : ∀ tree, made = .ok tree → tree.isDirectory p)
    (hsettle : makeFirst.settle t p made = (.ok (), later)) : later.isDirectory p := by
  unfold makeFirst.settle at hsettle
  split at hsettle
  · cases hsettle
    exact hmade _ rfl
  · split at hsettle
    · next hdirectory =>
      cases hsettle
      exact hdirectory
    · cases hsettle

/-- The first path leads to a directory once it was made. -/
theorem isDirectory_of_makeFirst {t later : FileTree} {p : Path} {above : List Path}
    (hmade : t.makeFirst (p :: above) = (.ok (), later)) : later.isDirectory p := by
  rw [makeFirst] at hmade
  split at hmade
  · next made hdirectory =>
    cases hmade
    exact isDirectory_of_makeDirectory hdirectory
  · split at hmade
    · cases hmade
    · exact isDirectory_of_settle (fun _ => isDirectory_of_makeDirectory) hmade
  · exact isDirectory_of_settle (by simp) hmade

end FileTree

end RewardPlot
