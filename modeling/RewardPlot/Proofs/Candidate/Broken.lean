import RewardPlot.Proofs.Candidate.Listing
import RewardPlot.Proofs.FileTree.Without
/-!
# Broken links in a scanned directory

A link that leads nowhere is listed as no file if its target is missing.  One whose target cannot
be looked up for another reason, such as a file on the way or a circle of links, ends the scan.
-/

namespace RewardPlot

namespace Candidate

/-- The entry of a name ends a scan: its path is at fault, and not for want of an entry. -/
def Bars (t : FileTree) (directory : Path) (name : Name) (cause : FileFault) : Prop :=
  t.find (directory.join name) = .error cause ∧ cause ≠ .notFound

variable {t : FileTree} {directory : Path} {place : Location} {name : Name} {cause : FileFault}

theorem describe_of_notFound (hfind : t.find (directory.join name) = .error .notFound) :
    describe t directory name = .ok (ofEntry directory name .directory) := by
  rw [describe, hfind]
  rfl

theorem describe_of_bars (hbars : Bars t directory name cause) :
    describe t directory name = .error (.unreachable (directory.join name) cause) := by
  rw [describe, hbars.1]
  cases cause with
  | notFound => exact absurd rfl hbars.2
  | _ => rfl

/-- An entry is described if it is not at fault. -/
theorem exists_describe_iff :
    (∃ c, describe t directory name = .ok c) ↔ ∀ cause, ¬Bars t directory name cause := by
  constructor
  · rintro ⟨c, hdescribe⟩ cause hbars
    rw [describe_of_bars hbars] at hdescribe
    cases hdescribe
  · intro hclear
    cases hfind : t.find (directory.join name) with
    | ok found => exact ⟨_, describe_of_find hfind⟩
    | error cause =>
        by_cases hcause : cause = .notFound
        · subst hcause
          exact ⟨_, describe_of_notFound hfind⟩
        · exact absurd ⟨hfind, hcause⟩ (hclear cause)

theorem describe_eq_error_iff {fault : ScanFault} :
    describe t directory name = .error fault ↔
      ∃ cause, Bars t directory name cause ∧
        fault = .unreachable (directory.join name) cause := by
  constructor
  · intro hdescribe
    have hbars : ¬∀ cause, ¬Bars t directory name cause := by
      intro hclear
      obtain ⟨c, hc⟩ := exists_describe_iff.mpr hclear
      rw [hc] at hdescribe
      cases hdescribe
    push Not at hbars
    obtain ⟨cause, hbars⟩ := hbars
    rw [describe_of_bars hbars] at hdescribe
    cases hdescribe
    exact ⟨cause, hbars, rfl⟩
  · rintro ⟨cause, hbars, rfl⟩
    exact describe_of_bars hbars

/-- A path that is at fault in itself bars its entry. -/
theorem bars_of_pathFault? (hname : name ≠ [])
    (hfault : FileTree.pathFault? .finding (directory.join name) = some cause) :
    ∃ cause, Bars t directory name cause := by
  by_contra hclear
  push Not at hclear
  obtain ⟨c, hdescribe⟩ := exists_describe_iff.mpr hclear
  rw [pathFault?_of_describe hdescribe hname] at hfault
  cases hfault

/-! ## Scans -/

theorem inDirectory_of_find (hfind : t.find directory = .ok (place, .directory)) :
    inDirectory t directory = (t.names place).mapM (describe t directory) := by
  rw [inDirectory, hfind]

/-- A scan fails at the first entry that bars it. -/
theorem inDirectory_eq_error_iff (hfind : t.find directory = .ok (place, .directory))
    {fault : ScanFault} :
    inDirectory t directory = .error fault ↔
      ∃ front name back cause, t.names place = front ++ name :: back ∧
        (∀ other ∈ front, ∀ cause, ¬Bars t directory other cause) ∧
        Bars t directory name cause ∧ fault = .unreachable (directory.join name) cause := by
  rw [inDirectory_of_find hfind, mapM_eq_error_iff]
  simp only [exists_describe_iff, describe_eq_error_iff]
  constructor
  · rintro ⟨front, name, back, hnames, hfront, cause, hbars, rfl⟩
    exact ⟨front, name, back, cause, hnames, hfront, hbars, rfl⟩
  · rintro ⟨front, name, back, cause, hnames, hfront, hbars, rfl⟩
    exact ⟨front, name, back, hnames, hfront, cause, hbars, rfl⟩

theorem exists_fault_of_bars (hfind : t.find directory = .ok (place, .directory))
    (hname : name ∈ t.names place) (hbars : Bars t directory name cause) :
    ∃ fault, inDirectory t directory = .error fault := by
  cases hfiles : inDirectory t directory with
  | error fault => exact ⟨fault, rfl⟩
  | ok files =>
      rw [inDirectory_of_find hfind] at hfiles
      obtain ⟨c, -, hdescribe⟩ := exists_of_forall₂ (forall₂_of_mapM hfiles) hname
      exact absurd hbars (exists_describe_iff.mp ⟨c, hdescribe⟩ cause)

theorem describe_without (hnowhere : t.LeadsNowhere place [name]) {other : Name} {c : Candidate}
    (hdescribe : describe t directory other = .ok c) :
    describe (t.without (place ++ [name])) directory other = .ok c := by
  have hfind : (t.without (place ++ [name])).find (directory.join other) =
      t.find (directory.join other) := by
    rcases FileTree.find_without hnowhere (directory.join other) with
      hsame | ⟨⟨cause, hlost⟩, hgone⟩
    · exact hsame
    · have hcause : cause = .notFound := by
        by_contra hcause
        exact exists_describe_iff.mp ⟨c, hdescribe⟩ cause ⟨hlost, hcause⟩
      rw [hgone, hlost, hcause]
  rw [← hdescribe, describe, describe, hfind]

/-- The other entries are listed as if an entry that leads nowhere were not there. -/
theorem inDirectory_without (hfind : t.find directory = .ok (place, .directory))
    (hnowhere : t.LeadsNowhere place [name]) {files : List Candidate}
    (hfiles : inDirectory t directory = .ok files) :
    inDirectory (t.without (place ++ [name])) directory =
      .ok (files.filter (·.path ≠ directory.join name)) := by
  have hfind' : (t.without (place ++ [name])).find directory = .ok (place, .directory) := by
    rcases FileTree.find_without hnowhere directory with hsame | ⟨⟨cause, hlost⟩, -⟩
    · exact hsame.trans hfind
    · rw [hfind] at hlost
      cases hlost
  rw [inDirectory_of_find hfind] at hfiles
  rw [inDirectory_of_find hfind', FileTree.names_without]
  apply mapM_of_forall₂
  apply (List.rel_filter ?_ (forall₂_of_mapM hfiles)).imp
  · exact fun _ _ => describe_without hnowhere
  · intro other c hdescribe
    have hpath : c.path = directory.join other := (describe_ok hdescribe).1
    have hsame : c.path = directory.join name ↔ other = name :=
      hpath ▸ ⟨Path.join_inj, congrArg _⟩
    simp [hsame]

/-! ## Entries that lead nowhere -/

theorem find_of_missing (hnamed : t.WellNamed) (hfind : t.find directory = .ok (place, .directory))
    (hname : name.Proper) (hfault : FileTree.pathFault? .finding (directory.join name) = none)
    (hastray : t.LeadsAstray place [name] .notFound) :
    t.find (directory.join name) = .error .notFound ∨ Bars t directory name .tooManyLinks ∨
      Bars t directory name .nameTooLong := by
  obtain ⟨left, hleft⟩ := FileTree.find_join_lookUp hfind hname hfault
  rw [Bars, Bars, hleft]
  rcases hastray.lookUp hnamed left with hlost | hmany | ⟨-, hlong⟩
  · exact .inl hlost
  · exact .inr (.inl ⟨hmany, by decide⟩)
  · exact .inr (.inr ⟨hlong, by decide⟩)

theorem bars_of_blocked (hnamed : t.WellNamed) (hfind : t.find directory = .ok (place, .directory))
    (hname : name.Proper) (hfault : FileTree.pathFault? .finding (directory.join name) = none)
    (hastray : t.LeadsAstray place [name] .notDirectory) :
    Bars t directory name .notDirectory ∨ Bars t directory name .tooManyLinks := by
  obtain ⟨left, hleft⟩ := FileTree.find_join_lookUp hfind hname hfault
  rw [Bars, Bars, hleft]
  rcases hastray.lookUp hnamed left with hlost | hmany | ⟨hcause, -⟩
  · exact .inl ⟨hlost, by decide⟩
  · exact .inr ⟨hmany, by decide⟩
  · cases hcause

theorem bars_of_circles (hfind : t.find directory = .ok (place, .directory)) (hname : name.Proper)
    (hfault : FileTree.pathFault? .finding (directory.join name) = none)
    (hcircles : t.LeadsInCircles place [name]) : Bars t directory name .tooManyLinks := by
  obtain ⟨left, hleft⟩ := FileTree.find_join_lookUp hfind hname hfault
  exact ⟨hleft.trans (hcircles left), by decide⟩

/-- An entry bars the scan if a file or a circle of links keeps its name from leading anywhere. -/
theorem exists_bars (hnamed : t.WellNamed) (hfind : t.find directory = .ok (place, .directory))
    (hname : name.Proper)
    (hkind : t.LeadsAstray place [name] .notDirectory ∨ t.LeadsInCircles place [name]) :
    ∃ cause, Bars t directory name cause := by
  cases hfault : FileTree.pathFault? .finding (directory.join name) with
  | some cause => exact bars_of_pathFault? hname.ne_nil hfault
  | none =>
      rcases hkind with hastray | hcircles
      · rcases bars_of_blocked hnamed hfind hname hfault hastray with hbars | hbars
        · exact ⟨_, hbars⟩
        · exact ⟨_, hbars⟩
      · exact ⟨_, bars_of_circles hfind hname hfault hcircles⟩

theorem noFile_of_describe (hfind : t.find directory = .ok (place, .directory))
    (hname : name.Proper) (hnowhere : t.LeadsNowhere place [name]) {c : Candidate}
    (hdescribe : describe t directory name = .ok c) :
    c.path = directory.join name ∧ c.isFile = false ∧ c.isTrace = false := by
  have hdescribes := describes_of_describe hfind hname hdescribe
  have hno : c.isFile = false := by
    rw [← Bool.not_eq_true, hdescribes.isFile]
    rintro ⟨goal, content, hleads⟩
    exact hnowhere goal _ hleads
  refine ⟨hdescribes.path, hno, ?_⟩
  rw [isTrace, hno]
  rfl

/-- What becomes of the entry of a name that leads nowhere. -/
structure BrokenEntry (t : FileTree) (directory : Path) (place : Location) (name : Name) :
    Prop where
  kinds : t.LeadsAstray place [name] .notFound ∨ t.LeadsAstray place [name] .notDirectory ∨
    t.LeadsInCircles place [name]
  missing : FileTree.pathFault? .finding (directory.join name) = none →
    t.LeadsAstray place [name] .notFound → t.find (directory.join name) = .error .notFound ∨
      Bars t directory name .tooManyLinks ∨ Bars t directory name .nameTooLong
  blocked : FileTree.pathFault? .finding (directory.join name) = none →
    t.LeadsAstray place [name] .notDirectory →
      Bars t directory name .notDirectory ∨ Bars t directory name .tooManyLinks
  circles : FileTree.pathFault? .finding (directory.join name) = none →
    t.LeadsInCircles place [name] → Bars t directory name .tooManyLinks
  /-- Only an entry whose name leads to a missing one does not end the scan. -/
  fatal : t.LeadsAstray place [name] .notDirectory ∨ t.LeadsInCircles place [name] →
    ∃ fault, inDirectory t directory = .error fault
  listed : ∀ files, inDirectory t directory = .ok files →
    ∃ c ∈ files, c.path = directory.join name ∧ c.isFile = false ∧ c.isTrace = false
  /-- The other entries are listed as if this one were not there. -/
  others : ∀ files, inDirectory t directory = .ok files →
    inDirectory (t.without (place ++ [name])) directory =
      .ok (files.filter (·.path ≠ directory.join name))

theorem brokenEntry (hnamed : t.WellNamed) (hfind : t.find directory = .ok (place, .directory))
    (hname : name ∈ t.names place) (hnowhere : t.LeadsNowhere place [name]) :
    BrokenEntry t directory place name := by
  have hproper : name.Proper := hnamed.names hname
  refine ⟨?_, find_of_missing hnamed hfind hproper, bars_of_blocked hnamed hfind hproper,
    bars_of_circles hfind hproper, ?_, ?_, fun _ => inDirectory_without hfind hnowhere⟩
  · rcases (FileTree.leadsNowhere_iff hnamed).mp hnowhere with ⟨cause, hastray⟩ | hcircles
    · rcases hastray.cause_eq with rfl | rfl
      · exact .inl hastray
      · exact .inr (.inl hastray)
    · exact .inr (.inr hcircles)
  · intro hkind
    obtain ⟨cause, hbars⟩ := exists_bars hnamed hfind hproper hkind
    exact exists_fault_of_bars hfind hname hbars
  · intro files hfiles
    rw [inDirectory_of_find hfind] at hfiles
    obtain ⟨c, hc, hdescribe⟩ := exists_of_forall₂ (forall₂_of_mapM hfiles) hname
    exact ⟨c, hc, noFile_of_describe hfind hproper hnowhere hdescribe⟩

/-- A scan fails just where an entry bars it, at the first one.  An entry that leads nowhere bars
it unless its name leads to a missing one within the limits of a walk; then it is listed as no
file, and the others are listed as if it were not there. -/
theorem inDirectory_links (hnamed : t.WellNamed)
    (hfind : t.find directory = .ok (place, .directory)) :
    (∀ fault, inDirectory t directory = .error fault ↔
      ∃ front name back cause, t.names place = front ++ name :: back ∧
        (∀ other ∈ front, ∀ cause, ¬Bars t directory other cause) ∧
        Bars t directory name cause ∧ fault = .unreachable (directory.join name) cause) ∧
    ∀ name ∈ t.names place, t.LeadsNowhere place [name] →
      BrokenEntry t directory place name :=
  ⟨fun _ => inDirectory_eq_error_iff hfind, fun _ => brokenEntry hnamed hfind⟩

/-- A directory with a trace and a link to nothing. -/
def danglingTree : FileTree where
  here := []
  entries :=
    [([Utf8.ofString "d"], .directory),
      ([Utf8.ofString "d", Utf8.ofString "t.log"], .file (Utf8.ofString "1,2")),
      ([Utf8.ofString "d", Utf8.ofString "n.log"], .link (.ofString "nowhere"))]

theorem danglingTree_leadsNowhere :
    danglingTree.LeadsNowhere [Utf8.ofString "d"] [Utf8.ofString "n.log"] := by
  intro goal entry hleads
  have hlink : danglingTree.entryAt [Utf8.ofString "d", Utf8.ofString "n.log"] =
      some (.link (.ofString "nowhere")) := rfl
  have hnone : danglingTree.LeadsAstray [Utf8.ofString "d"] [Utf8.ofString "nowhere"] .notFound :=
    .missing ⟨by decide, by decide⟩ rfl
  exact hleads.not_astray (.link ⟨by decide, by decide⟩ hlink hnone)

theorem inDirectory_danglingTree :
    danglingTree.WellNamed ∧
      danglingTree.find (.ofString "d") = .ok ([Utf8.ofString "d"], .directory) ∧
      (∃ files, inDirectory danglingTree (.ofString "d") = .ok files) ∧
      (∀ fault, inDirectory danglingTree (.ofString "d") = .error fault ↔
        ∃ front name back cause,
          danglingTree.names [Utf8.ofString "d"] = front ++ name :: back ∧
          (∀ other ∈ front, ∀ cause, ¬Bars danglingTree (.ofString "d") other cause) ∧
          Bars danglingTree (.ofString "d") name cause ∧
          fault = .unreachable ((Path.ofString "d").join name) cause) ∧
      BrokenEntry danglingTree (.ofString "d") [Utf8.ofString "d"] (Utf8.ofString "n.log") := by
  have hnamed : danglingTree.WellNamed := ⟨by decide, by decide⟩
  have hfind : danglingTree.find (.ofString "d") = .ok ([Utf8.ofString "d"], .directory) := rfl
  have hlinks := inDirectory_links hnamed hfind
  exact ⟨hnamed, hfind, ⟨_, rfl⟩, hlinks.1, hlinks.2 _ (by decide) danglingTree_leadsNowhere⟩

/-- A directory with a trace and a link to itself. -/
def loopTree : FileTree where
  here := []
  entries :=
    [([Utf8.ofString "d"], .directory),
      ([Utf8.ofString "d", Utf8.ofString "t.log"], .file (Utf8.ofString "1,2")),
      ([Utf8.ofString "d", Utf8.ofString "l"], .link (.ofString "l"))]

/-- A link to itself ends the scan of its directory, whatever else is there. -/
theorem not_all_links_listed :
    ¬∀ (t : FileTree) (directory : Path) (place : Location), t.WellNamed →
      t.find directory = .ok (place, .directory) →
      ∃ files, inDirectory t directory = .ok files := by
  intro hall
  have hnamed : loopTree.WellNamed := ⟨by decide, by decide⟩
  have hfault : inDirectory loopTree (.ofString "d") =
      .error (.unreachable (.ofString "d/l") .tooManyLinks) := rfl
  obtain ⟨files, hfiles⟩ := hall loopTree (.ofString "d") [Utf8.ofString "d"] hnamed rfl
  rw [hfault] at hfiles
  cases hfiles

end Candidate

end RewardPlot
