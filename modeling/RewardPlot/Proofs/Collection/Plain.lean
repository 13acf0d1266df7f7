import RewardPlot.Proofs.FileTree.Join
import RewardPlot.Proofs.Run.Course
/-!
# Plain directories

The entries of a plain directory have proper names and are no links, so the path of each of
them leads to it.  What is collected from the directory follows from what it holds.
-/

namespace RewardPlot

open FileTree (pathFault?)

namespace FileTree

/-- A directory whose entries have proper names and are no links. -/
structure Plain (t : FileTree) (place : Location) : Prop where
  proper : ∀ name ∈ t.names place, name.Proper
  noLink : ∀ name target, t.entryAt (place ++ [name]) ≠ some (.link target)

variable {t : FileTree} {directory : Path} {place : Location} {name : Name}

theorem Plain.find_join (hplain : t.Plain place)
    (hfind : t.find directory = .ok (place, .directory)) (hname : name ∈ t.names place)
    (hfault : pathFault? .finding (directory.join name) = none) :
    ∃ entry, t.entryAt (place ++ [name]) = some entry ∧
      t.find (directory.join name) = .ok (place ++ [name], entry) := by
  obtain ⟨entry, hentry⟩ := Option.isSome_iff_exists.mp ((t.mem_names_iff place name).mp hname)
  refine ⟨entry, hentry, FileTree.find_join hfind (hplain.proper name hname) hfault hentry ?_⟩
  rintro target rfl
  exact hplain.noLink name target hentry

end FileTree

/-! ## Traces of a directory -/

/-- The series of an entry, if it is a trace. -/
def Series.ofEntry? (name : Name) : Entry → Option Series
  | .file content =>
    if content ≠ [] ∧ Candidate.suffixOf name = some Candidate.traceEnding then
      some ⟨Utf8.toStringLossy name, .ofBytes content⟩
    else none
  | _ => none

def FileTree.seriesAt? (t : FileTree) (place : Location) (name : Name) : Option Series :=
  (t.entryAt (place ++ [name])).bind (Series.ofEntry? name)

/-- The traces of a directory in the order of its listing. -/
def FileTree.tracesIn (t : FileTree) (place : Location) : List Series :=
  (t.names place).filterMap (t.seriesAt? place)

namespace Collection

variable {t : FileTree} {directory : Path} {place : Location}

theorem traces_cons (content : Candidate → List UInt8) (f : Candidate) (files : List Candidate) :
    traces content (f :: files) = traces content [f] ++ traces content files := by
  unfold traces
  rw [← List.map_append, ← List.filter_append, List.singleton_append]

theorem traces_ofEntry {name : Name} {entry : Entry} {place : Location}
    (hfind : t.find (directory.join name) = .ok (place, entry)) :
    traces (contentIn t) [Candidate.ofEntry directory name entry] =
      (Series.ofEntry? name entry).toList := by
  cases entry with
  | file content =>
      have hread := FileTree.read_of_find hfind
      by_cases htrace : content ≠ [] ∧ Candidate.suffixOf name = some Candidate.traceEnding
      · simp [traces, Candidate.ofEntry, Series.ofEntry?, Candidate.isTrace, contentIn, hread,
          htrace, List.length_pos_iff, Except.toOption]
      · simp [traces, Candidate.ofEntry, Series.ofEntry?, Candidate.isTrace, htrace,
          List.length_pos_iff]
  | directory => simp [traces, Candidate.ofEntry, Series.ofEntry?, Candidate.isTrace]
  | link target => simp [traces, Candidate.ofEntry, Series.ofEntry?, Candidate.isTrace]

theorem read_of_describe {name : Name} {f : Candidate}
    (hdescribe : Candidate.describe t directory name = .ok f) (htrace : f.isTrace) :
    t.read f.path = .ok (contentIn t f) := by
  obtain ⟨-, -, hfile⟩ := Candidate.describe_ok hdescribe
  obtain ⟨place, content, hfind⟩ := hfile (Candidate.isFile_of_isTrace htrace)
  simp [contentIn, FileTree.read_of_find hfind, Except.toOption]

/-- The traces among candidates are those of the entries at their names. -/
theorem traces_eq {names : List Name} {files : List Candidate}
    (hdescribed : List.Forall₂ (fun name f => Candidate.describe t directory name = .ok f)
      names files)
    (hfind : ∀ name ∈ names, ∃ entry, t.entryAt (place ++ [name]) = some entry ∧
      t.find (directory.join name) = .ok (place ++ [name], entry)) :
    traces (contentIn t) files = names.filterMap (t.seriesAt? place) := by
  induction hdescribed with
  | nil => rfl
  | @cons name f names files hf _ ih =>
      obtain ⟨entry, hentry, hjoin⟩ := hfind name List.mem_cons_self
      rw [Candidate.describe_of_find hjoin] at hf
      cases hf
      have hseries : t.seriesAt? place name = Series.ofEntry? name entry := by
        rw [FileTree.seriesAt?, hentry, Option.bind_some]
      rw [traces_cons, traces_ofEntry hjoin, ih fun n hn => hfind n (List.mem_cons_of_mem name hn),
        ← hseries]
      cases hsome : t.seriesAt? place name <;> simp [hsome]

end Collection

section Collected

variable {t : FileTree} {directory : Path} {place : Location} {settings : Chart.Settings}

/-- What is collected from a plain directory: the traces in it, with the placeholders left
out. -/
theorem collectDirectory_plain (hplain : t.Plain place)
    (hfind : t.find directory = .ok (place, .directory)) {c : Collection}
    (hcollect : collectDirectory t directory settings = .ok c) :
    (∀ name ∈ t.names place, pathFault? .finding (directory.join name) = none) ∧
      c.chart.series = (t.tracesIn place).filter (fun s => !s.trace.sum.coincides 0) ∧
      c.tally.eligible = (t.tracesIn place).length ∧
      c.tally.plotted =
        ((t.tracesIn place).filter fun s => !s.trace.sum.coincides 0).length ∧
      c.tally.placeholders =
        ((t.tracesIn place).filter fun s => s.trace.sum.coincides 0).length := by
  obtain ⟨place', files, hfind', hdescribed, -, rfl⟩ := collectDirectory_ok hcollect
  cases hfind.symm.trans hfind'
  have hreach : ∀ name ∈ t.names place, pathFault? .finding (directory.join name) = none := by
    intro name hname
    obtain ⟨f, -, hf⟩ := exists_of_forall₂ hdescribed hname
    exact Candidate.pathFault?_of_describe hf (hplain.proper name hname).ne_nil
  have htraces : Collection.traces (Collection.contentIn t) files = t.tracesIn place :=
    Collection.traces_eq hdescribed fun name hname =>
      hplain.find_join hfind hname (hreach name hname)
  refine ⟨hreach, ?_, ?_, ?_, ?_⟩
  · simp [Collection.after, Collection.plotted, htraces, Chart.empty]
  · simp [Collection.after, ← htraces, Collection.traces, List.countP_eq_length_filter]
  · simp [Collection.after, Collection.plotted, htraces]
  · simp [Collection.after, Collection.placeholders, htraces]

/-- A plain directory is collected when the paths of all its entries can be looked up. -/
theorem collectDirectory_isOk (hplain : t.Plain place)
    (hfind : t.find directory = .ok (place, .directory))
    (hreach : ∀ name ∈ t.names place, pathFault? .finding (directory.join name) = none) :
    ∃ c, collectDirectory t directory settings = .ok c := by
  have hdescribe : ∀ name ∈ t.names place, ∃ f, Candidate.describe t directory name = .ok f := by
    intro name hname
    obtain ⟨entry, -, hjoin⟩ := hplain.find_join hfind hname (hreach name hname)
    exact ⟨_, Candidate.describe_of_find hjoin⟩
  obtain ⟨files, hfiles⟩ := exists_mapM_eq_ok hdescribe
  have hread : ∀ f ∈ files, f.isTrace → t.read f.path = .ok (Collection.contentIn t f) := by
    intro f hf htrace
    obtain ⟨name, -, hf⟩ := exists_of_forall₂ (forall₂_of_mapM hfiles).flip hf
    exact Collection.read_of_describe hf htrace
  unfold collectDirectory Candidate.inDirectory
  simp only [hfind, hfiles, Collection.collect, Collection.takeAll_eq_after hread]
  exact ⟨_, rfl⟩

end Collected

/-! ## After files were saved -/

section Later

variable {t later : FileTree} {place : Location} {saved : List SavedFile} {made : List Path}

/-- An entry of the later tree was there before, or a path to it is known. -/
theorem FileTree.Saves.entry (hsaves : t.Saves later saved made) {place : Location}
    {entry : Entry} (hentry : later.entryAt place = some entry) :
    t.entryAt place = some entry ∨
      (∃ s ∈ saved, later.find s.path = .ok (place, entry) ∧ entry = .file s.content) ∨
      (∃ p, later.find p = .ok (place, entry) ∧ entry = .directory ∧ t.entryAt place = none) := by
  rcases hsaves.entryAt place with hsame | ⟨s, hs, hfind⟩ | ⟨p, -, hmade⟩
  · exact .inl (hsame ▸ hentry)
  · cases hentry.symm.trans (FileTree.entryAt_of_find hfind)
    exact .inr (.inl ⟨s, hs, hfind, rfl⟩)
  · cases hentry.symm.trans hmade.entry
    exact .inr (.inr ⟨p, hmade.find, rfl, hmade.vacant⟩)

theorem FileTree.Plain.saves (hplain : t.Plain place) (hsaves : t.Saves later saved made)
    (hhere : FileTree.ProperPlace t.here) : later.Plain place := by
  have hhere' : FileTree.ProperPlace later.here := hsaves.keeps.here ▸ hhere
  constructor
  · intro name hname
    rw [FileTree.mem_names_iff] at hname
    obtain ⟨entry, hentry⟩ := Option.isSome_iff_exists.mp hname
    rcases hsaves.entry hentry with hsame | ⟨s, -, hfind, -⟩ | ⟨p, hfind, -⟩
    · apply hplain.proper
      rw [FileTree.mem_names_iff, hsame]
      rfl
    · exact FileTree.properPlace_of_find hhere' hfind name (by simp)
    · exact FileTree.properPlace_of_find hhere' hfind name (by simp)
  · intro name target hentry
    rcases hsaves.entry hentry with hsame | ⟨s, -, -, hfile⟩ | ⟨p, -, hdirectory, -⟩
    · exact hplain.noLink name target hsame
    · cases hfile
    · cases hdirectory

/-- Where no saved file has the suffix of a trace, each name has the trace that it had. -/
theorem FileTree.Saves.seriesAt?_eq (hsaves : t.Saves later saved made)
    (hspared : ∀ s ∈ saved, ∀ name entry, later.find s.path = .ok (place ++ [name], entry) →
      Candidate.suffixOf name ≠ some Candidate.traceEnding) (name : Name) :
    later.seriesAt? place name = t.seriesAt? place name := by
  rw [FileTree.seriesAt?, FileTree.seriesAt?]
  rcases hsaves.entryAt (place ++ [name]) with hsame | ⟨s, hs, hfind⟩ | ⟨p, -, hmade⟩
  · rw [hsame]
  · have hsuffix := hspared s hs name _ hfind
    have hnone (e : Option Entry) : e.bind (Series.ofEntry? name) = none := by
      rcases e with - | content | - | target <;> simp [Series.ofEntry?, hsuffix]
    rw [hnone, hnone]
  · rw [hmade.entry, hmade.vacant]
    rfl

theorem filterMap_perm {α β : Type} {g : α → Option β} {xs ys : List α} (hxs : xs.Nodup)
    (hys : ys.Nodup) (hsame : ∀ x, (g x).isSome → (x ∈ xs ↔ x ∈ ys)) :
    (xs.filterMap g).Perm (ys.filterMap g) := by
  have hfilter (zs : List α) : zs.filterMap g = (zs.filter fun x => (g x).isSome).filterMap g := by
    rw [List.filterMap_filter]
    congr 1
    funext x
    cases g x <;> rfl
  rw [hfilter xs, hfilter ys]
  apply List.Perm.filterMap
  apply (List.perm_ext_iff_of_nodup (hxs.filter _) (hys.filter _)).mpr
  intro x
  simp only [List.mem_filter]
  exact and_congr_left (hsame x)

/-- The traces of a directory are the same, though it may list them in another order. -/
theorem FileTree.Saves.tracesIn_perm (hsaves : t.Saves later saved made)
    (hspared : ∀ s ∈ saved, ∀ name entry, later.find s.path = .ok (place ++ [name], entry) →
      Candidate.suffixOf name ≠ some Candidate.traceEnding) :
    (later.tracesIn place).Perm (t.tracesIn place) := by
  have hseries : later.seriesAt? place = t.seriesAt? place :=
    funext (hsaves.seriesAt?_eq hspared)
  rw [FileTree.tracesIn, FileTree.tracesIn, hseries]
  apply filterMap_perm (later.nodup_names place) (t.nodup_names place)
  intro name hsome
  have hname : name ∈ t.names place := by
    rw [FileTree.mem_names_iff, Option.isSome_iff_exists]
    obtain ⟨s, hs⟩ := Option.isSome_iff_exists.mp hsome
    obtain ⟨entry, hentry, -⟩ := Option.bind_eq_some_iff.mp hs
    exact ⟨entry, hentry⟩
  exact ⟨fun _ => hname, hsaves.keeps.mem_names⟩

end Later

end RewardPlot
