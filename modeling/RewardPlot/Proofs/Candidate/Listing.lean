import RewardPlot.Proofs.Candidate
import RewardPlot.Proofs.FileTree.Join
import RewardPlot.Proofs.FileTree.Leads
import RewardPlot.Proofs.Text.Malformed
/-!
# The listing of a directory

The candidates in a directory are its entries, each once.  What is said about a candidate is what
its name leads to; and it is a trace just where the name leads to a file that is not empty and
ends as the name of a trace does.
-/

namespace RewardPlot

theorem Utf8.toStringLossy_ofString (s : String) : toStringLossy (ofString s) = s := by
  rw [toStringLossy, ofString, decodeLossy_encode, String.ofList_toList]

/-! ## Endings of names -/

namespace Name

variable {name stem e : Name}

theorem extension?_stem (hstem : stem ≠ []) (hdot : dot ∉ e) (habove : stem ++ dot :: e ≠ above) :
    extension? (stem ++ dot :: e) = some e := by
  have hreverse : (stem ++ dot :: e).reverse = e.reverse ++ dot :: stem.reverse := by simp
  have hback : ∀ b ∈ e.reverse, (b != dot) = true := by
    intro b hb
    rw [bne_iff_ne]
    rintro rfl
    exact hdot (List.mem_reverse.mp hb)
  have htake : (e.reverse ++ dot :: stem.reverse).takeWhile (· != dot) = e.reverse := by
    rw [List.takeWhile_append_of_pos hback, List.takeWhile_cons_of_neg (by decide), List.append_nil]
  have hdrop : (e.reverse ++ dot :: stem.reverse).dropWhile (· != dot) = dot :: stem.reverse := by
    rw [List.dropWhile_append_of_pos hback, List.dropWhile_cons_of_neg (by decide)]
  obtain ⟨last, front, hfront⟩ := List.exists_cons_of_ne_nil (mt List.reverse_eq_nil_iff.mp hstem)
  rw [extension?, hreverse, hdrop, hfront]
  dsimp only
  rw [if_neg habove, ← hfront, htake, List.reverse_reverse]

/-- The extension is what follows the last dot, unless nothing stands before that dot. -/
theorem extension?_eq_some_iff :
    extension? name = some e ↔
      ∃ stem, stem ≠ [] ∧ name = stem ++ dot :: e ∧ dot ∉ e ∧ name ≠ above := by
  constructor
  · intro he
    unfold extension? at he
    dsimp only at he
    split at he
    · next mark last front hdrop =>
      split at he
      · cases he
      · next habove =>
        have hsplit := List.takeWhile_append_dropWhile (p := (· != dot)) (l := name.reverse)
        have hmark := List.head?_dropWhile_not (· != dot) name.reverse
        have hkept : ∀ b ∈ name.reverse.takeWhile (· != dot), (b != dot) = true :=
          fun _ => List.mem_takeWhile_imp
        rw [hdrop] at hsplit hmark
        generalize name.reverse.takeWhile (· != dot) = back at he hsplit hkept
        cases he
        obtain rfl : mark = dot := by simpa using hmark
        refine ⟨(last :: front).reverse, by simp, ?_, ?_, habove⟩
        · rw [← List.reverse_inj, ← hsplit]
          simp
        · intro hdot
          have hbyte := hkept dot (List.mem_reverse.mp hdot)
          simp at hbyte
    · cases he
  · rintro ⟨stem, hstem, rfl, hdot, habove⟩
    exact extension?_stem hstem hdot habove

end Name

namespace Candidate

/-- Bytes that are no text are not read as the ending of traces. -/
theorem eq_of_toStringLossy_eq_log {e : Name} (he : "." ++ Utf8.toStringLossy e = traceEnding) :
    e = Utf8.ofString "log" := by
  have htext : Utf8.toStringLossy e = "log" := by
    rw [← String.toList_inj] at he ⊢
    rw [String.toList_append] at he
    exact List.append_cancel_left he
  have hwell : Utf8.WellFormed e := by
    by_contra hmalformed
    have hmem := Utf8.replacement_mem_decodeLossy hmalformed
    have hletters : Utf8.decodeLossy e = ['l', 'o', 'g'] := by
      rw [Utf8.toStringLossy, ← String.toList_inj, String.toList_ofList] at htext
      exact htext
    rw [hletters] at hmem
    exact absurd hmem (by decide)
  exact hwell.eq_of_toStringLossy_eq ⟨_, rfl⟩ (htext.trans (Utf8.toStringLossy_ofString "log").symm)

/-- A suffix is compared as text, but only one ending of a name gives that text. -/
theorem suffixOf_eq_traceEnding_iff {name : Name} :
    suffixOf name = some traceEnding ↔ ∃ stem, stem ≠ [] ∧ name = stem ++ Utf8.ofString ".log" := by
  have hending : Utf8.ofString ".log" = Name.dot :: Utf8.ofString "log" := rfl
  rw [suffixOf, Option.map_eq_some_iff, hending]
  constructor
  · rintro ⟨e, he, hsuffix⟩
    obtain ⟨stem, hstem, hname, -⟩ := Name.extension?_eq_some_iff.mp he
    exact ⟨stem, hstem, eq_of_toStringLossy_eq_log hsuffix ▸ hname⟩
  · rintro ⟨stem, hstem, rfl⟩
    have habove : stem ++ Name.dot :: Utf8.ofString "log" ≠ Name.above := by
      intro hsame
      have hlength := congrArg List.length hsame
      rw [List.length_append] at hlength
      have hfour : (Name.dot :: Utf8.ofString "log").length = 4 := rfl
      have htwo : Name.above.length = 2 := rfl
      omega
    refine ⟨Utf8.ofString "log", Name.extension?_stem hstem (by decide) habove, ?_⟩
    rw [Utf8.toStringLossy_ofString]
    rfl

end Candidate

/-! ## Paths of entries -/

theorem Path.join_inj {p : Path} {name name' : Name} (hsame : p.join name = p.join name') :
    name = name' := by
  unfold join at hsame
  split at hsame
  · exact List.append_cancel_left (Path.mk.inj hsame)
  · exact List.tail_eq_of_cons_eq (List.append_cancel_left (Path.mk.inj hsame))

namespace FileTree

variable {t : FileTree} {p : Path} {place : Location} {name : Name}

/-- The path of a directory with a name behind it leads to where the name leads from there. -/
theorem find_join_leads (hfind : t.find p = .ok (place, .directory)) (hname : name.Proper)
    (hfault : pathFault? .finding (p.join name) = none) :
    (∀ goal entry, t.find (p.join name) = .ok (goal, entry) →
      ∀ goal' entry', t.LeadsTo place [name] goal' entry' ↔ goal' = goal ∧ entry' = entry) ∧
    (t.find (p.join name) = .error .notFound →
      ∀ goal entry, ¬t.LeadsTo place [name] goal entry) := by
  obtain ⟨left, hgoal⟩ := goal_join hfind hname hfault
  have hlimits : ∀ {goal entry}, t.LeadsTo place [name] goal entry →
      t.find (p.join name) = .ok (goal, entry) ∨ t.find (p.join name) = .error .tooManyLinks ∨
        t.find (p.join name) = .error .nameTooLong := by
    intro goal entry hleads
    rw [find, reach, hgoal]
    rcases hleads.followLinks left with hlinks | hlinks | hlinks <;> rw [hlinks] <;> simp
  constructor
  · intro goal entry hfound goal' entry'
    constructor
    · intro hleads
      have hsame := hlimits hleads
      rw [hfound] at hsame
      simpa [eq_comm] using hsame
    · rintro ⟨rfl, rfl⟩
      rw [find_eq_ok_iff, hgoal] at hfound
      exact leadsTo_of_followLinks hfound
  · intro hnone goal entry hleads
    have hsame := hlimits hleads
    rw [hnone] at hsame
    simp at hsame

end FileTree

/-! ## Candidates -/

namespace Candidate

/-- What is said about the entry of a name. -/
structure Describes (c : Candidate) (t : FileTree) (directory : Path) (place : Location)
    (name : Name) : Prop where
  path : c.path = directory.join name
  label : c.label = Utf8.toStringLossy name
  suffix : c.suffix = suffixOf name
  isFile : c.isFile ↔ ∃ goal content, t.LeadsTo place [name] goal (.file content)
  size : ∀ goal content, t.LeadsTo place [name] goal (.file content) → c.size = content.length
  noSize : c.isFile = false → c.size = 0

/-- The entry of a name is a trace: the name is a stem with the ending of traces, and it leads to
a file that is not empty. -/
def IsTraceAt (t : FileTree) (place : Location) (name : Name) : Prop :=
  (∃ stem, stem ≠ [] ∧ name = stem ++ Utf8.ofString ".log") ∧
    ∃ goal content, t.LeadsTo place [name] goal (.file content) ∧ content ≠ []

variable {t : FileTree} {directory : Path} {place : Location} {name : Name} {c : Candidate}

theorem describes_of_noFile
    (hno : ∀ goal content, ¬t.LeadsTo place [name] goal (.file content)) :
    (ofEntry directory name .directory).Describes t directory place name := by
  refine ⟨rfl, rfl, rfl, ⟨nofun, ?_⟩, ?_, fun _ => rfl⟩
  · rintro ⟨goal, content, hleads⟩
    exact absurd hleads (hno goal content)
  · intro goal content hleads
    exact absurd hleads (hno goal content)

theorem describes_of_describe (hfind : t.find directory = .ok (place, .directory))
    (hname : name.Proper) (hdescribe : describe t directory name = .ok c) :
    c.Describes t directory place name := by
  have hfault := pathFault?_of_describe hdescribe hname.ne_nil
  obtain ⟨hfound, hlost⟩ := FileTree.find_join_leads hfind hname hfault
  rw [describe] at hdescribe
  dsimp only at hdescribe
  split at hdescribe
  · next goal content hgoal =>
    have hleads := hfound _ _ hgoal
    cases hdescribe
    refine ⟨rfl, rfl, rfl, ⟨fun _ => ⟨goal, content, (hleads _ _).mpr ⟨rfl, rfl⟩⟩, fun _ => rfl⟩,
      ?_, ?_⟩
    · intro goal' content' hleads'
      obtain ⟨-, hsame⟩ := (hleads _ _).mp hleads'
      cases hsame
      rfl
    · intro hno
      cases hno
  · next found hentry hgoal =>
    have hleads := hfound _ _ hgoal
    cases hdescribe
    refine describes_of_noFile fun goal content hleads' => ?_
    obtain ⟨rfl, hsame⟩ := (hleads _ _).mp hleads'
    exact hentry _ content (Prod.ext rfl hsame.symm)
  · next hgoal =>
    cases hdescribe
    exact describes_of_noFile fun goal content => hlost hgoal goal (.file content)
  · cases hdescribe

theorem Describes.isTrace_iff (hc : c.Describes t directory place name) :
    c.isTrace ↔ IsTraceAt t place name := by
  rw [isTrace, Bool.and_eq_true, Bool.and_eq_true, decide_eq_true_eq, beq_iff_eq, hc.suffix,
    suffixOf_eq_traceEnding_iff, hc.isFile]
  constructor
  · rintro ⟨⟨⟨goal, content, hleads⟩, hsize⟩, hending⟩
    rw [hc.size goal content hleads, List.length_pos_iff] at hsize
    exact ⟨hending, goal, content, hleads, hsize⟩
  · rintro ⟨hending, goal, content, hleads, hsome⟩
    rw [hc.size goal content hleads, List.length_pos_iff]
    exact ⟨⟨⟨goal, content, hleads⟩, hsome⟩, hending⟩

/-- A directory has one candidate for each of its entries, which tells what the entry leads to.
The traces are those candidates whose entries are traces. -/
theorem inDirectory_listing (hnamed : t.WellNamed) {files : List Candidate}
    (hfiles : inDirectory t directory = .ok files) :
    ∃ place names traces, t.find directory = .ok (place, .directory) ∧ names.Nodup ∧
      (∀ name, name ∈ names ↔ (t.entryAt (place ++ [name])).isSome) ∧
      (files.map Candidate.path).Nodup ∧
      tracesInDirectory t directory = .ok traces ∧ traces.Sublist files ∧
      List.Forall₂ (fun name c => c.Describes t directory place name ∧
        (c ∈ traces ↔ IsTraceAt t place name)) names files := by
  obtain ⟨place, hfind, hdescribed⟩ := inDirectory_ok hfiles
  have hlisting : List.Forall₂ (fun name c => c ∈ files ∧ c.Describes t directory place name)
      (t.names place) files := by
    apply (forall₂_mem hdescribed).imp
    rintro name c ⟨hname, hc, hdescribe⟩
    exact ⟨hc, describes_of_describe hfind (hnamed.names hname) hdescribe⟩
  have hpaths : files.map Candidate.path = (t.names place).map directory.join := by
    rw [← List.forall₂_eq_eq_eq, List.forall₂_map_left_iff, List.forall₂_map_right_iff]
    exact (hlisting.imp fun _ _ h => h.2.path).flip
  refine ⟨place, t.names place, files.filter isTrace, hfind, t.nodup_names place,
    t.mem_names_iff place, ?_, ?_, List.filter_sublist, ?_⟩
  · rw [hpaths]
    exact (t.nodup_names place).map fun _ _ => Path.join_inj
  · rw [tracesInDirectory, hfiles]
    rfl
  · apply hlisting.imp
    rintro name c ⟨hc, hdescribes⟩
    rw [List.mem_filter, ← hdescribes.isTrace_iff]
    exact ⟨hdescribes, and_iff_right hc⟩

/-- A directory with files, links and a directory in it whose names end in various ways. -/
def listedTree : FileTree where
  here := []
  entries :=
    [([Utf8.ofString "d"], .directory),
      ([Utf8.ofString "d", Utf8.ofString "..log"], .file (Utf8.ofString "1")),
      ([Utf8.ofString "d", Utf8.ofString ".log"], .file (Utf8.ofString "1")),
      ([Utf8.ofString "d", Utf8.ofString "e.log"], .file []),
      ([Utf8.ofString "d", Utf8.ofString "s.log"], .directory),
      ([Utf8.ofString "d", 0xFF :: Utf8.ofString ".log"], .link (.ofString "l.log")),
      ([Utf8.ofString "d", Utf8.ofString "l.log"], .link (.ofString "../d/..log")),
      ([Utf8.ofString "d", Utf8.ofString "n.log"], .link (.ofString "nowhere"))]

theorem inDirectory_listedTree :
    listedTree.WellNamed ∧
      ∃ files, inDirectory listedTree (.ofString "d") = .ok files ∧
        ∃ place names traces,
          listedTree.find (.ofString "d") = .ok (place, .directory) ∧ names.Nodup ∧
          (∀ name, name ∈ names ↔ (listedTree.entryAt (place ++ [name])).isSome) ∧
          (files.map Candidate.path).Nodup ∧
          tracesInDirectory listedTree (.ofString "d") = .ok traces ∧ traces.Sublist files ∧
          List.Forall₂ (fun name c => c.Describes listedTree (.ofString "d") place name ∧
            (c ∈ traces ↔ IsTraceAt listedTree place name)) names files := by
  have hnamed : listedTree.WellNamed := ⟨by decide, by decide⟩
  have hok : (inDirectory listedTree (.ofString "d")).toOption.isSome := by decide
  cases hfiles : inDirectory listedTree (.ofString "d") with
  | error fault =>
      rw [hfiles] at hok
      cases hok
  | ok files => exact ⟨hnamed, files, rfl, inDirectory_listing hnamed hfiles⟩

end Candidate

end RewardPlot
