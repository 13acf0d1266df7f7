import RewardPlot.Proofs.Collection
import RewardPlot.Run
/-!
# The first trace that cannot be read

A collection ends at the first trace that cannot be read and names it.  What it holds then is
what the candidates before that trace add, as if there were no others.
-/

namespace RewardPlot.Collection

variable {t t' : FileTree} {content : Candidate → List UInt8} {files before : List Candidate}
  {f : Candidate} {cause : FileFault}

/-- The traces among some candidates can be read, and the trace that follows them cannot. -/
structure FirstUnreadable (t : FileTree) (content : Candidate → List UInt8)
    (before : List Candidate) (f : Candidate) (cause : FileFault) : Prop where
  readable : ∀ g ∈ before, g.isTrace → t.read g.path = .ok (content g)
  trace : f.isTrace
  unreadable : t.read f.path = .error cause

/-! ## One candidate -/

theorem take_of_unreadable (htrace : f.isTrace) (hread : t.read f.path = .error cause)
    (c : Collection) : take t c f = .error ⟨f.path, cause⟩ := by
  rw [take, if_pos htrace, readTrace, hread]
  rfl

theorem take_congr (hread : f.isTrace → t'.read f.path = t.read f.path) (c : Collection) :
    take t' c f = take t c f := by
  by_cases htrace : f.isTrace = true
  · rw [take, take, if_pos htrace, if_pos htrace, readTrace, readTrace, hread htrace]
  · rw [take, take, if_neg htrace, if_neg htrace]

theorem read_eq_contentIn_iff :
    t.read f.path = .ok (contentIn t f) ↔ ∃ content, t.read f.path = .ok content := by
  constructor
  · exact fun hread => ⟨_, hread⟩
  · rintro ⟨content, hread⟩
    rw [contentIn, hread]
    rfl

/-! ## Candidates in turn -/

theorem takeAll_congr (hread : ∀ f ∈ files, f.isTrace → t'.read f.path = t.read f.path)
    (c : Collection) : takeAll t' c files = takeAll t c files := by
  induction files generalizing c with
  | nil => rfl
  | cons f files ih =>
      have hmore := ih fun g hg => hread g (List.mem_cons_of_mem f hg)
      simp only [takeAll, take_congr (hread f List.mem_cons_self), hmore]

theorem takeAll_append (files more : List Candidate) (c : Collection) :
    takeAll t c (files ++ more) =
      match takeAll t c files with
      | (c, none) => takeAll t c more
      | (c, some fault) => (c, some fault) := by
  induction files generalizing c with
  | nil => rfl
  | cons f files ih =>
      rw [List.cons_append, takeAll, takeAll]
      cases take t c f with
      | error fault => rfl
      | ok c => exact ih c

theorem FirstUnreadable.takeAll (h : FirstUnreadable t content before f cause)
    (behind : List Candidate) (c : Collection) :
    takeAll t c (before ++ f :: behind) = (after content c before, some ⟨f.path, cause⟩) := by
  rw [takeAll_append, takeAll_eq_after h.readable]
  dsimp only
  rw [Collection.takeAll, take_of_unreadable h.trace h.unreadable]

/-- Only what leads up to the trace counts, and of it only what the traces hold. -/
theorem FirstUnreadable.congr (h : FirstUnreadable t content before f cause)
    (hread : ∀ g ∈ before ++ [f], g.isTrace → t'.read g.path = t.read g.path) :
    FirstUnreadable t' content before f cause := by
  rw [List.forall_mem_append, List.forall_mem_singleton] at hread
  refine ⟨fun g hg htrace => ?_, h.trace, (hread.2 h.trace).trans h.unreadable⟩
  exact (hread.1 g hg htrace).trans (h.readable g hg htrace)

theorem exists_firstUnreadable
    (hunreadable : ∃ f ∈ files, f.isTrace ∧ ∀ content, t.read f.path ≠ .ok content) :
    ∃ before f behind cause, files = before ++ f :: behind ∧
      FirstUnreadable t (contentIn t) before f cause := by
  induction files with
  | nil => simp at hunreadable
  | cons g files ih =>
      by_cases hg : g.isTrace → t.read g.path = .ok (contentIn t g)
      · obtain ⟨f, hf, htrace, hread⟩ := hunreadable
        have hrest : f ∈ files := by
          refine (List.mem_cons.mp hf).resolve_left ?_
          rintro rfl
          exact hread _ (hg htrace)
        obtain ⟨before, f, behind, cause, rfl, hfirst⟩ := ih ⟨f, hrest, htrace, hread⟩
        refine ⟨g :: before, f, behind, cause, rfl, ?_, hfirst.trace, hfirst.unreadable⟩
        exact List.forall_mem_cons.mpr ⟨hg, hfirst.readable⟩
      · obtain ⟨htrace, hread⟩ := Classical.not_imp.mp hg
        cases hcause : t.read g.path with
        | ok content => exact absurd (read_eq_contentIn_iff.mpr ⟨content, hcause⟩) hread
        | error cause => exact ⟨[], g, files, cause, rfl, by simp, htrace, hcause⟩

theorem exists_of_takeAll_fault {c c' : Collection} {fault : TraceFault}
    (htake : takeAll t c files = (c', some fault)) :
    ∃ before f behind, files = before ++ f :: behind ∧
      FirstUnreadable t (contentIn t) before f fault.cause ∧ fault.path = f.path := by
  have hunreadable : ∃ f ∈ files, f.isTrace ∧ ∀ content, t.read f.path ≠ .ok content := by
    by_contra hall
    push Not at hall
    have hread : ∀ f ∈ files, f.isTrace → t.read f.path = .ok (contentIn t f) :=
      fun f hf htrace => read_eq_contentIn_iff.mpr (hall f hf htrace)
    rw [takeAll_eq_after hread c] at htake
    cases htake
  obtain ⟨before, f, behind, cause, rfl, hfirst⟩ := exists_firstUnreadable hunreadable
  rw [hfirst.takeAll] at htake
  cases htake
  exact ⟨before, f, behind, rfl, hfirst, rfl⟩

/-! ## Collections that end early -/

/-- A collection fails just where a trace cannot be read.  The fault is that of the first such
trace, with its path and its cause in each text.  The chart and the notes are those of the
candidates before it, collected by themselves.  What stands behind it, and whether anything but
a trace can be read, has no part in this. -/
theorem collect_fault (t : FileTree) (chart : Chart) (files : List Candidate) :
    ((∃ fault, (collect t chart files).2 = some fault) ↔
      ∃ f ∈ files, f.isTrace ∧ ∀ content, t.read f.path ≠ .ok content) ∧
    (∀ t' : FileTree, (∀ f ∈ files, f.isTrace → t'.read f.path = t.read f.path) →
      collect t' chart files = collect t chart files) ∧
    ∀ c fault, collect t chart files = (c, some fault) →
      ∃ before f behind, files = before ++ f :: behind ∧
        FirstUnreadable t (contentIn t) before f fault.cause ∧ fault.path = f.path ∧
        (RunFault.trace fault).chain =
          ["Failed to parse trace " ++ f.path.display,
            "Failed to read trace file " ++ f.path.display ++ ": " ++ fault.cause.message,
            fault.cause.message] ∧
        (∃ c₀, collect t chart before = (c₀, none) ∧ c.chart = c₀.chart ∧ c.notes = c₀.notes) ∧
        c.chart.series = chart.series ++ plotted (contentIn t) before ∧
        ∀ (t' : FileTree) (behind' : List Candidate),
          (∀ g ∈ before ++ [f], g.isTrace → t'.read g.path = t.read g.path) →
          ∃ c', collect t' chart (before ++ f :: behind') = (c', some fault) ∧
            c'.chart = c.chart ∧ c'.notes = c.notes := by
  refine ⟨⟨?_, ?_⟩, fun t' hread => takeAll_congr hread _, ?_⟩
  · rintro ⟨fault, hfault⟩
    obtain ⟨before, f, behind, rfl, hfirst, -⟩ :=
      exists_of_takeAll_fault (Prod.ext rfl hfault)
    refine ⟨f, by simp, hfirst.trace, fun content hread => ?_⟩
    rw [hfirst.unreadable] at hread
    cases hread
  · intro hunreadable
    obtain ⟨before, f, behind, cause, rfl, hfirst⟩ := exists_firstUnreadable hunreadable
    exact ⟨_, congrArg Prod.snd (hfirst.takeAll behind _)⟩
  · rintro c ⟨path, cause⟩ hcollect
    obtain ⟨before, f, behind, rfl, hfirst, rfl⟩ := exists_of_takeAll_fault hcollect
    have hends := hcollect.symm.trans (hfirst.takeAll behind _)
    obtain ⟨rfl, -⟩ := Prod.mk.inj hends
    refine ⟨before, f, behind, rfl, hfirst, rfl, rfl, ?_, rfl, ?_⟩
    · exact ⟨_, takeAll_eq_after hfirst.readable _, rfl, rfl⟩
    · intro t' behind' hread
      exact ⟨_, (hfirst.congr hread).takeAll behind' _, rfl, rfl⟩

/-- A candidate whose file is gone. -/
def goneFile (name suffix : String) : Candidate :=
  { path := .ofString name, label := name, size := 1, suffix := some suffix, isFile := true }

/-- Before the first trace that is gone there are traces, and a file of another kind that is
gone as well. -/
def goneFiles : List Candidate :=
  mixedFiles ++ [goneFile "x" ".txt"] ++ goneFile "y" ".log" :: [goneFile "z" ".log"]

theorem firstUnreadable_goneFiles :
    FirstUnreadable mixedTree (contentIn mixedTree) (mixedFiles ++ [goneFile "x" ".txt"])
      (goneFile "y" ".log") .notFound := by
  refine ⟨?_, rfl, rfl⟩
  intro g hg htrace
  simp only [mixedFiles, List.cons_append, List.nil_append, List.mem_cons, List.not_mem_nil,
    or_false] at hg
  rcases hg with rfl | rfl | rfl | rfl
  · rfl
  · rfl
  · rfl
  · exact absurd htrace (by decide)

theorem collect_goneFiles :
    ∃ c, collect mixedTree (.empty {}) goneFiles = (c, some ⟨.ofString "y", .notFound⟩) ∧
      ∃ before f behind, goneFiles = before ++ f :: behind ∧
        FirstUnreadable mixedTree (contentIn mixedTree) before f .notFound ∧
        f.path = .ofString "y" ∧
        c.chart.series = plotted (contentIn mixedTree) before ∧
        ∀ behind', ∃ c', collect mixedTree (.empty {}) (before ++ f :: behind') =
          (c', some ⟨.ofString "y", .notFound⟩) ∧ c'.chart = c.chart := by
  obtain ⟨-, -, hends⟩ := collect_fault mixedTree (.empty {}) goneFiles
  have hcollect := firstUnreadable_goneFiles.takeAll [goneFile "z" ".log"]
    ⟨.empty {}, { entries := goneFiles.length }, []⟩
  obtain ⟨before, f, behind, hsplit, hfirst, hpath, -, -, hseries, hbehind⟩ := hends _ _ hcollect
  refine ⟨_, hcollect, before, f, behind, hsplit, hfirst, hpath.symm, hseries, fun behind' => ?_⟩
  obtain ⟨c', hcollect', hchart, -⟩ := hbehind mixedTree behind' fun _ _ _ => rfl
  exact ⟨c', hcollect', hchart⟩

end RewardPlot.Collection
