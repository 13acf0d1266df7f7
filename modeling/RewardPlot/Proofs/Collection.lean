import RewardPlot.Collection
import Mathlib.Data.List.Basic
/-!
# What a collection holds

Each candidate that is taken adds to the chart, to the counts and to the notes what it
adds by itself, so a collection of readable traces is a sum over its candidates.
-/

namespace RewardPlot.Collection

variable {t : FileTree} {content : Candidate → List UInt8}

/-- The traces among some candidates, with the labels of their series. -/
def traces (content : Candidate → List UInt8) (files : List Candidate) : List Series :=
  (files.filter Candidate.isTrace).map fun f => ⟨f.label, .ofBytes (content f)⟩

def plotted (content : Candidate → List UInt8) (files : List Candidate) : List Series :=
  (traces content files).filter fun s => !s.trace.sum.coincides 0

def placeholders (content : Candidate → List UInt8) (files : List Candidate) : List Series :=
  (traces content files).filter fun s => s.trace.sum.coincides 0

def notesAbout (content : Candidate → List UInt8) (f : Candidate) : List Note :=
  if f.isTrace then notesOn f.path f.label (.ofBytes (content f)) else [.ignored f]

/-- A collection after some more candidates. -/
def after (content : Candidate → List UInt8) (c : Collection) (files : List Candidate) :
    Collection where
  chart := { c.chart with series := c.chart.series ++ plotted content files }
  tally :=
    { entries := c.tally.entries
      eligible := c.tally.eligible + files.countP Candidate.isTrace
      plotted := c.tally.plotted + (plotted content files).length
      placeholders := c.tally.placeholders + (placeholders content files).length }
  notes := c.notes ++ files.flatMap (notesAbout content)

theorem plotted_append (files more : List Candidate) :
    plotted content (files ++ more) = plotted content files ++ plotted content more := by
  simp [plotted, traces]

theorem placeholders_append (files more : List Candidate) :
    placeholders content (files ++ more) =
      placeholders content files ++ placeholders content more := by
  simp [placeholders, traces]

theorem length_plotted_add_placeholders (files : List Candidate) :
    (plotted content files).length + (placeholders content files).length =
      files.countP Candidate.isTrace := by
  have hsplit := List.length_eq_length_filter_add
    (l := traces content files) fun s => s.trace.sum.coincides 0
  have htraces : (traces content files).length = files.countP Candidate.isTrace := by
    rw [traces, List.length_map, List.countP_eq_length_filter]
  unfold plotted placeholders
  omega

theorem after_nil (c : Collection) : after content c [] = c := by
  simp [after, plotted, placeholders, traces]

theorem after_append (c : Collection) (files more : List Candidate) :
    after content c (files ++ more) = after content (after content c files) more := by
  simp only [after, plotted_append, placeholders_append, List.append_assoc, List.length_append,
    List.countP_append, List.flatMap_append, Nat.add_assoc]

/-- One candidate, which only has to be readable when it is a trace. -/
theorem take_eq_after {f : Candidate} (hread : f.isTrace → t.read f.path = .ok (content f))
    (c : Collection) : take t c f = .ok (after content c [f]) := by
  by_cases hf : f.isTrace = true
  · have hload : readTrace t f.path = .ok (.ofBytes (content f)) := by
      rw [readTrace, hread hf]
    rw [take, if_pos hf, hload]
    by_cases hzero : (Trace.ofBytes (content f)).sum.coincides 0 = true
    · simp [Except.map, takeTrace, Trace.sumsToZero, after, plotted, placeholders, traces,
        notesAbout, hf, hzero]
    · simp [Except.map, takeTrace, Trace.sumsToZero, after, plotted, placeholders, traces,
        notesAbout, hf, hzero, Chart.add]
  · rw [take, if_neg hf]
    simp [after, plotted, placeholders, traces, notesAbout, hf]

theorem takeAll_eq_after {files : List Candidate}
    (hread : ∀ f ∈ files, f.isTrace → t.read f.path = .ok (content f)) (c : Collection) :
    takeAll t c files = (after content c files, none) := by
  induction files generalizing c with
  | nil => rw [takeAll, after_nil]
  | cons f files ih =>
      have hmore := ih (fun g hg => hread g (by simp [hg])) (after content c [f])
      rw [takeAll, take_eq_after (hread f (by simp))]
      dsimp only
      rw [hmore, ← after_append, List.singleton_append]

/-- The bytes to which the path of a candidate leads; none where it leads to no file. -/
def contentIn (t : FileTree) (f : Candidate) : List UInt8 := (t.read f.path).toOption.getD []

theorem read_of_take {c c' : Collection} {f : Candidate} (htake : take t c f = .ok c')
    (htrace : f.isTrace) : t.read f.path = .ok (contentIn t f) := by
  rw [take, if_pos htrace, readTrace] at htake
  rw [contentIn]
  cases hread : t.read f.path with
  | error cause =>
      rw [hread] at htake
      cases htake
  | ok bytes => rfl

theorem read_of_takeAll {c c' : Collection} {files : List Candidate}
    (htake : takeAll t c files = (c', none)) :
    ∀ f ∈ files, f.isTrace → t.read f.path = .ok (contentIn t f) := by
  induction files generalizing c with
  | nil => simp
  | cons g files ih =>
      rw [takeAll] at htake
      split at htake
      · next c₁ hg =>
        intro f hf htrace
        rcases List.mem_cons.mp hf with rfl | hf
        · exact read_of_take hg htrace
        · exact ih htake f hf htrace
      · cases htake

/-- A collection that comes to its end has taken every candidate with its content. -/
theorem takeAll_ok {c c' : Collection} {files : List Candidate}
    (htake : takeAll t c files = (c', none)) :
    (∀ f ∈ files, f.isTrace → t.read f.path = .ok (contentIn t f)) ∧
      c' = after (contentIn t) c files := by
  have hread := read_of_takeAll htake
  rw [takeAll_eq_after hread c] at htake
  cases htake
  exact ⟨hread, rfl⟩

/-- Collecting readable traces adds to the chart one series for each trace whose sum is
not zero, in order and nothing else, and counts them all. -/
theorem collect_eq (chart : Chart) (files : List Candidate)
    (hread : ∀ f ∈ files, f.isTrace → t.read f.path = .ok (content f)) :
    ∃ c, collect t chart files = (c, none) ∧
      c.chart = { chart with series := chart.series ++ plotted content files } ∧
      c.tally =
        { entries := files.length
          eligible := files.countP Candidate.isTrace
          plotted := (plotted content files).length
          placeholders := (placeholders content files).length } ∧
      c.tally.eligible = c.tally.plotted + c.tally.placeholders ∧
      c.tally.eligible ≤ c.tally.entries := by
  have hsum : (plotted content files).length + (placeholders content files).length =
      files.countP Candidate.isTrace := length_plotted_add_placeholders files
  refine ⟨_, takeAll_eq_after hread _, rfl, ?_, ?_, ?_⟩
  · simp only [after, Nat.zero_add]
  · simp only [after, Nat.zero_add, hsum]
  · simp only [after, Nat.zero_add]
    exact List.countP_le_length

/-- A directory with a placeholder, a trace to plot and a file of another kind. -/
def mixedTree : FileTree where
  here := []
  entries :=
    [([[0x61]], .file [0x30]), ([[0x62]], .file [0x31, 0x2C, 0x32]), ([[0x63]], .file [0x33])]

def mixedFiles : List Candidate :=
  [{ path := ⟨[0x61]⟩, label := "a", size := 1, suffix := some ".log", isFile := true },
    { path := ⟨[0x62]⟩, label := "b", size := 3, suffix := some ".log", isFile := true },
    { path := ⟨[0x63]⟩, label := "c", size := 1, suffix := some ".txt", isFile := true }]

def mixedContent (f : Candidate) : List UInt8 := if f.label = "a" then [0x30] else [0x31, 0x2C, 0x32]

theorem collect_mixedFiles :
    (∀ f ∈ mixedFiles, f.isTrace → mixedTree.read f.path = .ok (mixedContent f)) ∧
      ∃ c, collect mixedTree (.empty {}) mixedFiles = (c, none) ∧ c.chart.labels = ["b"] ∧
        c.tally = { entries := 3, eligible := 2, plotted := 1, placeholders := 1 } := by
  have hread : ∀ f ∈ mixedFiles, f.isTrace → mixedTree.read f.path = .ok (mixedContent f) := by
    intro f hf htrace
    simp only [mixedFiles, List.mem_cons, List.not_mem_nil, or_false] at hf
    rcases hf with rfl | rfl | rfl
    · rfl
    · rfl
    · exact absurd htrace (by decide)
  refine ⟨hread, ?_⟩
  obtain ⟨c, hcollect, hchart, htally, -⟩ := collect_eq (.empty {}) mixedFiles hread
  refine ⟨c, hcollect, ?_, ?_⟩
  · rw [hchart]
    decide +kernel
  · rw [htally]
    decide +kernel

end RewardPlot.Collection
