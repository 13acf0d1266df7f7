import RewardPlot.Proofs.Run.Course
import RewardPlot.Proofs.Text.Utf8
/-!
# Labels of a chart

The names of a directory are different as bytes.  A label is a name read as text, with
malformed parts replaced, so two series have one label only where their names are no text.
-/

namespace RewardPlot

/-- A series is the trace of a name in a directory. -/
structure Series.OfName (t : FileTree) (directory : Path) (name : Name) (s : Series) :
    Prop where
  label : s.label = Utf8.toStringLossy name
  trace : ∃ (f : Candidate) (bytes : List UInt8), f.InDirectory t directory name ∧
    t.read f.path = .ok bytes ∧ s.trace = .ofBytes bytes

section Related

variable {α β : Type} {R : α → β → Prop} {xs : List α} {ys : List β}

theorem exists_forall₂_filter (hall : List.Forall₂ R xs ys) (p : β → Bool) :
    ∃ kept, kept.Sublist xs ∧ List.Forall₂ R kept (ys.filter p) := by
  induction hall with
  | nil => exact ⟨[], .slnil, .nil⟩
  | @cons x y xs ys hxy _ ih =>
      obtain ⟨kept, hkept, hrelated⟩ := ih
      by_cases hy : p y = true
      · rw [List.filter_cons_of_pos hy]
        exact ⟨x :: kept, hkept.cons_cons x, .cons hxy hrelated⟩
      · rw [List.filter_cons_of_neg hy]
        exact ⟨kept, hkept.cons x, hrelated⟩

end Related

/-- The series that some candidates add are those of the traces whose sum is not zero. -/
theorem Collection.plotted_eq_map (content : Candidate → List UInt8) (files : List Candidate) :
    plotted content files =
      (files.filter fun f =>
        f.isTrace && !(Trace.ofBytes (content f)).sum.coincides 0).map
          fun f => ⟨f.label, .ofBytes (content f)⟩ := by
  rw [plotted, traces, List.filter_map, List.filter_filter]
  congr 2
  funext f
  apply Bool.and_comm

/-- The series of a collected directory, in the order in which it lists their names. -/
theorem series_of_collectDirectory {t : FileTree} {directory : Path}
    {settings : Chart.Settings} {c : Collection}
    (hcollect : collectDirectory t directory settings = .ok c) :
    ∃ place names, t.find directory = .ok (place, .directory) ∧
      names.Sublist (t.names place) ∧
      List.Forall₂ (Series.OfName t directory) names c.chart.series := by
  obtain ⟨place, files, hfind, hdescribed, hread, rfl⟩ := collectDirectory_ok hcollect
  obtain ⟨names, hnames, hplotted⟩ := exists_forall₂_filter hdescribed fun f =>
    f.isTrace && !(Trace.ofBytes (Collection.contentIn t f)).sum.coincides 0
  refine ⟨place, names, hfind, hnames, ?_⟩
  rw [Collection.after, Chart.empty]
  dsimp only
  rw [List.nil_append, Collection.plotted_eq_map, List.forall₂_map_right_iff]
  apply (forall₂_mem hplotted).imp
  rintro name f ⟨hname, hf, hdescribe⟩
  obtain ⟨hf, hplot⟩ := List.mem_filter.mp hf
  rw [Bool.and_eq_true] at hplot
  obtain ⟨-, hlabel, -⟩ := Candidate.describe_ok hdescribe
  exact ⟨hlabel, f, _, ⟨⟨place, hfind, hnames.mem hname⟩, hdescribe, hplot.1⟩,
    hread f hf hplot.1, rfl⟩

/-- The series of a collected directory are the traces of different names.  Their labels are
different just where no two of these names read as one text, which is so where every name
of the directory is well formed; then a label is that of one name only. -/
theorem labels_of_collectDirectory {t : FileTree} {directory : Path}
    {settings : Chart.Settings} {c : Collection}
    (hcollect : collectDirectory t directory settings = .ok c) :
    ∃ place names, t.find directory = .ok (place, .directory) ∧
      names.Sublist (t.names place) ∧ names.Nodup ∧
      List.Forall₂ (Series.OfName t directory) names c.chart.series ∧
      (c.chart.labels.Nodup ↔ ∀ name ∈ names, ∀ name' ∈ names,
        Utf8.toStringLossy name = Utf8.toStringLossy name' → name = name') ∧
      ((∀ name ∈ t.names place, Utf8.WellFormed name) →
        c.chart.labels.Nodup ∧ ∀ label ∈ c.chart.labels,
          ∃! name, name ∈ t.names place ∧ Utf8.toStringLossy name = label) := by
  obtain ⟨place, names, hfind, hnames, hseries⟩ := series_of_collectDirectory hcollect
  have hnodup : names.Nodup := (t.nodup_names place).sublist hnames
  have hlabels : c.chart.labels = names.map Utf8.toStringLossy := by
    rw [Chart.labels, ← List.forall₂_eq_eq_eq, List.forall₂_map_left_iff,
      List.forall₂_map_right_iff]
    exact (hseries.imp fun _ _ h => h.label).flip
  have hdistinct : c.chart.labels.Nodup ↔ ∀ name ∈ names, ∀ name' ∈ names,
      Utf8.toStringLossy name = Utf8.toStringLossy name' → name = name' := by
    rw [hlabels]
    exact List.nodup_map_iff_inj_on hnodup
  refine ⟨place, names, hfind, hnames, hnodup, hseries, hdistinct, fun htext => ⟨?_, ?_⟩⟩
  · apply hdistinct.mpr
    intro name hname name' hname'
    exact (htext name (hnames.mem hname)).eq_of_toStringLossy_eq
      (htext name' (hnames.mem hname'))
  · intro label hlabel
    rw [hlabels, List.mem_map] at hlabel
    obtain ⟨name, hname, rfl⟩ := hlabel
    refine ⟨name, ⟨hnames.mem hname, rfl⟩, ?_⟩
    rintro name' ⟨hname', hsame⟩
    exact (htext name' hname').eq_of_toStringLossy_eq (htext name (hnames.mem hname)) hsame

/-- A directory with two traces whose names differ in a byte that is no text. -/
def twinTraces : FileTree where
  here := []
  entries :=
    [([Utf8.ofString "d"], .directory),
      ([Utf8.ofString "d", 0xFF :: Utf8.ofString ".log"], .file (Utf8.ofString "1")),
      ([Utf8.ofString "d", 0xFE :: Utf8.ofString ".log"], .file (Utf8.ofString "1"))]

theorem twinTraces_labels :
    ((collectDirectory twinTraces (.ofString "d") {}).toOption.map fun c => c.chart.labels) =
      some ["\uFFFD.log", "\uFFFD.log"] := by
  decide +kernel

theorem labels_of_twinTraces :
    ∃ c, collectDirectory twinTraces (.ofString "d") {} = .ok c ∧
      ∃ place names, twinTraces.find (.ofString "d") = .ok (place, .directory) ∧
        names.Sublist (twinTraces.names place) ∧ names.Nodup ∧
        List.Forall₂ (Series.OfName twinTraces (.ofString "d")) names c.chart.series ∧
        (c.chart.labels.Nodup ↔ ∀ name ∈ names, ∀ name' ∈ names,
          Utf8.toStringLossy name = Utf8.toStringLossy name' → name = name') ∧
        ((∀ name ∈ twinTraces.names place, Utf8.WellFormed name) →
          c.chart.labels.Nodup ∧ ∀ label ∈ c.chart.labels,
            ∃! name, name ∈ twinTraces.names place ∧ Utf8.toStringLossy name = label) := by
  have hlabels := twinTraces_labels
  cases hcollect : collectDirectory twinTraces (.ofString "d") {} with
  | error fault =>
      rw [hcollect] at hlabels
      cases hlabels
  | ok c => exact ⟨c, rfl, labels_of_collectDirectory hcollect⟩

/-- Two traces of a directory may have one label. -/
theorem not_all_labels_distinct :
    ¬∀ (t : FileTree) (directory : Path) (settings : Chart.Settings) (c : Collection),
      collectDirectory t directory settings = .ok c → c.chart.labels.Nodup := by
  intro hdistinct
  have hlabels := twinTraces_labels
  cases hcollect : collectDirectory twinTraces (.ofString "d") {} with
  | error fault =>
      rw [hcollect] at hlabels
      cases hlabels
  | ok c =>
      have hnodup := hdistinct _ _ _ c hcollect
      rw [hcollect] at hlabels
      simp only [Except.toOption, Option.map_some, Option.some.injEq] at hlabels
      rw [hlabels] at hnodup
      simp at hnodup

end RewardPlot
