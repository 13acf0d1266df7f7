import RewardPlot.Proofs.Binary64.Error
import RewardPlot.Proofs.Collection.Fault
/-!
# Values that are not finite are a signal

A running sum that has met an infinity, or what is not a number, is never finite again, so it
is not zero in the end.  A trace with such a value is always plotted, and its record holds no
sum.  Masked positions have no part in a sum.
-/

namespace RewardPlot

namespace Trace

variable {t t' : Trace}

/-! ## Sums that are not finite -/

/-- A running sum is finite only as long as it has met finite values. -/
theorem isFinite_of_foldl_add {start : Binary64} {vs : List Binary64}
    (hsum : (vs.foldl (· + ·) start).isFinite) :
    start.isFinite ∧ ∀ v ∈ vs, v.isFinite := by
  induction vs generalizing start with
  | nil => exact ⟨hsum, fun v hv => absurd hv List.not_mem_nil⟩
  | cons v vs ih =>
      rw [List.foldl_cons] at hsum
      obtain ⟨hstart, hvs⟩ := ih hsum
      obtain ⟨hstart, hv⟩ := Binary64.isFinite_of_add hstart
      exact ⟨hstart, List.forall_mem_cons.mpr ⟨hv, hvs⟩⟩

theorem sum_not_isFinite {v : Binary64} (hv : v ∈ t.present) (hinfinite : v.isFinite = false) :
    t.sum.isFinite = false := by
  by_contra hfinite
  rw [Bool.not_eq_false] at hfinite
  have hv' := (isFinite_of_foldl_add hfinite).2 v hv
  rw [hinfinite] at hv'
  cases hv'

theorem sumsToZero_of_not_isFinite (hsum : t.sum.isFinite = false) : t.sumsToZero = false := by
  by_contra hzero
  rw [Bool.not_eq_false] at hzero
  have hplace := Binary64.place_eq_of_coincides hzero
  rw [Binary64.isFinite_congr hplace, Binary64.isFinite_zero] at hsum
  cases hsum

/-! ## Masked positions -/

/-- The second row is the first one with masked positions put in anywhere. -/
inductive MoreMasked : List (Option Binary64) → List (Option Binary64) → Prop where
  | nil : MoreMasked [] []
  | keep (value : Option Binary64) {values values' : List (Option Binary64)}
      (h : MoreMasked values values') : MoreMasked (value :: values) (value :: values')
  | mask {values values' : List (Option Binary64)} (h : MoreMasked values values') :
      MoreMasked values (none :: values')

theorem MoreMasked.filterMap_eq {values values' : List (Option Binary64)}
    (h : MoreMasked values values') :
    values'.filterMap id = values.filterMap id := by
  induction h with
  | nil => rfl
  | keep value h ih => rw [List.filterMap_cons, List.filterMap_cons, ih]
  | mask h ih => rw [List.filterMap_cons, ih]; rfl

theorem MoreMasked.sum_eq (h : MoreMasked t.values t'.values) : t'.sum = t.sum := by
  rw [sum, sum, present, present, h.filterMap_eq]

theorem MoreMasked.sumsToZero_eq (h : MoreMasked t.values t'.values) :
    t'.sumsToZero = t.sumsToZero := by
  rw [sumsToZero, sumsToZero, h.sum_eq]

end Trace

namespace Collection

variable {tree : FileTree} {before : List Candidate} {f : Candidate} {t : Trace}

/-- The series of a chart stay where they are while more candidates are taken. -/
theorem prefix_take {c c' : Collection} (htake : take tree c f = .ok c') :
    c.chart.series <+: c'.chart.series := by
  unfold take at htake
  split at htake
  · cases hread : readTrace tree f.path with
    | error fault =>
        rw [hread] at htake
        cases htake
    | ok trace =>
        rw [hread] at htake
        cases htake
        unfold takeTrace
        dsimp only
        split
        · exact List.prefix_refl _
        · exact List.prefix_append _ _
  · cases htake
    exact List.prefix_refl _

theorem prefix_takeAll (c : Collection) (files : List Candidate) :
    c.chart.series <+: (takeAll tree c files).1.chart.series := by
  induction files generalizing c with
  | nil => exact List.prefix_refl _
  | cons f files ih =>
      rw [takeAll]
      cases htake : take tree c f with
      | error fault => exact List.prefix_refl _
      | ok c' => exact (prefix_take htake).trans (ih c')

/-- A collection that comes to a trace with a signal plots it, however it goes on. -/
theorem mem_series_collect (htrace : f.isTrace) (hread : readTrace tree f.path = .ok t)
    (hsignal : t.sumsToZero = false)
    (hbefore : ∀ g ∈ before, g.isTrace → ∃ content, tree.read g.path = .ok content)
    (chart : Chart) (behind : List Candidate) :
    ⟨f.label, t⟩ ∈ (collect tree chart (before ++ f :: behind)).1.chart.series := by
  have hreadable : ∀ g ∈ before, g.isTrace → tree.read g.path = .ok (contentIn tree g) :=
    fun g hg htrace => read_eq_contentIn_iff.mpr (hbefore g hg htrace)
  rw [collect, takeAll_append, takeAll_eq_after hreadable]
  dsimp only
  rw [takeAll, take, if_pos htrace, hread]
  apply (prefix_takeAll _ behind).subset
  rw [takeTrace, hsignal, if_neg Bool.false_ne_true]
  exact List.mem_append_right _ List.mem_cons_self

end Collection

open Collection

/-- A trace with a value that is not finite has a sum that is not finite.  It is no placeholder,
every collection that comes to it plots it, and the record of it holds no sum.  Masked positions
change neither the sum of a trace nor whether it is a placeholder. -/
theorem signal_of_not_isFinite (t : Trace) :
    (∀ v ∈ t.present, v.isFinite = false →
      t.sum.isFinite = false ∧ t.sumsToZero = false ∧
        ∀ (tree : FileTree) (chart : Chart) (before behind : List Candidate) (f : Candidate),
          f.isTrace → readTrace tree f.path = .ok t →
          (∀ g ∈ before, g.isTrace → ∃ content, tree.read g.path = .ok content) →
          let collected := (collect tree chart (before ++ f :: behind)).1.chart
          ⟨f.label, t⟩ ∈ collected.series ∧
            ∀ time, ⟨f.label, .ofNat t.length, .ofNat t.masked, none⟩ ∈
              (Manifest.ofChart time collected).series) ∧
      ∀ t' : Trace, Trace.MoreMasked t.values t'.values →
        t'.sum = t.sum ∧ t'.sumsToZero = t.sumsToZero := by
  constructor
  · intro v hv hinfinite
    have hsum := Trace.sum_not_isFinite hv hinfinite
    have hsignal := Trace.sumsToZero_of_not_isFinite hsum
    refine ⟨hsum, hsignal, ?_⟩
    intro tree chart before behind f htrace hread hbefore
    have hseries := mem_series_collect htrace hread hsignal hbefore chart behind
    have hitem : Manifest.Item.ofSeries ⟨f.label, t⟩ =
        ⟨f.label, .ofNat t.length, .ofNat t.masked, none⟩ := by
      simp only [Manifest.Item.ofSeries, hsum, Bool.false_eq_true, if_false]
    refine ⟨hseries, fun time => ?_⟩
    rw [← hitem]
    exact List.mem_map_of_mem hseries
  · intro t' hmasked
    exact ⟨hmasked.sum_eq, hmasked.sumsToZero_eq⟩

/-- The values of `1,x,inf,-inf,-1`. -/
def surge : Trace :=
  ⟨[some 1, none, some (.infinite false), some (.infinite true), some (-1)]⟩

def surgeBytes : List UInt8 :=
  [0x31, 0x2C, 0x78, 0x2C, 0x69, 0x6E, 0x66, 0x2C, 0x2D, 0x69, 0x6E, 0x66, 0x2C, 0x2D, 0x31]

/-- A placeholder and a trace whose values run over. -/
def surgeTree : FileTree where
  here := []
  entries := [([[0x61]], .file [0x30]), ([[0x62]], .file surgeBytes)]

def surgeFile (name : UInt8) (label : String) : Candidate :=
  { path := ⟨[name]⟩, label, size := 1, suffix := some ".log", isFile := true }

/-- The trace behind it is gone, so this collection does not come to its end. -/
theorem signal_of_surge :
    .infinite false ∈ surge.present ∧ surge.sumsToZero = false ∧
      ⟨"b", surge⟩ ∈
        (collect surgeTree (.empty {})
          ([surgeFile 0x61 "a"] ++ surgeFile 0x62 "b" :: [surgeFile 0x63 "c"])).1.chart.series ∧
      Trace.MoreMasked surge.values (none :: surge.values) ∧
      (⟨none :: surge.values⟩ : Trace).sumsToZero = false := by
  have hmem : .infinite false ∈ surge.present := by decide +kernel
  have hmasked : Trace.MoreMasked surge.values (none :: surge.values) :=
    .mask (.keep _ (.keep _ (.keep _ (.keep _ (.keep _ .nil)))))
  have hbefore : ∀ g ∈ [surgeFile 0x61 "a"], g.isTrace →
      ∃ content, surgeTree.read g.path = .ok content := by
    intro g hg htrace
    rw [List.mem_singleton.mp hg]
    exact ⟨[0x30], rfl⟩
  obtain ⟨hinfinite, hmore⟩ := signal_of_not_isFinite surge
  obtain ⟨-, hsignal, hcollect⟩ := hinfinite _ hmem rfl
  have hread : readTrace surgeTree (surgeFile 0x62 "b").path = .ok surge := by
    have hbytes : Trace.ofBytes surgeBytes = surge := by decide +kernel
    rw [← hbytes]
    rfl
  have hsame := (hmore _ hmasked).2
  refine ⟨hmem, hsignal, (hcollect _ _ _ _ _ ?_ hread hbefore).1, hmasked, ?_⟩
  · decide
  · rw [hsame, hsignal]

end RewardPlot
