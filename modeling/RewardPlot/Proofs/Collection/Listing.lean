import RewardPlot.Proofs.Chart
import RewardPlot.Proofs.Collection
/-!
# Collections and the order of a listing

A directory lists its entries in any order.  The order of the series is all that depends on
it: the counts and the axes of the chart do not.
-/

namespace RewardPlot.Collection

variable {t : FileTree} {content : Candidate → List UInt8} {files files' : List Candidate}

theorem traces_perm (hperm : files.Perm files') :
    (traces content files).Perm (traces content files') :=
  (hperm.filter _).map _

theorem plotted_perm (hperm : files.Perm files') :
    (plotted content files).Perm (plotted content files') :=
  (traces_perm hperm).filter _

theorem placeholders_perm (hperm : files.Perm files') :
    (placeholders content files).Perm (placeholders content files') :=
  (traces_perm hperm).filter _

/-- Two listings of the same readable traces give equal counts and charts with the same series,
of which only the order may differ; the bounds and the axes are the same in value. -/
theorem collect_perm (settings : Chart.Settings) (hperm : files.Perm files')
    (hread : ∀ f ∈ files, f.isTrace → t.read f.path = .ok (content f)) :
    ∃ c c', collect t (.empty settings) files = (c, none) ∧
      collect t (.empty settings) files' = (c', none) ∧
      c.tally = c'.tally ∧
      c.chart.settings = c'.chart.settings ∧
      c.chart.series.Perm c'.chart.series ∧
      c.chart.maxLength = c'.chart.maxLength ∧
      Option.Rel Bounds.Coincide c.chart.bounds? c'.chart.bounds? ∧
      c.chart.xAxis = c'.chart.xAxis ∧
      c.chart.yAxis.Coincide c'.chart.yAxis := by
  have hread' : ∀ f ∈ files', f.isTrace → t.read f.path = .ok (content f) :=
    fun f hf => hread f (hperm.mem_iff.mpr hf)
  let c := after content ⟨.empty settings, { entries := files.length }, []⟩ files
  let c' := after content ⟨.empty settings, { entries := files'.length }, []⟩ files'
  have htally : c.tally = c'.tally := by
    simp only [c, c', after, hperm.length_eq, hperm.countP_eq, (plotted_perm hperm).length_eq,
      (placeholders_perm hperm).length_eq]
  have hseries : c.chart.series.Perm c'.chart.series := (plotted_perm hperm).append_left []
  have hlength := Chart.maxLength_perm hseries
  have hbounds := Chart.bounds?_perm hseries
  have hxAxis : c.chart.xAxis = c'.chart.xAxis := by
    rw [Chart.xAxis, Chart.xAxis, hlength]
  exact ⟨c, c', takeAll_eq_after hread _, takeAll_eq_after hread' _, htally, rfl, hseries,
    hlength, hbounds, hxAxis, Axis.ofBounds_congr hbounds⟩

/-- Three traces: the least value is a zero of either sign, and one sum is zero. -/
def zerosTree : FileTree where
  here := []
  entries :=
    [([[0x61]], .file (Utf8.ofString "0,1")), ([[0x62]], .file (Utf8.ofString "-0,1,x")),
      ([[0x63]], .file (Utf8.ofString "1,-1"))]

def zerosFiles : List Candidate :=
  [{ path := ⟨[0x61]⟩, label := "a", size := 3, suffix := some ".log", isFile := true },
    { path := ⟨[0x62]⟩, label := "b", size := 6, suffix := some ".log", isFile := true },
    { path := ⟨[0x63]⟩, label := "c", size := 4, suffix := some ".log", isFile := true }]

def zerosContent (f : Candidate) : List UInt8 :=
  if f.label = "a" then Utf8.ofString "0,1"
  else if f.label = "b" then Utf8.ofString "-0,1,x"
  else Utf8.ofString "1,-1"

theorem collect_zerosFiles_reverse :
    zerosFiles.Perm zerosFiles.reverse ∧
      (∀ f ∈ zerosFiles, f.isTrace → zerosTree.read f.path = .ok (zerosContent f)) ∧
      ∃ c c', collect zerosTree (.empty {}) zerosFiles = (c, none) ∧
        collect zerosTree (.empty {}) zerosFiles.reverse = (c', none) ∧
        c.tally = c'.tally ∧
        c.chart.settings = c'.chart.settings ∧
        c.chart.series.Perm c'.chart.series ∧
        c.chart.maxLength = c'.chart.maxLength ∧
        Option.Rel Bounds.Coincide c.chart.bounds? c'.chart.bounds? ∧
        c.chart.xAxis = c'.chart.xAxis ∧
        c.chart.yAxis.Coincide c'.chart.yAxis := by
  have hperm : zerosFiles.Perm zerosFiles.reverse := zerosFiles.reverse_perm.symm
  have hread : ∀ f ∈ zerosFiles, f.isTrace → zerosTree.read f.path = .ok (zerosContent f) := by
    decide +kernel
  exact ⟨hperm, hread, collect_perm {} hperm hread⟩

end RewardPlot.Collection
