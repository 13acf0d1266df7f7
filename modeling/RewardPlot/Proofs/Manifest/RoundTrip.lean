import RewardPlot.Proofs.Manifest.Printer
import RewardPlot.Proofs.Output
import RewardPlot.Trace.Layout
/-!
# Manifests that are read after they were written

Every field of a manifest comes back but for the sums: a sum comes back as the number that
its shortest digits are read as.
-/

namespace RewardPlot

namespace Manifest

open Json

/-- The record with its sum as it is read. -/
def Item.reread (i : Item) : Item := { i with sum := i.sum.map Json.reread }

def reread (m : Manifest) : Manifest := { m with series := m.series.map Item.reread }

theorem Item.reread_eq_iff {i : Item} : i.reread = i ↔ ∀ x ∈ i.sum, Json.reread x = x := by
  obtain ⟨label, points, masked, sum⟩ := i
  cases sum <;> simp [Item.reread]

theorem reread_eq_iff {m : Manifest} :
    m.reread = m ↔ ∀ i ∈ m.series, ∀ x ∈ i.sum, Json.reread x = x := by
  obtain ⟨version, title, generatedAt, series⟩ := m
  have hseries : (Manifest.mk version title generatedAt series).reread =
      ⟨version, title, generatedAt, series⟩ ↔ series.map Item.reread = series.map id := by
    rw [List.map_id]
    simp [Manifest.reread]
  rw [hseries, List.map_inj_left]
  simp only [id, Item.reread_eq_iff]

/-! ## Fields -/

theorem readText_textToken (s : String) (rest : List Token) :
    readText ([textToken s] ++ rest) = .ok (s, rest) := by
  show Except.ok (String.ofList s.toList, rest) = _
  rw [String.ofList_toList]

theorem readCount_countToken (n : UInt64) (rest : List Token) :
    readCount ([countToken n] ++ rest) = .ok (n, rest) := by
  show Except.ok (UInt64.ofNat n.toNat, rest) = _
  rw [UInt64.ofNat_toNat]

theorem readNumber?_sumToken (sum : Option Binary64) (rest : List Token) :
    readNumber? ([sumToken sum] ++ rest) = .ok (sum.map Json.reread, rest) := by
  cases sum <;> rfl

/-! ## Records -/

theorem Item.readsItem (i : Item) : ReadsItem Item.read i.tokens i.reread := by
  have hmembers : TakesMembers Item.fields {} [
      fieldTokens "label" [textToken i.label],
      fieldTokens "points" [countToken i.points],
      fieldTokens "masked" [countToken i.masked],
      fieldTokens "sum" [sumToken i.sum]]
      ⟨some i.label, some i.points, some i.masked, some (i.sum.map Json.reread)⟩ := by
    refine ⟨{ label := some i.label }, .of_find rfl rfl fun rest => ?_,
      { label := some i.label, points := some i.points }, .of_find rfl rfl fun rest => ?_,
      ⟨some i.label, some i.points, some i.masked, none⟩, .of_find rfl rfl fun rest => ?_,
      _, .of_find rfl rfl fun rest => ?_, rfl⟩
    · dsimp only
      rw [readText_textToken]
      rfl
    · dsimp only
      rw [readCount_countToken]
      rfl
    · dsimp only
      rw [readCount_countToken]
      rfl
    · dsimp only
      rw [readNumber?_sumToken]
      rfl
  exact ⟨⟨_, rfl⟩, readRecord_block hmembers rfl⟩

theorem readRecord_tokens (m : Manifest) (rest : List Token) :
    readRecord fields {} Draft.finish (m.tokens ++ rest) = .ok (m.reread, rest) := by
  have hmembers : TakesMembers fields {} [
      fieldTokens "version" [textToken m.version],
      fieldTokens "title" [textToken m.title],
      fieldTokens "generated_at" [textToken m.generatedAt],
      fieldTokens "series" (blockTokens .openBracket .closeBracket (m.series.map Item.tokens))]
      ⟨some m.version, some m.title, some m.generatedAt, some (m.series.map Item.reread)⟩ := by
    refine ⟨{ version := some m.version }, .of_find rfl rfl fun rest => ?_,
      { version := some m.version, title := some m.title }, .of_find rfl rfl fun rest => ?_,
      ⟨some m.version, some m.title, some m.generatedAt, none⟩, .of_find rfl rfl fun rest => ?_,
      _, .of_find rfl rfl fun rest => ?_, rfl⟩
    · dsimp only
      rw [readText_textToken]
      rfl
    · dsimp only
      rw [readText_textToken]
      rfl
    · dsimp only
      rw [readText_textToken]
      rfl
    · dsimp only
      rw [readArray_block fun i _ => i.readsItem]
      rfl
  have hfinish : Draft.finish ⟨some m.version, some m.title, some m.generatedAt,
      some (m.series.map Item.reread)⟩ = some m.reread := rfl
  exact readRecord_block hmembers hfinish rest

theorem ofBytes_bytes {m : Manifest} (hfinite : m.SumsFinite) : ofBytes m.bytes = .ok m.reread := by
  have hread := readRecord_tokens m []
  rw [List.append_nil] at hread
  rw [ofBytes, readOnly, tokens_bytes hfinite, hread]

end Manifest

/-! ## Files -/

namespace Output

theorem loadManifest_stored {t later : FileTree} {m : Manifest} {p : Path}
    (hfinite : m.SumsFinite) (hstored : storeManifest t m p = (.ok (), later)) :
    loadManifest later p = .ok m.reread := by
  obtain ⟨place, hfind⟩ := find_stored hstored
  rw [loadManifest, hfind]
  dsimp only
  rw [Manifest.ofBytes_bytes hfinite]
  rfl

/-- A manifest that was written is read with every field as it was, but for the sums: each of
them is the number that its shortest digits are read as.  The manifest is the same exactly
when these numbers are, and they are where the digits and the power of ten are exact. -/
theorem manifest_after_store {t later : FileTree} {m : Manifest} {p : Path}
    (hfinite : m.SumsFinite) (hstored : storeManifest t m p = (.ok (), later)) :
    loadManifest later p = .ok m.reread ∧
      (loadManifest later p = .ok m ↔ ∀ i ∈ m.series, ∀ x ∈ i.sum, Json.reread x = x) ∧
      ((∀ i ∈ m.series, ∀ x ∈ i.sum, Json.HasExactParts x) → loadManifest later p = .ok m) := by
  have hload := loadManifest_stored hfinite hstored
  have hsame : loadManifest later p = .ok m ↔
      ∀ i ∈ m.series, ∀ x ∈ i.sum, Json.reread x = x := by
    rw [hload, ← Manifest.reread_eq_iff]
    exact ⟨Except.ok.inj, congrArg _⟩
  refine ⟨hload, hsame, fun hexact => ?_⟩
  rw [hsame]
  intro i hi x hx
  exact Json.reread_eq_self (hexact i hi x hx)

/-- A chart with a series that has no finite sum and one whose sum has seventeen digits. -/
def longSumChart : Chart :=
  ⟨{ title := "\"\\\x07" }, [⟨"雪\n", .ofText "nan".toList⟩, ⟨"", .ofText "7.7,5.4".toList⟩]⟩

def longSum : Manifest := .ofChart "" longSumChart

def emptyTree : FileTree := ⟨[], [], List.nodup_nil⟩

def longSumTree : FileTree := (storeManifest emptyTree longSum (.ofString "out/m.json")).2

theorem longSum_stored :
    storeManifest emptyTree longSum (.ofString "out/m.json") = (.ok (), longSumTree) := by
  refine Prod.ext ?_ rfl
  decide +kernel

theorem longSum_after_store :
    longSum.SumsFinite ∧
      storeManifest emptyTree longSum (.ofString "out/m.json") = (.ok (), longSumTree) ∧
      loadManifest longSumTree (.ofString "out/m.json") = .ok longSum.reread ∧
      (loadManifest longSumTree (.ofString "out/m.json") = .ok longSum ↔
        ∀ i ∈ longSum.series, ∀ x ∈ i.sum, Json.reread x = x) ∧
      ((∀ i ∈ longSum.series, ∀ x ∈ i.sum, Json.HasExactParts x) →
        loadManifest longSumTree (.ofString "out/m.json") = .ok longSum) :=
  ⟨Manifest.sumsFinite_ofChart "" longSumChart, longSum_stored,
    manifest_after_store (Manifest.sumsFinite_ofChart "" longSumChart) longSum_stored⟩

/-- A sum may come back as its neighbour. -/
theorem not_all_manifests_come_back :
    ¬∀ (t later : FileTree) (m : Manifest) (p : Path), m.SumsFinite →
      storeManifest t m p = (.ok (), later) → loadManifest later p = .ok m := by
  intro hback
  have hload := hback _ _ _ _ (Manifest.sumsFinite_ofChart "" longSumChart) longSum_stored
  have hchanged : (loadManifest longSumTree (.ofString "out/m.json")).toOption ≠
      some longSum := by decide +kernel
  exact hchanged (by rw [hload]; rfl)

end Output

end RewardPlot
