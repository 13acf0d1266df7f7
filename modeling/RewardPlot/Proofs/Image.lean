import RewardPlot.Proofs.Manifest.RoundTrip
/-!
# Image files and their formats

The header of a PNG file gives back the size that was written into it, and no file of another
format begins as a PNG file does.  So an image that was stored is a PNG image of the size of its
chart exactly when the extension of its path names that format.
-/

namespace RewardPlot

namespace Image

/-! ## Headers -/

/-- Each bit of a number lies in one of its four bytes. -/
theorem ofBigEndian_bigEndian (n : UInt32) :
    ofBigEndian (n >>> 24).toUInt8 (n >>> 16).toUInt8 (n >>> 8).toUInt8 n.toUInt8 = n := by
  apply UInt32.toBitVec_inj.mp
  apply BitVec.eq_of_getLsbD_eq
  intro i hi
  simp only [ofBigEndian, UInt32.toBitVec_or, UInt32.toBitVec_shiftLeft,
    UInt32.toBitVec_shiftRight, UInt8.toBitVec_toUInt32, UInt32.toBitVec_toUInt8,
    UInt32.toBitVec_ofNat, BitVec.getLsbD_or, BitVec.shiftLeft_eq', BitVec.ushiftRight_eq',
    BitVec.getLsbD_shiftLeft, BitVec.getLsbD_ushiftRight, BitVec.getLsbD_setWidth,
    BitVec.toNat_umod, BitVec.toNat_ofNat, Nat.reduceMod, Nat.reducePow]
  grind

theorem pngSize?_eq_some {i : Image} {image : List UInt8} (himage : i.bytes? = some image)
    (hformat : i.format = .png) : pngSize? image = some (i.width, i.height) := by
  have hstart : image = (ImageFormat.pngSignature ++ headerBlock) ++
      (bigEndian i.width ++ bigEndian i.height) := by
    rw [bytes?, header, if_pos hformat, hformat] at himage
    rw [List.append_assoc, ← List.append_assoc headerBlock]
    exact (Option.some.inj himage).symm
  rw [pngSize?, hstart, if_pos (List.isPrefixOf_iff_prefix.mpr (List.prefix_append _ _)),
    List.drop_left]
  show some (ofBigEndian _ _ _ _, ofBigEndian _ _ _ _) = _
  rw [ofBigEndian_bigEndian, ofBigEndian_bigEndian]

theorem signature_prefix_bytes {i : Image} {image : List UInt8}
    (himage : i.bytes? = some image) :
    ∃ signature, i.format.signature? = some signature ∧ signature <+: image := by
  obtain ⟨signature, hsignature, rfl⟩ := Option.map_eq_some_iff.mp himage
  exact ⟨signature, hsignature, List.prefix_append signature _⟩

/-- The first byte already tells another format from PNG. -/
theorem pngSize?_eq_none {i : Image} {image : List UInt8} (himage : i.bytes? = some image)
    (hformat : i.format ≠ .png) : pngSize? image = none := by
  have hhead : image.head? ≠ some 0x89 := by
    obtain ⟨format, width, height⟩ := i
    obtain ⟨signature, hsignature, rfl⟩ := Option.map_eq_some_iff.mp himage
    cases format <;> cases hsignature <;> simp at hformat ⊢
  rw [pngSize?]
  apply if_neg
  intro hstart
  obtain ⟨rest, rfl⟩ := List.isPrefixOf_iff_prefix.mp hstart
  exact hhead rfl

end Image

namespace Output

theorem sizeFits_of_saveImage {t later : FileTree} {c : Chart} {p : Path}
    (hsaved : saveImage c p t = (.ok (), later)) : c.settings.sizeFits := by
  rw [saveImage] at hsaved
  by_contra hsize
  rw [if_pos (by simpa using hsize)] at hsaved
  cases hsaved

theorem sizeFits_of_storeImage {t later : FileTree} {c : Chart} {p : Path}
    (hstored : storeImage t c p = (.ok (), later)) : c.settings.sizeFits := by
  rcases atPath_cases hstored with ⟨fault, hfault, -⟩ | ⟨ready, -, hsaved⟩
  · cases hfault
  · exact sizeFits_of_saveImage hsaved

theorem sizeFits_iff {s : Chart.Settings} :
    s.sizeFits ↔ (1 ≤ s.width ∧ s.width ≤ Chart.mostPixels) ∧
      1 ≤ s.height ∧ s.height ≤ Chart.mostPixels := by
  have hone : ∀ n : UInt32, 0 < n ↔ 1 ≤ n := by
    intro n
    rw [UInt32.lt_iff_toNat_lt, UInt32.le_iff_toNat_le]
    exact Iff.rfl
  simp only [Chart.Settings.sizeFits, Bool.and_eq_true, decide_eq_true_eq, hone]
  constructor
  · rintro ⟨⟨⟨hwidth, hheight⟩, hwidth'⟩, hheight'⟩
    exact ⟨⟨hwidth, hwidth'⟩, hheight, hheight'⟩
  · rintro ⟨⟨hwidth, hwidth'⟩, hheight, hheight'⟩
    exact ⟨⟨⟨hwidth, hheight⟩, hwidth'⟩, hheight'⟩

/-- The path of an image that was stored leads to a file in the format of its extension.  The
file has the size of the chart in a PNG header if the extension names that format; in another
format it is no PNG image.  The sides of the chart have at least one pixel and not too many. -/
theorem image_after_store {t later : FileTree} {c : Chart} {p : Path}
    (hstored : storeImage t c p = (.ok (), later)) :
    ((1 ≤ c.settings.width ∧ c.settings.width ≤ Chart.mostPixels) ∧
      1 ≤ c.settings.height ∧ c.settings.height ≤ Chart.mostPixels) ∧
      ∃ format signature image place, ImageFormat.ofPath? p = some format ∧
        format.signature? = some signature ∧ signature <+: image ∧
        later.find p = .ok (place, .file image) ∧
        (format = .png →
          Image.pngSize? image = some (c.settings.width, c.settings.height)) ∧
        (format ≠ .png → Image.pngSize? image = none) := by
  obtain ⟨format, image, place, hformat, hbytes, hfind⟩ := storeImage_ok hstored
  obtain ⟨signature, hsignature, hprefix⟩ := Image.signature_prefix_bytes hbytes
  refine ⟨sizeFits_iff.mp (sizeFits_of_storeImage hstored), format, signature, image, place,
    hformat, hsignature, hprefix, hfind, ?_, ?_⟩
  · exact Image.pngSize?_eq_some hbytes
  · exact Image.pngSize?_eq_none hbytes

/-- A chart without series that is to become a small image. -/
def smallChart : Chart := .empty { width := 320, height := 240 }

def photoTree : FileTree := (storeImage emptyTree smallChart (.ofString "out/chart.JPG")).2

theorem smallChart_stored :
    storeImage emptyTree smallChart (.ofString "out/chart.JPG") = (.ok (), photoTree) := by
  refine Prod.ext ?_ rfl
  decide +kernel

theorem smallChart_after_store :
    storeImage emptyTree smallChart (.ofString "out/chart.JPG") = (.ok (), photoTree) ∧
      ((1 ≤ smallChart.settings.width ∧ smallChart.settings.width ≤ Chart.mostPixels) ∧
        1 ≤ smallChart.settings.height ∧ smallChart.settings.height ≤ Chart.mostPixels) ∧
      ∃ format signature image place,
        ImageFormat.ofPath? (.ofString "out/chart.JPG") = some format ∧
        format.signature? = some signature ∧ signature <+: image ∧
        photoTree.find (.ofString "out/chart.JPG") = .ok (place, .file image) ∧
        (format = .png → Image.pngSize? image =
          some (smallChart.settings.width, smallChart.settings.height)) ∧
        (format ≠ .png → Image.pngSize? image = none) :=
  ⟨smallChart_stored, image_after_store smallChart_stored⟩

/-- An image that was stored may be in another format than PNG. -/
theorem not_all_images_png :
    ¬∀ (t later : FileTree) (c : Chart) (p : Path), storeImage t c p = (.ok (), later) →
      ∃ image place, later.find p = .ok (place, .file image) ∧
        Image.pngSize? image = some (c.settings.width, c.settings.height) := by
  intro hpng
  obtain ⟨image, place, hfind, hsize⟩ := hpng _ _ _ _ smallChart_stored
  have hread := FileTree.read_of_find hfind
  have hphoto : (photoTree.read (.ofString "out/chart.JPG")).toOption.bind Image.pngSize? =
      none := by decide +kernel
  rw [hread] at hphoto
  cases hsize.symm.trans hphoto

end Output

end RewardPlot
