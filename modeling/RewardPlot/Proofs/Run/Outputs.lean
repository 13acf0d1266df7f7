import RewardPlot.Proofs.Run
/-!
# The two outputs of a run

A run that succeeds leaves its manifest at the path of the manifest, and its image at the
path of the image unless both paths lead to one file: then the manifest has replaced it.
Requests are turned down when the two paths are equal component by component, which does
not tell whether they lead to one file.
-/

namespace RewardPlot

/-- No image begins like a manifest does. -/
theorem Image.bytes?_ne_bytes {i : Image} {image : List UInt8} (himage : i.bytes? = some image)
    (m : Manifest) : image ≠ m.bytes := by
  have hmanifest : m.bytes.head? = some 0x7B := rfl
  have hhead : image.head? ≠ some 0x7B := by
    obtain ⟨format, width, height⟩ := i
    obtain ⟨signature, hsignature, rfl⟩ := Option.map_eq_some_iff.mp himage
    cases format <;> cases hsignature <;> simp [ImageFormat.pngSignature]
  intro hsame
  rw [hsame] at hhead
  exact hhead hmanifest

namespace Request

/-- After a run with a manifest its path leads to the manifest.  The path of the image leads to
the image exactly when the two paths lead to different files. -/
theorem outputs_after_run {r : Request} {time : String} {t : FileTree} {p : Path}
    (hpath : r.manifest = some p) (hrun : (r.run time t).1.isOk) :
    ∃ c format image place place',
      collectDirectory t r.directory r.settings = .ok c ∧
      ImageFormat.ofPath? r.output = some format ∧
      Image.bytes? ⟨format, r.settings.width, r.settings.height⟩ = some image ∧
      (r.run time t).2.find p = .ok (place', .file (Manifest.ofChart time c.chart).bytes) ∧
      (r.run time t).2.find r.output = .ok (place, .file
        (if place = place' then (Manifest.ofChart time c.chart).bytes else image)) ∧
      ((r.run time t).2.find r.output = .ok (place, .file image) ↔ place ≠ place') := by
  have hcourse := r.course time t
  generalize r.run time t = outcome at hcourse hrun ⊢
  cases hcourse with
  | uncollected | undrawn | unrecorded => cases hrun
  | drawn hcollect himage hnone => cases hpath.symm.trans hnone
  | @recorded c drawn later q hcollect himage hpath' hmanifest =>
      cases hpath.symm.trans hpath'
      obtain ⟨format, image, place, hformat, hbytes, hdrawn⟩ := Output.storeImage_ok himage
      obtain ⟨place', hfind'⟩ := Output.find_stored hmanifest
      have hsaves := Output.storeManifest_saves hmanifest
      have hfind := hsaves.find_beside hdrawn hfind'
      rw [collectDirectory_settings hcollect] at hbytes
      refine ⟨c, format, image, place, place', hcollect, hformat, hbytes, hfind', hfind, ?_⟩
      rw [hfind]
      constructor
      · rintro hsame rfl
        rw [if_pos rfl] at hsame
        cases hsame
        exact Image.bytes?_ne_bytes hbytes _ rfl
      · intro hother
        rw [if_neg hother]

/-- A request whose two outputs are one file under two names. -/
def oneFileTwice : Request :=
  { directory := .ofString "d", output := .ofString "o.png",
    manifest := some (.ofString "./o.png") }

theorem oneFileTwice_after_run :
    oneFileTwice.manifest = some (.ofString "./o.png") ∧
      (oneFileTwice.run "" oneTrace).1.isOk ∧
      ∃ c format image place place',
        collectDirectory oneTrace oneFileTwice.directory oneFileTwice.settings = .ok c ∧
        ImageFormat.ofPath? oneFileTwice.output = some format ∧
        Image.bytes? ⟨format, oneFileTwice.settings.width, oneFileTwice.settings.height⟩ =
          some image ∧
        (oneFileTwice.run "" oneTrace).2.find (.ofString "./o.png") =
          .ok (place', .file (Manifest.ofChart "" c.chart).bytes) ∧
        (oneFileTwice.run "" oneTrace).2.find oneFileTwice.output = .ok (place, .file
          (if place = place' then (Manifest.ofChart "" c.chart).bytes else image)) ∧
        ((oneFileTwice.run "" oneTrace).2.find oneFileTwice.output =
          .ok (place, .file image) ↔ place ≠ place') := by
  have hrun : (oneFileTwice.run "" oneTrace).1.isOk := by decide +kernel
  exact ⟨rfl, hrun, outputs_after_run rfl hrun⟩

/-- A request that meets no objection may lose its image to its manifest. -/
theorem not_all_images_kept :
    ¬∀ (r : Request) (time : String) (t : FileTree) (p : Path),
      r.objection? = none → r.manifest = some p → (r.run time t).1.isOk →
        ∃ format image place, ImageFormat.ofPath? r.output = some format ∧
          Image.bytes? ⟨format, r.settings.width, r.settings.height⟩ = some image ∧
          (r.run time t).2.find r.output = .ok (place, .file image) := by
  intro hkept
  obtain ⟨format, image, place, hformat, hbytes, hfind⟩ :=
    hkept oneFileTwice "" oneTrace _ (by decide +kernel) rfl (by decide +kernel)
  let plotted : Chart := ⟨{}, [⟨"t.log", .ofText "1,2".toList⟩]⟩
  have hlost : ((oneFileTwice.run "" oneTrace).2.find oneFileTwice.output).toOption.map
      Prod.snd = some (.file (Manifest.ofChart "" plotted).bytes) := by decide +kernel
  rw [hfind] at hlost
  simp only [Except.toOption, Option.map_some, Option.some.injEq, Entry.file.injEq] at hlost
  exact Image.bytes?_ne_bytes hbytes _ hlost

end Request

end RewardPlot
