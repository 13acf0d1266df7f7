import RewardPlot.Text.Blank
import Mathlib.Data.List.TakeWhile
/-!
# Splitting texts and blank ends

White space at the ends of a text does not show in what its pieces are read as, so a
reader that trims each piece may as well be given the pieces of the trimmed text.
-/

namespace RewardPlot.Text

/-! ## Pieces between separators -/

theorem length_splitOn {α : Type} [BEq α] (sep : α) (text : List α) :
    (text.splitOn sep).length = text.count sep + 1 := by
  induction text with
  | nil => rfl
  | cons x xs ih =>
      rw [List.splitOn_cons_eq_if_modifyHead, List.count_cons]
      split
      · rw [List.length_cons, ih]
      · rw [List.length_modifyHead, ih, Nat.add_zero]

section Split

variable {α β : Type} [BEq α] [LawfulBEq α] {sep c : α} {f : List α → β}

/-- Text without a separator that is put behind another one only makes its last piece
longer. -/
theorem exists_splitOn_append {back : List α} (hback : sep ∉ back) (text : List α) :
    ∃ pieces last, text.splitOn sep = pieces ++ [last] ∧
      (text ++ back).splitOn sep = pieces ++ [last ++ back] := by
  induction text with
  | nil => exact ⟨[], [], rfl, by simp [List.splitOn_eq_singleton hback]⟩
  | cons x xs ih =>
      obtain ⟨pieces, last, hxs, hback⟩ := ih
      rw [List.cons_append, List.splitOn_cons_eq_if_modifyHead,
        List.splitOn_cons_eq_if_modifyHead, hxs, hback]
      by_cases hx : (x == sep) = true
      · exact ⟨[] :: pieces, last, by simp [hx], by simp [hx]⟩
      · cases pieces with
        | nil => exact ⟨[], x :: last, by simp [hx], by simp [hx]⟩
        | cons piece pieces =>
            exact ⟨(x :: piece) :: pieces, last, by simp [hx], by simp [hx]⟩

/-- Text in front that a reader of pieces passes over changes nothing. -/
theorem map_splitOn_append_left {front : List α} (hfront : sep ∉ front)
    (hf : ∀ c ∈ front, ∀ piece, f (c :: piece) = f piece) (text : List α) :
    ((front ++ text).splitOn sep).map f = (text.splitOn sep).map f := by
  induction front with
  | nil => rfl
  | cons c front ih =>
      have hne : (c == sep) = false := beq_eq_false_iff_ne.mpr fun h => hfront (by simp [h])
      have ih := ih (fun h => hfront (by simp [h])) fun d hd => hf d (by simp [hd])
      rw [List.cons_append, List.splitOn_cons_eq_if_modifyHead, hne,
        if_neg Bool.false_ne_true, ← ih]
      have hpieces := List.splitOn_ne_nil sep (front ++ text)
      cases hcases : (front ++ text).splitOn sep with
      | nil => exact absurd hcases hpieces
      | cons piece pieces => simp [hf c (by simp)]

/-- Text behind that a reader of pieces passes over changes nothing. -/
theorem map_splitOn_append_right {back : List α} (hback : sep ∉ back)
    (hf : ∀ piece, f (piece ++ back) = f piece) (text : List α) :
    ((text ++ back).splitOn sep).map f = (text.splitOn sep).map f := by
  obtain ⟨pieces, last, htext, happend⟩ := exists_splitOn_append hback text
  rw [htext, happend]
  simp [hf]

theorem not_mem_of_mem_splitOn {text piece : List α} (hpiece : piece ∈ text.splitOn sep) :
    sep ∉ piece := by
  induction text generalizing piece with
  | nil => simp_all
  | cons x xs ih =>
      rw [List.splitOn_cons_eq_if_modifyHead] at hpiece
      split at hpiece
      · rcases List.mem_cons.mp hpiece with rfl | hpiece
        · exact List.not_mem_nil
        · exact ih hpiece
      · next hx =>
        have hx : sep ≠ x := fun hsame => hx (by simp [hsame])
        cases hcases : xs.splitOn sep with
        | nil => exact absurd hcases (List.splitOn_ne_nil sep xs)
        | cons first pieces =>
            rw [hcases] at hpiece ih
            rcases List.mem_cons.mp hpiece with rfl | hpiece
            · simp [hx, ih List.mem_cons_self]
            · exact ih (List.mem_cons_of_mem first hpiece)

/-! ## The text before a separator -/

theorem takeWhile_ne_append_of_mem {front : List α} (hfront : sep ∈ front) (rest : List α) :
    (front ++ rest).takeWhile (· != sep) = front.takeWhile (· != sep) := by
  induction front with
  | nil => cases hfront
  | cons c front ih =>
      rw [List.cons_append, List.takeWhile_cons, List.takeWhile_cons]
      split
      · next hc =>
        have hfront : sep ∈ front := by
          rcases List.mem_cons.mp hfront with rfl | hfront
          · simp at hc
          · exact hfront
        rw [ih hfront]
      · rfl

theorem takeWhile_ne_append_of_not_mem {front : List α} (hfront : sep ∉ front) (rest : List α) :
    (front ++ rest).takeWhile (· != sep) = front ++ rest.takeWhile (· != sep) := by
  apply List.takeWhile_append_of_pos
  intro c hc
  exact bne_iff_ne.mpr fun hsame => hfront (hsame ▸ hc)

theorem takeWhile_ne_eq_self {text : List α} (htext : sep ∉ text) :
    text.takeWhile (· != sep) = text := by
  have happend := takeWhile_ne_append_of_not_mem htext []
  rwa [List.append_nil, List.takeWhile_nil, List.append_nil] at happend

theorem takeWhile_ne_append_cons {front : List α} (hfront : sep ∉ front) (rest : List α) :
    (front ++ sep :: rest).takeWhile (· != sep) = front := by
  rw [takeWhile_ne_append_of_not_mem hfront, List.takeWhile_cons_of_neg (by simp),
    List.append_nil]

end Split

/-- After the first piece each one follows its separator. -/
theorem intercalate_cons {α : Type} (sep first : List α) (pieces : List (List α)) :
    sep.intercalate (first :: pieces) = first ++ pieces.flatMap (sep ++ ·) := by
  induction pieces generalizing first with
  | nil => simp
  | cons second pieces ih => simp [List.intercalate_cons_cons, ih]

/-! ## Trimming -/

section Trim

variable {α : Type} {p : α → Bool}

theorem trimBy_append_left {front : List α} (hfront : ∀ c ∈ front, p c) (text : List α) :
    trimBy p (front ++ text) = trimBy p text := by
  unfold trimBy
  rw [List.dropWhile_append_of_pos hfront]

theorem trimBy_cons {c : α} (hc : p c) (text : List α) : trimBy p (c :: text) = trimBy p text := by
  have hfront : ∀ d ∈ [c], p d := by simpa using hc
  exact trimBy_append_left hfront text

theorem trimBy_append_right {back : List α} (hback : ∀ c ∈ back, p c) (text : List α) :
    trimBy p (text ++ back) = trimBy p text := by
  unfold trimBy
  rw [List.dropWhile_append]
  split
  · next h =>
    rw [List.isEmpty_iff] at h
    rw [h, List.dropWhile_eq_nil_iff.mpr hback]
  · rw [List.reverse_append, List.dropWhile_append_of_pos]
    simpa using hback

/-- A text in which no element satisfies the test is left as it is. -/
theorem trimBy_eq_self {text : List α} (htext : ∀ c ∈ text, p c = false) :
    trimBy p text = text := by
  have hdrop : ∀ xs : List α, (∀ c ∈ xs, p c = false) → xs.dropWhile p = xs := by
    intro xs hxs
    cases xs with
    | nil => rfl
    | cons c xs => simp [hxs c]
  unfold trimBy
  rw [hdrop text htext, hdrop _ (by simpa using htext), List.reverse_reverse]

theorem exists_eq_append_trimBy (p : α → Bool) (text : List α) :
    ∃ front back, text = front ++ trimBy p text ++ back ∧
      (∀ c ∈ front, p c) ∧ ∀ c ∈ back, p c := by
  refine ⟨text.takeWhile p, ((text.dropWhile p).reverse.takeWhile p).reverse, ?_, ?_, ?_⟩
  · unfold trimBy
    rw [List.append_assoc, ← List.reverse_append, List.takeWhile_append_dropWhile,
      List.reverse_reverse, List.takeWhile_append_dropWhile]
  · exact fun c hc => List.mem_takeWhile_imp hc
  · intro c hc
    exact List.mem_takeWhile_imp (List.mem_reverse.mp hc)

theorem trimBy_eq_nil_iff {text : List α} : trimBy p text = [] ↔ ∀ c ∈ text, p c := by
  unfold trimBy
  rw [List.reverse_eq_nil_iff, List.dropWhile_eq_nil_iff]
  constructor
  · intro h c hc
    rw [← List.takeWhile_append_dropWhile (p := p) (l := text), List.mem_append] at hc
    rcases hc with hc | hc
    · exact List.mem_takeWhile_imp hc
    · exact h c (List.mem_reverse.mpr hc)
  · intro h c hc
    exact h c ((List.dropWhile_sublist p).subset (List.mem_reverse.mp hc))

/-- An element that fails the test is never dropped. -/
theorem mem_trimBy {text : List α} {c : α} (hmem : c ∈ text) (hc : p c = false) :
    c ∈ trimBy p text := by
  obtain ⟨front, back, htext, hfront, hback⟩ := exists_eq_append_trimBy p text
  rw [htext, List.mem_append, List.mem_append] at hmem
  rcases hmem with (hmem | hmem) | hmem
  · exact absurd (hfront c hmem) (by simp [hc])
  · exact hmem
  · exact absurd (hback c hmem) (by simp [hc])

end Trim

end RewardPlot.Text
