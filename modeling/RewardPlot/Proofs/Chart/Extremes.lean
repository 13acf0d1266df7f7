import RewardPlot.Proofs.Axis.Inside
/-!
# Extremes over all series

The bounds of a chart are those of the one trace in which the values of all its series follow each
other: to unite the bounds of its parts is to go through all values at once.  So they are the
least and the greatest finite value, and there are none where no value is finite.
-/

namespace RewardPlot

/-! ## Bounds that are united -/

namespace Bounds

instance : Std.Associative union where
  assoc a b c := by
    rw [union, union, union, union, Binary64.min_assoc, Binary64.max_assoc]

/-- All of some bounds united, if there are any. -/
def hull : List Bounds → Option Bounds
  | [] => none
  | b :: bs => some (bs.foldl union b)

theorem hull_append (bs bs' : List Bounds) :
    hull (bs ++ bs') = (hull bs).merge union (hull bs') := by
  cases bs with
  | nil => rw [List.nil_append, hull, Option.merge_none_left]
  | cons b bs =>
      cases bs' with
      | nil => rw [List.append_nil, hull, hull, Option.merge_none_right]
      | cons b' bs' =>
          rw [List.cons_append, hull, hull, hull, Option.merge, List.foldl_append, List.foldl_cons,
            List.foldl_assoc]

/-- To unite the hulls of parts is to unite everything. -/
theorem hull_filterMap_hull {α : Type} (parts : α → List Bounds) (xs : List α) :
    hull (xs.filterMap fun x => hull (parts x)) = hull (xs.flatMap parts) := by
  induction xs with
  | nil => rfl
  | cons x xs ih =>
      rw [List.flatMap_cons, hull_append, ← ih]
      cases hx : hull (parts x) with
      | none => simp only [List.filterMap_cons, hx, Option.merge_none_left]
      | some b =>
          simp only [List.filterMap_cons, hx]
          exact hull_append [b] _

theorem hull_eq_none_iff {bs : List Bounds} : hull bs = none ↔ bs = [] := by
  cases bs <;> simp [hull]

end Bounds

namespace Trace

theorem bounds?_eq_hull (t : Trace) : t.bounds? = Bounds.hull (t.drawable.map point) := by
  rw [bounds?]
  cases t.drawable with
  | nil => rfl
  | cons v vs => rw [List.map_cons, Bounds.hull, List.foldl_map]; rfl

/-- A trace in which the values of some others follow each other. -/
def joined (ts : List Trace) : Trace := ⟨ts.flatMap values⟩

theorem drawable_joined (ts : List Trace) : (joined ts).drawable = ts.flatMap drawable := by
  rw [drawable, present, joined, List.filterMap_flatMap, List.filter_flatMap]
  rfl

theorem mem_drawable_iff {t : Trace} {v : Binary64} :
    v ∈ t.drawable ↔ some v ∈ t.values ∧ v.isFinite := by
  rw [drawable, List.mem_filter, present, List.mem_filterMap]
  simp

theorem bounds?_eq_none_iff {t : Trace} : t.bounds? = none ↔ t.drawable = [] := by
  rw [bounds?_eq_hull, Bounds.hull_eq_none_iff, List.map_eq_nil_iff]

/-- The bounds of a trace are two of its finite values, and the others lie between them. -/
theorem extremes_of_bounds? {t : Trace} {b : Bounds} (hb : t.bounds? = some b) :
    b.low ∈ t.drawable ∧ b.high ∈ t.drawable ∧ ∀ v ∈ t.drawable, b.low ≤ v ∧ v ≤ b.high := by
  have hspans := bounds?_spans hb
  obtain ⟨x, hx, hlow⟩ := hspans.low_mem
  obtain ⟨y, hy, hhigh⟩ := hspans.high_mem
  obtain ⟨v, hv, rfl⟩ := List.mem_map.mp hx
  obtain ⟨w, hw, rfl⟩ := List.mem_map.mp hy
  refine ⟨hlow ▸ hv, hhigh ▸ hw, fun u hu => ?_⟩
  have hpoint : point u ∈ t.drawable.map point := List.mem_map_of_mem hu
  exact ⟨hspans.low_le _ hpoint, hspans.le_high _ hpoint⟩

end Trace

namespace Chart

theorem bounds?_eq_hull (c : Chart) :
    c.bounds? = Bounds.hull (c.series.filterMap (·.trace.bounds?)) := by
  rw [bounds?]
  cases c.series.filterMap (·.trace.bounds?) <;> rfl

/-- The bounds of the parts united are the bounds of the whole. -/
theorem bounds?_eq_joined (c : Chart) :
    c.bounds? = (Trace.joined (c.series.map Series.trace)).bounds? := by
  rw [bounds?_eq_hull, Trace.bounds?_eq_hull, Trace.drawable_joined, List.map_flatMap,
    List.flatMap_map]
  simp only [Trace.bounds?_eq_hull]
  exact Bounds.hull_filterMap_hull _ _

theorem series_foldl_add (added : List Series) (c : Chart) :
    (added.foldl add c).series = c.series ++ added := by
  induction added generalizing c with
  | nil => exact (List.append_nil _).symm
  | cons s added ih => rw [List.foldl_cons, ih, add, List.append_assoc, List.singleton_append]

theorem exists_of_foldl_max (l : List Nat) : l = [] ∨ l.foldl max 0 ∈ l := by
  induction l with
  | nil => exact .inl rfl
  | cons m l ih =>
      right
      rw [List.foldl_cons, Trace.foldl_max_eq, Nat.zero_max]
      rcases ih with rfl | ih
      · simp
      · rcases Nat.le_total m (l.foldl max 0) with hle | hle
        · rw [Nat.max_eq_right hle]
          exact List.mem_cons_of_mem m ih
        · rw [Nat.max_eq_left hle]
          exact List.mem_cons_self

/-- A chart to which series were added one after the other has no bounds just where none of them
has a finite value.  Else both bounds are values of some series, and all finite values lie
between them.  They are the bounds of the one trace in which all series follow each other.  The
length is that of the longest series. -/
theorem extremes_of_added (settings : Settings) (added : List Series) :
    let c := added.foldl add (.empty settings)
    (c.bounds? = none ↔
      ∀ s ∈ added, ∀ v, some v ∈ s.trace.values → v.isFinite = false) ∧
    (∀ b, c.bounds? = some b →
      (∃ s ∈ added, some b.low ∈ s.trace.values) ∧
      (∃ s ∈ added, some b.high ∈ s.trace.values) ∧
      ∀ s ∈ added, ∀ v, some v ∈ s.trace.values → v.isFinite → b.low ≤ v ∧ v ≤ b.high) ∧
    c.bounds? = (Trace.joined (added.map Series.trace)).bounds? ∧
    (∀ s ∈ added, s.trace.length ≤ c.maxLength) ∧
    (added = [] ∧ c.maxLength = 0 ∨ ∃ s ∈ added, s.trace.length = c.maxLength) := by
  intro c
  have hseries : c.series = added := series_foldl_add added _
  have hjoined : c.bounds? = (Trace.joined (added.map Series.trace)).bounds? := by
    rw [bounds?_eq_joined, hseries]
  have hdrawable : ∀ v, v ∈ (Trace.joined (added.map Series.trace)).drawable ↔
      ∃ s ∈ added, some v ∈ s.trace.values ∧ v.isFinite := by
    intro v
    simp only [Trace.drawable_joined, List.flatMap_map, List.mem_flatMap, Trace.mem_drawable_iff]
  refine ⟨?_, fun b hb => ?_, hjoined, ?_, ?_⟩
  · rw [hjoined, Trace.bounds?_eq_none_iff, List.eq_nil_iff_forall_not_mem]
    simp only [hdrawable, not_exists, not_and, Bool.not_eq_true]
    exact ⟨fun h s hs v hv => h v s hs hv, fun h v s hs hv => h s hs v hv⟩
  · obtain ⟨hlow, hhigh, hbetween⟩ := Trace.extremes_of_bounds? (hjoined ▸ hb)
    obtain ⟨s, hs, hlow, -⟩ := (hdrawable _).mp hlow
    obtain ⟨s', hs', hhigh, -⟩ := (hdrawable _).mp hhigh
    refine ⟨⟨s, hs, hlow⟩, ⟨s', hs', hhigh⟩, fun r hr v hv hfinite => ?_⟩
    exact hbetween v ((hdrawable v).mpr ⟨r, hr, hv, hfinite⟩)
  · intro s hs
    exact length_le_maxLength (hseries ▸ hs)
  · rw [maxLength, hseries]
    rcases exists_of_foldl_max (added.map (·.trace.length)) with hnil | hmem
    · rw [List.map_eq_nil_iff] at hnil
      exact .inl ⟨hnil, by rw [hnil]; rfl⟩
    · exact .inr (List.mem_map.mp hmem)

end Chart

end RewardPlot
