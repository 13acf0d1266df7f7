import RewardPlot.Trace.Basic
/-!
# The points of the drawn runs

The runs of a trace, put together, are its finite values in order, each with its position.
-/

namespace RewardPlot.Trace

/-- The finite values from a position on, each with its position. -/
def pointsFrom (i : Nat) (values : List (Option Binary64)) : List Point :=
  (values.zipIdx i).filterMap fun entry => (drawn? entry.1).map (entry.2, ·)

def points (t : Trace) : List Point := pointsFrom 0 t.values

theorem drawn?_eq_some {value : Option Binary64} {v : Binary64} :
    drawn? value = some v ↔ value = some v ∧ v.isFinite := by
  cases value with
  | none => simp [drawn?]
  | some w =>
      rw [drawn?]
      split
      · next hw =>
        constructor
        · rintro ⟨⟩
          exact ⟨rfl, hw⟩
        · rintro ⟨⟨⟩, -⟩
          rfl
      · next hw =>
        constructor
        · exact nofun
        · rintro ⟨⟨⟩, hfinite⟩
          exact absurd hfinite hw

theorem flatten_closed (run : List Point) : (closed run).flatten = run.reverse := by
  unfold closed
  split
  · next hrun => rw [hrun]; rfl
  · rw [List.flatten_singleton]

/-- An unfinished run comes before the points that are still to be seen. -/
theorem flatten_runsFrom (i : Nat) (run : List Point) (values : List (Option Binary64)) :
    (runsFrom i run values).flatten = run.reverse ++ pointsFrom i values := by
  induction values generalizing i run with
  | nil => rw [runsFrom, flatten_closed, pointsFrom, List.zipIdx_nil, List.filterMap_nil,
      List.append_nil]
  | cons value values ih =>
      rw [runsFrom, pointsFrom, List.zipIdx_cons, List.filterMap_cons]
      cases drawn? value with
      | none =>
          dsimp only [Option.map_none]
          rw [List.flatten_append, flatten_closed, ih]
          rfl
      | some v =>
          dsimp only [Option.map_some]
          rw [ih, List.reverse_cons, List.append_assoc]
          rfl

theorem flatten_segments (t : Trace) : t.segments.flatten = t.points := flatten_runsFrom 0 [] _

theorem mem_points_iff {t : Trace} {p : Point} :
    p ∈ t.points ↔ t.values[p.1]? = some (some p.2) ∧ p.2.isFinite := by
  obtain ⟨i, v⟩ := p
  unfold points pointsFrom
  simp only [List.mem_filterMap, Prod.exists, Option.map_eq_some_iff, drawn?_eq_some,
    List.mk_mem_zipIdx_iff_getElem?, Prod.mk.injEq]
  constructor
  · rintro ⟨_, j, hvalue, w, ⟨rfl, hfinite⟩, rfl, rfl⟩
    exact ⟨hvalue, hfinite⟩
  · rintro ⟨hvalue, hfinite⟩
    exact ⟨_, i, hvalue, v, ⟨rfl, hfinite⟩, rfl, rfl⟩

theorem mem_points_of_mem_segments {t : Trace} {run : List Point} {p : Point}
    (hrun : run ∈ t.segments) (hp : p ∈ run) : p ∈ t.points := by
  rw [← flatten_segments]
  exact List.mem_flatten_of_mem hrun hp

end RewardPlot.Trace
