import RewardPlot.Proofs.Trace.Segments
import Mathlib.Data.List.Sort
import Mathlib.Data.List.SplitBy
/-!
# Maximal runs

The drawn runs of a trace go through all of its finite values in order.  A run does not skip a
position, and between two runs there is one that cannot be drawn, so no run could be longer and
there is no other way to cut the values into such runs.
-/

namespace RewardPlot.Trace

/-- The second point is at the next position. -/
def Follows (p q : Point) : Prop := q.1 = p.1 + 1

/-- A position of a trace whose value is missing or not finite. -/
def Gap (t : Trace) (i : Nat) : Prop :=
  t.values[i]? = some none ∨ ∃ v, t.values[i]? = some (some v) ∧ v.isFinite = false

/-- Between the last point of a run and the first one of another there is a gap. -/
def Separated (t : Trace) (run next : List Point) : Prop :=
  ∃ p ∈ run.getLast?, ∃ q ∈ next.head?, ∃ i, p.1 < i ∧ i < q.1 ∧ t.Gap i

/-- The finite values of a trace in order, cut at its gaps and nowhere else. -/
structure MaximalRuns (t : Trace) (runs : List (List Point)) : Prop where
  mem_iff : ∀ i v, (i, v) ∈ runs.flatten ↔ t.values[i]? = some (some v) ∧ v.isFinite
  ordered : runs.flatten.Pairwise fun p q => p.1 < q.1
  nonempty : ∀ run ∈ runs, run ≠ []
  consecutive : ∀ run ∈ runs, run.IsChain Follows
  separated : runs.IsChain t.Separated

/-! ## The points of a trace -/

theorem pointsFrom_cons (i : Nat) (value : Option Binary64) (values : List (Option Binary64)) :
    pointsFrom i (value :: values) =
      ((drawn? value).map (i, ·)).toList ++ pointsFrom (i + 1) values := by
  rw [pointsFrom, List.zipIdx_cons, List.filterMap_cons, pointsFrom]
  cases drawn? value <;> rfl

theorem le_of_mem_pointsFrom {i : Nat} {values : List (Option Binary64)} {p : Point}
    (hp : p ∈ pointsFrom i values) : i ≤ p.1 := by
  obtain ⟨⟨value, j⟩, hentry, hpoint⟩ := List.mem_filterMap.mp hp
  obtain ⟨v, -, rfl⟩ := Option.map_eq_some_iff.mp hpoint
  exact List.le_snd_of_mem_zipIdx hentry

theorem pointsFrom_ordered (i : Nat) (values : List (Option Binary64)) :
    (pointsFrom i values).Pairwise fun p q => p.1 < q.1 := by
  induction values generalizing i with
  | nil => exact .nil
  | cons value values ih =>
      rw [pointsFrom_cons]
      cases drawn? value with
      | none => exact ih (i + 1)
      | some v =>
          refine List.pairwise_cons.mpr ⟨fun q hq => ?_, ih (i + 1)⟩
          exact Nat.lt_of_succ_le (le_of_mem_pointsFrom hq)

/-! ## Unfinished runs -/

/-- An unfinished run, last point first, that comes up to a position. -/
structure Unfinished (i : Nat) (run : List Point) : Prop where
  consecutive : run.IsChain fun q p => Follows p q
  upTo : ∀ p ∈ run.head?, i = p.1 + 1

theorem unfinished_nil (i : Nat) : Unfinished i [] := ⟨.nil, by simp⟩

theorem Unfinished.cons {i : Nat} {run : List Point} (hrun : Unfinished i run) (v : Binary64) :
    Unfinished (i + 1) ((i, v) :: run) :=
  ⟨List.isChain_cons.mpr ⟨hrun.upTo, hrun.consecutive⟩, by simp⟩

theorem mem_closed_iff {run done : List Point} :
    done ∈ closed run ↔ run ≠ [] ∧ done = run.reverse := by
  unfold closed
  split <;> simp_all

/-- Whatever follows, the runs are not empty and skip no position. -/
theorem consecutive_of_mem_runsFrom {i : Nat} {run done : List Point} (hrun : Unfinished i run)
    {values : List (Option Binary64)} (hdone : done ∈ runsFrom i run values) :
    done ≠ [] ∧ done.IsChain Follows := by
  have hclosed : ∀ {i : Nat} {run : List Point}, Unfinished i run → done ∈ closed run →
      done ≠ [] ∧ done.IsChain Follows := by
    intro i run hrun hdone
    obtain ⟨hsome, rfl⟩ := mem_closed_iff.mp hdone
    exact ⟨mt List.reverse_eq_nil_iff.mp hsome, List.isChain_reverse.mpr hrun.consecutive⟩
  induction values generalizing i run with
  | nil => exact hclosed hrun hdone
  | cons value values ih =>
      rw [runsFrom] at hdone
      split at hdone
      · next v hv => exact ih (hrun.cons v) hdone
      · rcases List.mem_append.mp hdone with hdone | hdone
        · exact hclosed hrun hdone
        · exact ih (unfinished_nil (i + 1)) hdone

theorem gap_of_drawn? {t : Trace} {i : Nat} {value : Option Binary64}
    (hvalue : t.values[i]? = some value) (hdrawn : drawn? value = none) : t.Gap i := by
  cases value with
  | none => exact .inl hvalue
  | some v =>
      refine .inr ⟨v, hvalue, ?_⟩
      rw [← Bool.not_eq_true]
      intro hfinite
      rw [drawn?, if_pos hfinite] at hdrawn
      cases hdrawn

/-- An unfinished run and the runs behind a gap are separated by it. -/
theorem separated_of_gap {t : Trace} {i : Nat} {run done next : List Point}
    {values : List (Option Binary64)} (hgap : t.Gap i) (hrun : Unfinished i run)
    (hdone : done ∈ closed run) (hnext : next ∈ runsFrom (i + 1) [] values) :
    t.Separated done next := by
  obtain ⟨hsome, rfl⟩ := mem_closed_iff.mp hdone
  obtain ⟨p, rest, rfl⟩ := List.exists_cons_of_ne_nil hsome
  obtain ⟨hnonempty, -⟩ := consecutive_of_mem_runsFrom (unfinished_nil (i + 1)) hnext
  obtain ⟨q, more, rfl⟩ := List.exists_cons_of_ne_nil hnonempty
  have hp : i = p.1 + 1 := hrun.upTo p rfl
  have hq : q ∈ pointsFrom (i + 1) values := by
    have hflatten := flatten_runsFrom (i + 1) [] values
    rw [List.reverse_nil, List.nil_append] at hflatten
    rw [← hflatten]
    exact List.mem_flatten_of_mem hnext List.mem_cons_self
  have hle := le_of_mem_pointsFrom hq
  exact ⟨p, by simp, q, rfl, i, by omega, by omega, hgap⟩

/-- The values that are still to be seen are those behind the ones seen so far. -/
theorem separated_runsFrom {t : Trace} {seen values : List (Option Binary64)}
    (hvalues : t.values = seen ++ values) (run : List Point)
    (hrun : Unfinished seen.length run) :
    (runsFrom seen.length run values).IsChain t.Separated := by
  have hclosed : ∀ run, (closed run).IsChain t.Separated := by
    intro run
    unfold closed
    split
    · exact .nil
    · exact .singleton _
  induction values generalizing seen run with
  | nil => exact hclosed run
  | cons value values ih =>
      have hnext : t.values = (seen ++ [value]) ++ values := by simp [hvalues]
      have hlength : (seen ++ [value]).length = seen.length + 1 := by simp
      have ih := ih hnext
      rw [hlength] at ih
      rw [runsFrom]
      split
      · next v hv => exact ih _ (hrun.cons v)
      · next hdrawn =>
        have hvalue : t.values[seen.length]? = some value := by simp [hvalues]
        refine (hclosed run).append (ih [] (unfinished_nil _)) fun done hdone next hnext => ?_
        exact separated_of_gap (gap_of_drawn? hvalue hdrawn) hrun
          (List.mem_of_mem_getLast? hdone) (List.mem_of_mem_head? hnext)

/-! ## The runs of a trace -/

theorem segments_maximalRuns (t : Trace) : t.MaximalRuns t.segments where
  mem_iff i v := by rw [flatten_segments, mem_points_iff]
  ordered := by
    rw [flatten_segments]
    exact pointsFrom_ordered 0 t.values
  nonempty _ hrun := (consecutive_of_mem_runsFrom (unfinished_nil 0) hrun).1
  consecutive _ hrun := (consecutive_of_mem_runsFrom (unfinished_nil 0) hrun).2
  separated := separated_runsFrom (List.nil_append _).symm [] (unfinished_nil 0)

instance : DecidableRel Follows := fun p q => inferInstanceAs (Decidable (q.1 = p.1 + 1))

theorem Separated.not_follows {t : Trace} {run next : List Point} (h : t.Separated run next) :
    ∃ hrun hnext, decide (Follows (run.getLast hrun) (next.head hnext)) = false := by
  obtain ⟨p, hp, q, hq, i, hlow, hhigh, -⟩ := h
  have hrun : run ≠ [] := List.ne_nil_of_mem (List.mem_of_mem_getLast? hp)
  have hnext : next ≠ [] := List.ne_nil_of_mem (List.mem_of_mem_head? hq)
  refine ⟨hrun, hnext, ?_⟩
  rw [List.getLast_of_mem_getLast? hp, List.head_of_mem_head? hq, decide_eq_false_iff_not, Follows]
  omega

/-- Runs that are maximal are the points of the trace, cut wherever a position is skipped. -/
theorem MaximalRuns.eq_splitBy {t : Trace} {runs : List (List Point)} (h : t.MaximalRuns runs) :
    runs = t.points.splitBy fun p q => Follows p q := by
  have hpoints : t.points = runs.flatten := by
    have : Std.Irrefl fun p q : Point => p.1 < q.1 := ⟨fun p => Nat.lt_irrefl p.1⟩
    have : Std.Antisymm fun p q : Point => p.1 < q.1 :=
      ⟨fun p q hpq hqp => absurd hpq (Nat.lt_asymm hqp)⟩
    refine (pointsFrom_ordered 0 t.values).eq_of_mem_iff h.ordered fun p => ?_
    rw [h.mem_iff]
    exact mem_points_iff
  symm
  rw [List.splitBy_eq_iff]
  refine ⟨hpoints, fun hmem => h.nonempty [] hmem rfl, fun run hrun => ?_, ?_⟩
  · simpa only [decide_eq_true_eq] using h.consecutive run hrun
  · exact h.separated.imp fun _ _ hseparated => hseparated.not_follows

/-- The drawn runs are the maximal runs of finite values, and there are no others. -/
theorem maximalRuns_iff (t : Trace) (runs : List (List Point)) :
    t.MaximalRuns runs ↔ runs = t.segments := by
  constructor
  · intro hruns
    rw [hruns.eq_splitBy, ← t.segments_maximalRuns.eq_splitBy]
  · rintro rfl
    exact t.segments_maximalRuns

end RewardPlot.Trace
