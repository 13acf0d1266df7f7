import RewardPlot.Proofs.FileTree.Astray
/-!
# Trees without an entry

Where an entry leads nowhere, the tree without it has the same to be found in it.
-/

namespace RewardPlot.FileTree

variable {t : FileTree} {place : Location} {name : Name} {names : List Name}

/-- The tree without one entry; what is below it stays. -/
def without (t : FileTree) (place : Location) : FileTree where
  here := t.here
  entries := t.entries.filter (·.1 ≠ place)
  distinct := t.distinct.sublist (List.filter_sublist.map _)

theorem entryAt_without_of_ne {other : Location} (hother : other ≠ place) :
    (t.without place).entryAt other = t.entryAt other := by
  rw [entryAt, entryAt, without, lookup_filter_of_ne _ hother]

theorem entryAt_without_self (hplace : place ≠ []) : (t.without place).entryAt place = none := by
  rw [entryAt, if_neg hplace, without, List.lookup_eq_none_iff]
  intro e he
  have hne : e.1 ≠ place := by simpa using (List.mem_filter.mp he).2
  simpa using hne.symm

theorem names_without :
    (t.without (place ++ [name])).names place = (t.names place).filter (· ≠ name) := by
  rw [FileTree.names, FileTree.names, without, List.filterMap_filter, List.filter_filterMap]
  congr 1
  funext e
  by_cases hplace : e.1.dropLast = place
  · cases hlast : e.1.getLast? with
    | none => simp [hlast]
    | some last =>
        have hentry : e.1 = place ++ [last] := by
          rw [← hplace, List.dropLast_append_getLast? last hlast]
        by_cases hname : last = name <;> simp [hentry, hname, Option.filter]
  · have hne : e.1 ≠ place ++ [name] := by
      intro hsame
      rw [hsame, List.dropLast_concat] at hplace
      exact hplace rfl
    simp [hplace, hne]

/-! ## Walks -/

/-- A walk in the tree without an entry goes the same way, up to the place of that entry. -/
theorem walkNames_without (directory : Location) (names : List Name) :
    (t.without (place ++ [name])).walkNames .finding directory names =
        t.walkNames .finding directory names ∨
      (∃ rest, t.walkNames .finding directory names = t.walkNames .finding place (name :: rest)) ∧
        ((t.without (place ++ [name])).walkNames .finding directory names = .missing place name ∨
          (t.without (place ++ [name])).walkNames .finding directory names = .fault .notFound) := by
  induction names generalizing directory with
  | nil =>
      left
      rw [walkNames, walkNames]
  | cons other rest ih =>
      by_cases hself : other = [] ∨ other = .self
      · rw [walkNames, if_pos hself, walkNames, if_pos hself]
        exact ih directory
      by_cases habove : other = .above
      · rw [walkNames, if_neg hself, if_pos habove, walkNames, if_neg hself, if_pos habove]
        exact ih directory.dropLast
      by_cases hlength : longestName < other.length
      · left
        simp [walkNames, hself, habove, hlength]
      have hpasses : Purpose.finding.Passes directory other rest := ⟨by simp, hlength, by simp⟩
      rw [walkNames_of_passes _ hself habove hpasses]
      by_cases hsame : directory ++ [other] = place ++ [name]
      · obtain ⟨rfl, hother⟩ := List.append_inj' hsame rfl
        cases hother
        refine .inr ⟨⟨rest, rfl⟩, ?_⟩
        rw [entryAt_without_self (by simp)]
        by_cases hrest : rest = [] <;> simp [hrest]
      · rw [entryAt_without_of_ne hsame, walkNames_of_passes t hself habove hpasses]
        rcases t.entryAt (directory ++ [other]) with - | content | - | target
        · exact .inl rfl
        · exact .inl rfl
        · exact ih (directory ++ [other])
        · exact .inl rfl

/-! ## Look-ups -/

/-- Some names that lead nowhere are looked up in vain, also when more follow them. -/
theorem exists_lookUp_error (hnowhere : t.LeadsNowhere place names)
    (more : List Name) (links : Nat) :
    ∃ cause, t.lookUp links place (names ++ more) = .error cause := by
  cases hlook : t.lookUp links place (names ++ more) with
  | error cause => exact ⟨cause, rfl⟩
  | ok found =>
      obtain ⟨goal, entry, hleads⟩ :=
        (leadsTo_of_followLinks (lookUp_eq_ok_iff.mp hlook)).of_append
      exact absurd hleads (hnowhere goal entry)

/-- A look-up finds the same without an entry that leads nowhere. -/
theorem lookUp_without (hnowhere : t.LeadsNowhere place [name]) (links : Nat)
    (directory : Location) (names : List Name) :
    (t.without (place ++ [name])).lookUp links directory names = t.lookUp links directory names ∨
      (∃ cause, t.lookUp links directory names = .error cause) ∧
        (t.without (place ++ [name])).lookUp links directory names = .error .notFound := by
  -- a walk that comes to the place of the entry gets no further in either tree
  have hcut {links : Nat} {directory : Location} {names rest : List Name}
      (hrest : t.walkNames .finding directory names = t.walkNames .finding place (name :: rest))
      (hgone : (t.without (place ++ [name])).walkNames .finding directory names =
          .missing place name ∨
        (t.without (place ++ [name])).walkNames .finding directory names = .fault .notFound) :
      (∃ cause, t.lookUp links directory names = .error cause) ∧
        (t.without (place ++ [name])).lookUp links directory names = .error .notFound := by
    rw [lookUp_of_walkNames_eq hrest, lookUp_eq (t.without _)]
    refine ⟨exists_lookUp_error hnowhere rest links, ?_⟩
    rcases hgone with hgone | hgone <;> rw [hgone]
  fun_induction followLinks t .finding links directory names with
  | case1 links directory names _ hwalk | case2 links directory names _ _ hwalk
  | case3 links directory names _ _ hwalk | case4 directory names _ _ _ hwalk =>
      rcases walkNames_without directory names with hsame | ⟨⟨rest, hrest⟩, hgone⟩
      · left
        rw [lookUp_eq, lookUp_eq, hsame, hwalk]
      · exact .inr (hcut hrest hgone)
  | case5 directory names above target rest hwalk links ih =>
      rcases walkNames_without directory names with hsame | ⟨⟨rest, hrest⟩, hgone⟩
      · rw [lookUp_eq, lookUp_eq t, hsame, hwalk]
        exact ih
      · exact .inr (hcut hrest hgone)

theorem find_without (hnowhere : t.LeadsNowhere place [name]) (p : Path) :
    (t.without (place ++ [name])).find p = t.find p ∨
      (∃ cause, t.find p = .error cause) ∧
        (t.without (place ++ [name])).find p = .error .notFound := by
  cases hfault : pathFault? .finding p with
  | some cause =>
      left
      rw [find, find, reach, reach, goal, goal, hfault]
  | none =>
      have hgoal (t : FileTree) : t.goal .finding p =
          t.followLinks .finding mostLinks (origin t.here p) p.steps := by
        rw [goal, hfault]
      rw [find_of_goal (hgoal t), find_of_goal (hgoal _)]
      exact lookUp_without hnowhere mostLinks (origin t.here p) p.steps

end RewardPlot.FileTree
