import RewardPlot.Proofs.FileTree.Walk
/-!
# Where names lead

Names lead from a directory to an entry, through any number of links and by names of any length.
A walk that finds an entry has come to where the names lead.  A walk that does not, although the
names lead somewhere, has met one of its limits.
-/

namespace RewardPlot

/-- A name that is looked up in a directory. -/
def Name.LookedUp (name : Name) : Prop := ¬(name = [] ∨ name = self) ∧ name ≠ above

namespace FileTree

/-- Where some names lead from a directory.  A link is replaced by the steps of its target; a file
is only at the end. -/
inductive LeadsTo (t : FileTree) : Location → List Name → Location → Entry → Prop where
  | stop {place : Location} : LeadsTo t place [] place .directory
  | stay {place goal : Location} {name : Name} {rest : List Name} {entry : Entry}
      (hname : name = [] ∨ name = .self) (hrest : LeadsTo t place rest goal entry) :
      LeadsTo t place (name :: rest) goal entry
  | up {place goal : Location} {rest : List Name} {entry : Entry}
      (hrest : LeadsTo t place.dropLast rest goal entry) :
      LeadsTo t place (.above :: rest) goal entry
  | down {place goal : Location} {name : Name} {rest : List Name} {entry : Entry}
      (hname : name.LookedUp) (hentry : t.entryAt (place ++ [name]) = some .directory)
      (hrest : LeadsTo t (place ++ [name]) rest goal entry) :
      LeadsTo t place (name :: rest) goal entry
  | file {place : Location} {name : Name} {content : List UInt8} (hname : name.LookedUp)
      (hentry : t.entryAt (place ++ [name]) = some (.file content)) :
      LeadsTo t place [name] (place ++ [name]) (.file content)
  | link {place goal : Location} {name : Name} {rest : List Name} {entry : Entry} {target : Path}
      (hname : name.LookedUp) (hentry : t.entryAt (place ++ [name]) = some (.link target))
      (hrest : LeadsTo t (origin place target) (target.steps ++ rest) goal entry) :
      LeadsTo t place (name :: rest) goal entry

variable {t : FileTree}

/-! ## Entries that are found -/

/-- What the end of a walk says about where its names lead. -/
def Stop.Leads (t : FileTree) (directory : Location) (names : List Name) : Stop → Prop
  | .found place entry => t.LeadsTo directory names place entry
  | .link above target rest => ∀ goal entry,
      t.LeadsTo (origin above target) (target.steps ++ rest) goal entry →
        t.LeadsTo directory names goal entry
  | _ => True

theorem Stop.Leads.before {directory directory' : Location} {names names' : List Name}
    {stop : Stop} (hstop : stop.Leads t directory names)
    (hbefore : ∀ goal entry, t.LeadsTo directory names goal entry →
      t.LeadsTo directory' names' goal entry) : stop.Leads t directory' names' := by
  cases stop with
  | found place entry => exact hbefore _ _ hstop
  | link above target rest => exact fun goal entry hrest => hbefore _ _ (hstop goal entry hrest)
  | fault | missing => trivial

theorem walkNames_leads (t : FileTree) (directory : Location) (names : List Name) :
    (t.walkNames .finding directory names).Leads t directory names := by
  fun_induction walkNames t .finding directory names with
  | case1 directory => exact .stop
  | case2 directory name rest hself ih => exact ih.before fun _ _ => .stay hself
  | case3 directory rest hself ih => exact ih.before fun _ _ => .up
  | case4 | case5 | case6 | case7 | case8 | case11 => trivial
  | case9 directory name rest hself habove hslash hlength place hpath hentry ih =>
      exact ih.before fun _ _ => .down ⟨hself, habove⟩ hentry
  | case10 directory name hself habove hlength place hpath content hentry hslash =>
      exact .file ⟨hself, habove⟩ hentry
  | case12 directory name rest hself habove hslash hlength place hpath target hentry =>
      exact fun _ _ => .link ⟨hself, habove⟩ hentry

theorem leadsTo_of_followLinks {links : Nat} {directory place : Location} {names : List Name}
    {entry : Entry}
    (hgoal : t.followLinks .finding links directory names = .ok (.existing place entry)) :
    t.LeadsTo directory names place entry := by
  fun_induction followLinks t .finding links directory names with
  | case1 | case3 | case4 => cases hgoal
  | case2 links directory names place entry hwalk =>
      cases hgoal
      have hleads := t.walkNames_leads directory names
      rwa [hwalk] at hleads
  | case5 directory names above target rest hwalk links ih =>
      have hleads := t.walkNames_leads directory names
      rw [hwalk] at hleads
      exact hleads _ _ (ih hgoal)

/-! ## Limits of a walk -/

theorem followLinks_of_walkNames_eq {links : Nat} {directory directory' : Location}
    {names names' : List Name}
    (hwalk : t.walkNames .finding directory names = t.walkNames .finding directory' names') :
    t.followLinks .finding links directory names =
      t.followLinks .finding links directory' names' := by
  rw [followLinks, followLinks, hwalk]

theorem nameTooLong_or_passes (t : FileTree) (links : Nat) {place : Location} {name : Name}
    {rest : List Name} (hname : name.LookedUp) :
    t.followLinks .finding links place (name :: rest) = .error .nameTooLong ∨
      Purpose.finding.Passes place name rest := by
  by_cases hlength : longestName < name.length
  · left
    rw [followLinks, walkNames, if_neg hname.1, if_neg hname.2, if_neg (by simp), if_pos hlength]
  · exact .inr ⟨by simp, hlength, by simp⟩

/-- Where names lead somewhere a walk comes to that entry, unless there are too many links or a
name is too long. -/
theorem LeadsTo.followLinks {place goal : Location} {names : List Name} {entry : Entry}
    (hleads : t.LeadsTo place names goal entry) (links : Nat) :
    t.followLinks .finding links place names = .ok (.existing goal entry) ∨
      t.followLinks .finding links place names = .error .tooManyLinks ∨
      t.followLinks .finding links place names = .error .nameTooLong := by
  induction hleads generalizing links with
  | stop =>
      left
      rw [FileTree.followLinks, walkNames]
  | @stay place goal name rest entry hname _ ih =>
      have hwalk : t.walkNames .finding place (name :: rest) = t.walkNames .finding place rest := by
        rw [walkNames, if_pos hname]
      rw [followLinks_of_walkNames_eq hwalk]
      exact ih links
  | @up place goal rest entry _ ih =>
      have hwalk : t.walkNames .finding place (.above :: rest) =
          t.walkNames .finding place.dropLast rest := by
        rw [walkNames, if_neg (by decide), if_pos rfl]
      rw [followLinks_of_walkNames_eq hwalk]
      exact ih links
  | @down place goal name rest entry hname hentry _ ih =>
      rcases nameTooLong_or_passes t links hname with hlong | hpasses
      · exact .inr (.inr hlong)
      · have hwalk := walkNames_of_passes t hname.1 hname.2 hpasses
        rw [hentry] at hwalk
        rw [followLinks_of_walkNames_eq hwalk]
        exact ih links
  | @file place name content hname hentry =>
      rcases nameTooLong_or_passes t links hname with hlong | hpasses
      · exact .inr (.inr hlong)
      · left
        rw [FileTree.followLinks, walkNames_of_passes t hname.1 hname.2 hpasses, hentry]
        rfl
  | @link place goal name rest entry target hname hentry _ ih =>
      rcases nameTooLong_or_passes t links hname with hlong | hpasses
      · exact .inr (.inr hlong)
      · rw [FileTree.followLinks, walkNames_of_passes t hname.1 hname.2 hpasses, hentry]
        dsimp only
        cases links with
        | zero => exact .inr (.inl rfl)
        | succ links => exact ih links

end FileTree

end RewardPlot
