import RewardPlot.Proofs.FileTree.Edit
import RewardPlot.Proofs.FileTree.Join
import RewardPlot.Proofs.FileTree.Leads
/-!
# Where names do not lead

Names lead astray when one of them is missing, or when there is a file where a directory is
needed; and they lead in circles when there is always one more link.  A look-up that finds nothing
has been led astray, or has followed too many links.
-/

namespace RewardPlot.FileTree

/-- What a look-up of names says: the entry that they lead to, or why there is none. -/
def lookUp (t : FileTree) (links : Nat) (directory : Location) (names : List Name) :
    Except FileFault (Location × Entry) :=
  match t.followLinks .finding links directory names with
  | .error cause => .error cause
  | .ok (.vacant ..) => .error .notFound
  | .ok (.existing place entry) => .ok (place, entry)

variable {t : FileTree} {links : Nat} {place goal : Location} {name : Name} {names more : List Name}
  {entry : Entry} {cause : FileFault}

/-! ## Look-ups -/

theorem lookUp_eq_ok_iff :
    t.lookUp links place names = .ok (goal, entry) ↔
      t.followLinks .finding links place names = .ok (.existing goal entry) := by
  rw [lookUp]
  rcases t.followLinks .finding links place names with cause | ⟨place', entry'⟩ | ⟨above, name⟩ <;>
    simp

theorem lookUp_eq (t : FileTree) (links : Nat) (place : Location) (names : List Name) :
    t.lookUp links place names =
      match t.walkNames .finding place names with
      | .fault cause => .error cause
      | .found goal entry => .ok (goal, entry)
      | .missing .. => .error .notFound
      | .link above target rest =>
        match links with
        | 0 => .error .tooManyLinks
        | links + 1 => t.lookUp links (origin above target) (target.steps ++ rest) := by
  rw [lookUp, followLinks]
  cases t.walkNames .finding place names with
  | fault cause => rfl
  | found goal entry => rfl
  | missing above name => rfl
  | link above target rest => cases links <;> rfl

theorem lookUp_of_walkNames_eq {place' : Location} {names' : List Name}
    (hwalk : t.walkNames .finding place names = t.walkNames .finding place' names') :
    t.lookUp links place names = t.lookUp links place' names' := by
  rw [lookUp, lookUp, followLinks_of_walkNames_eq hwalk]

theorem find_of_goal {p : Path}
    (hgoal : t.goal .finding p = t.followLinks .finding links place names) :
    t.find p = t.lookUp links place names := by
  cases hlinks : t.followLinks .finding links place names with
  | error cause => rw [find, reach, lookUp, hgoal, hlinks]
  | ok goal => cases goal <;> rw [find, reach, lookUp, hgoal, hlinks]

theorem find_join_lookUp {p : Path} (hfind : t.find p = .ok (place, .directory))
    (hname : name.Proper) (hfault : pathFault? .finding (p.join name) = none) :
    ∃ left, t.find (p.join name) = t.lookUp left place [name] := by
  obtain ⟨left, hgoal⟩ := goal_join hfind hname hfault
  exact ⟨left, find_of_goal hgoal⟩

theorem WellNamed.length_le (hnamed : t.WellNamed)
    (hentry : t.entryAt (place ++ [name]) = some entry) : name.length ≤ longestName := by
  have hmem := mem_entries_of_entryAt (by simp) hentry
  exact (hnamed.entries _ hmem name (by simp)).length

theorem WellNamed.entryAt_of_long (hnamed : t.WellNamed) (hlong : longestName < name.length) :
    t.entryAt (place ++ [name]) = none := by
  rw [Option.eq_none_iff_forall_ne_some]
  intro entry hentry
  exact absurd (hnamed.length_le hentry) (Nat.not_le.mpr hlong)

theorem WellNamed.passes (hnamed : t.WellNamed) (rest : List Name)
    (hentry : t.entryAt (place ++ [name]) = some entry) :
    Purpose.finding.Passes place name rest :=
  ⟨by simp, Nat.not_lt.mpr (hnamed.length_le hentry), by simp⟩

theorem lookUp_stay (hname : name = [] ∨ name = .self) :
    t.lookUp links place (name :: names) = t.lookUp links place names := by
  apply lookUp_of_walkNames_eq
  rw [walkNames, if_pos hname]

theorem lookUp_up :
    t.lookUp links place (.above :: names) = t.lookUp links place.dropLast names := by
  apply lookUp_of_walkNames_eq
  rw [walkNames, if_neg (by decide), if_pos rfl]

theorem lookUp_down (hnamed : t.WellNamed) (hname : name.LookedUp)
    (hentry : t.entryAt (place ++ [name]) = some .directory) :
    t.lookUp links place (name :: names) = t.lookUp links (place ++ [name]) names := by
  apply lookUp_of_walkNames_eq
  rw [walkNames_of_passes t hname.1 hname.2 (hnamed.passes names hentry), hentry]

theorem lookUp_link_zero (hnamed : t.WellNamed) (hname : name.LookedUp) {target : Path}
    (hentry : t.entryAt (place ++ [name]) = some (.link target)) :
    t.lookUp 0 place (name :: names) = .error .tooManyLinks := by
  rw [lookUp_eq, walkNames_of_passes t hname.1 hname.2 (hnamed.passes names hentry), hentry]

theorem lookUp_link (hnamed : t.WellNamed) (hname : name.LookedUp) {target : Path}
    (hentry : t.entryAt (place ++ [name]) = some (.link target)) :
    t.lookUp (links + 1) place (name :: names) =
      t.lookUp links (origin place target) (target.steps ++ names) := by
  rw [lookUp_eq, walkNames_of_passes t hname.1 hname.2 (hnamed.passes names hentry), hentry]

/-! ## Astray -/

/-- Why some names do not lead anywhere from a directory: one of them is missing, or it is that of
a file and more follow it.  A link is replaced by the steps of its target. -/
inductive LeadsAstray (t : FileTree) : Location → List Name → FileFault → Prop where
  | missing {place : Location} {name : Name} {rest : List Name} (hname : name.LookedUp)
      (hentry : t.entryAt (place ++ [name]) = none) :
      LeadsAstray t place (name :: rest) .notFound
  | blocked {place : Location} {name : Name} {rest : List Name} {content : List UInt8}
      (hname : name.LookedUp) (hentry : t.entryAt (place ++ [name]) = some (.file content))
      (hrest : rest ≠ []) : LeadsAstray t place (name :: rest) .notDirectory
  | stay {place : Location} {name : Name} {rest : List Name} {cause : FileFault}
      (hname : name = [] ∨ name = .self) (hrest : LeadsAstray t place rest cause) :
      LeadsAstray t place (name :: rest) cause
  | up {place : Location} {rest : List Name} {cause : FileFault}
      (hrest : LeadsAstray t place.dropLast rest cause) :
      LeadsAstray t place (.above :: rest) cause
  | down {place : Location} {name : Name} {rest : List Name} {cause : FileFault}
      (hname : name.LookedUp) (hentry : t.entryAt (place ++ [name]) = some .directory)
      (hrest : LeadsAstray t (place ++ [name]) rest cause) :
      LeadsAstray t place (name :: rest) cause
  | link {place : Location} {name : Name} {rest : List Name} {cause : FileFault} {target : Path}
      (hname : name.LookedUp) (hentry : t.entryAt (place ++ [name]) = some (.link target))
      (hrest : LeadsAstray t (origin place target) (target.steps ++ rest) cause) :
      LeadsAstray t place (name :: rest) cause

/-- However many links are followed from a directory along some names, there is one more. -/
def LeadsInCircles (t : FileTree) (place : Location) (names : List Name) : Prop :=
  ∀ links, t.lookUp links place names = .error .tooManyLinks

/-- What the end of a walk says about its names leading astray.  A name that is too long is the
name of no entry. -/
def Stop.Strays (t : FileTree) (directory : Location) (names : List Name) : Stop → Prop
  | .missing .. => t.LeadsAstray directory names .notFound
  | .fault .nameTooLong => t.LeadsAstray directory names .notFound
  | .fault cause => t.LeadsAstray directory names cause
  | .link above target rest => ∀ cause,
      t.LeadsAstray (origin above target) (target.steps ++ rest) cause →
        t.LeadsAstray directory names cause
  | .found .. => True

theorem Stop.Strays.before {directory directory' : Location} {names names' : List Name}
    {stop : Stop} (hstop : stop.Strays t directory names)
    (hbefore : ∀ cause, t.LeadsAstray directory names cause →
      t.LeadsAstray directory' names' cause) : stop.Strays t directory' names' := by
  cases stop with
  | fault cause => cases cause <;> exact hbefore _ hstop
  | found place entry => trivial
  | missing above name => exact hbefore _ hstop
  | link above target rest => exact fun cause hrest => hbefore _ (hstop cause hrest)

theorem walkNames_strays (hnamed : t.WellNamed) (directory : Location) (names : List Name) :
    (t.walkNames .finding directory names).Strays t directory names := by
  fun_induction walkNames t .finding directory names with
  | case1 directory => trivial
  | case2 directory name rest hself ih => exact ih.before fun _ => .stay hself
  | case3 directory rest hself ih => exact ih.before fun _ => .up
  | case4 directory name rest hself habove hslash => exact absurd hslash.1 (by decide)
  | case5 directory name rest hself habove hslash hlong =>
      exact .missing ⟨hself, habove⟩ (hnamed.entryAt_of_long hlong)
  | case6 directory name rest hself habove hslash hlength place hpath =>
      exact absurd hpath.1 (by decide)
  | case7 directory name hself habove hlength place hpath hentry hslash =>
      exact .missing ⟨hself, habove⟩ hentry
  | case8 directory name rest hself habove hslash hlength place hpath hentry hrest =>
      exact .missing ⟨hself, habove⟩ hentry
  | case9 directory name rest hself habove hslash hlength place hpath hentry ih =>
      exact ih.before fun _ => .down ⟨hself, habove⟩ hentry
  | case10 => trivial
  | case11 directory name rest hself habove hslash hlength place hpath content hentry hrest =>
      exact .blocked ⟨hself, habove⟩ hentry hrest
  | case12 directory name rest hself habove hslash hlength place hpath target hentry =>
      exact fun _ => .link ⟨hself, habove⟩ hentry

theorem Stop.Strays.of_fault (hstrays : (Stop.fault cause).Strays t place names) :
    t.LeadsAstray place names cause ∨
      (cause = .nameTooLong ∧ t.LeadsAstray place names .notFound) := by
  cases cause with
  | nameTooLong => exact .inr ⟨rfl, hstrays⟩
  | _ => exact .inl hstrays

/-- A look-up that finds nothing has followed too many links or has been led astray. -/
theorem leadsAstray_of_lookUp (hnamed : t.WellNamed)
    (hlost : t.lookUp links place names = .error cause) :
    cause = .tooManyLinks ∨ t.LeadsAstray place names cause ∨
      (cause = .nameTooLong ∧ t.LeadsAstray place names .notFound) := by
  fun_induction followLinks t .finding links place names with
  | case1 links place names cause' hwalk =>
      have hstrays := walkNames_strays hnamed place names
      rw [lookUp_eq, hwalk] at hlost
      cases hlost
      exact .inr (hwalk ▸ hstrays).of_fault
  | case2 links place names goal entry hwalk =>
      rw [lookUp_eq, hwalk] at hlost
      cases hlost
  | case3 links place names above name hwalk =>
      have hstrays := walkNames_strays hnamed place names
      rw [lookUp_eq, hwalk] at hlost
      rw [hwalk] at hstrays
      cases hlost
      exact .inr (.inl hstrays)
  | case4 place names above target rest hwalk =>
      rw [lookUp_eq, hwalk] at hlost
      cases hlost
      exact .inl rfl
  | case5 place names above target rest hwalk links ih =>
      have hstrays := walkNames_strays hnamed place names
      rw [lookUp_eq, hwalk] at hlost
      rw [hwalk] at hstrays
      rcases ih hlost with hmany | hastray | ⟨hlong, hastray⟩
      · exact .inl hmany
      · exact .inr (.inl (hstrays _ hastray))
      · exact .inr (.inr ⟨hlong, hstrays _ hastray⟩)

theorem LeadsAstray.cause_eq (hastray : t.LeadsAstray place names cause) :
    cause = .notFound ∨ cause = .notDirectory := by
  induction hastray with
  | missing => exact .inl rfl
  | blocked => exact .inr rfl
  | stay _ _ ih | up _ ih | down _ _ _ ih | link _ _ _ ih => exact ih

/-! ## Limits of a look-up -/

/-- Names that lead astray are looked up in vain, for the reason that they have or because of a
limit.  A name that is too long is missing. -/
theorem LeadsAstray.lookUp (hnamed : t.WellNamed) (hastray : t.LeadsAstray place names cause)
    (links : Nat) :
    t.lookUp links place names = .error cause ∨
      t.lookUp links place names = .error .tooManyLinks ∨
      (cause = .notFound ∧ t.lookUp links place names = .error .nameTooLong) := by
  induction hastray generalizing links with
  | @missing place name rest hname hentry =>
      by_cases hlong : longestName < name.length
      · refine .inr (.inr ⟨rfl, ?_⟩)
        rw [lookUp_eq, walkNames, if_neg hname.1, if_neg hname.2, if_neg (by simp), if_pos hlong]
      · left
        rw [lookUp_eq, walkNames_of_passes t hname.1 hname.2 ⟨by simp, hlong, by simp⟩, hentry]
        by_cases hrest : rest = [] <;> simp [hrest]
  | blocked hname hentry hrest =>
      left
      rw [lookUp_eq, walkNames_of_passes t hname.1 hname.2 (hnamed.passes _ hentry), hentry]
      simp [hrest]
  | stay hname _ ih =>
      rw [lookUp_stay hname]
      exact ih links
  | up _ ih =>
      rw [lookUp_up]
      exact ih links
  | down hname hentry _ ih =>
      rw [lookUp_down hnamed hname hentry]
      exact ih links
  | link hname hentry _ ih =>
      cases links with
      | zero => exact .inr (.inl (lookUp_link_zero hnamed hname hentry))
      | succ links =>
          rw [lookUp_link hnamed hname hentry]
          exact ih links

/-- Where names lead is found with as many links as there are on the way. -/
theorem LeadsTo.exists_lookUp (hnamed : t.WellNamed) (hleads : t.LeadsTo place names goal entry) :
    ∃ links, t.lookUp links place names = .ok (goal, entry) := by
  induction hleads with
  | stop =>
      refine ⟨0, ?_⟩
      rw [lookUp_eq, walkNames]
  | stay hname _ ih =>
      obtain ⟨links, ih⟩ := ih
      exact ⟨links, (lookUp_stay hname).trans ih⟩
  | up _ ih =>
      obtain ⟨links, ih⟩ := ih
      exact ⟨links, lookUp_up.trans ih⟩
  | down hname hentry _ ih =>
      obtain ⟨links, ih⟩ := ih
      exact ⟨links, (lookUp_down hnamed hname hentry).trans ih⟩
  | file hname hentry =>
      refine ⟨0, ?_⟩
      rw [lookUp_eq, walkNames_of_passes t hname.1 hname.2 (hnamed.passes _ hentry), hentry]
      rfl
  | link hname hentry _ ih =>
      obtain ⟨links, ih⟩ := ih
      exact ⟨links + 1, (lookUp_link hnamed hname hentry).trans ih⟩

/-! ## Nowhere -/

/-- Names do not lead to an entry and astray. -/
theorem LeadsTo.not_astray (hleads : t.LeadsTo place names goal entry) :
    ¬t.LeadsAstray place names cause := by
  induction hleads with
  | stop =>
      intro hastray
      cases hastray
  | stay | up | down | file | link =>
      intro hastray
      cases hastray <;> grind [Name.LookedUp, Name.above, Name.self]

/-- Names lead to no entry. -/
def LeadsNowhere (t : FileTree) (place : Location) (names : List Name) : Prop :=
  ∀ goal entry, ¬t.LeadsTo place names goal entry

/-- In a tree whose entries have proper names, names that lead nowhere lead astray or in circles. -/
theorem leadsNowhere_iff (hnamed : t.WellNamed) :
    t.LeadsNowhere place names ↔
      (∃ cause, t.LeadsAstray place names cause) ∨ t.LeadsInCircles place names := by
  constructor
  · intro hnowhere
    by_cases hcircles : t.LeadsInCircles place names
    · exact .inr hcircles
    · obtain ⟨links, hlinks⟩ := Classical.not_forall.mp hcircles
      cases hlook : t.lookUp links place names with
      | ok found =>
          have hleads := leadsTo_of_followLinks (lookUp_eq_ok_iff.mp hlook)
          exact absurd hleads (hnowhere found.1 found.2)
      | error cause =>
          have hmany : cause ≠ .tooManyLinks := by
            rintro rfl
            exact hlinks hlook
          rcases (leadsAstray_of_lookUp hnamed hlook).resolve_left hmany with hastray | hlong
          · exact .inl ⟨_, hastray⟩
          · exact .inl ⟨_, hlong.2⟩
  · rintro (⟨cause, hastray⟩ | hcircles) goal entry hleads
    · exact hleads.not_astray hastray
    · obtain ⟨links, hlinks⟩ := hleads.exists_lookUp hnamed
      rw [hcircles links] at hlinks
      cases hlinks

/-- Names that lead somewhere lead somewhere at each point on the way. -/
theorem LeadsTo.of_append (hleads : t.LeadsTo place (names ++ more) goal entry) :
    ∃ goal' entry', t.LeadsTo place names goal' entry' := by
  generalize hall : names ++ more = all at hleads
  induction hleads generalizing names with
  | stop =>
      obtain ⟨rfl, -⟩ := List.append_eq_nil_iff.mp hall
      exact ⟨_, _, .stop⟩
  | stay hname _ ih =>
      cases names with
      | nil => exact ⟨_, _, .stop⟩
      | cons first names =>
          cases hall
          obtain ⟨goal', entry', hleads⟩ := ih rfl
          exact ⟨goal', entry', .stay hname hleads⟩
  | up _ ih =>
      cases names with
      | nil => exact ⟨_, _, .stop⟩
      | cons first names =>
          cases hall
          obtain ⟨goal', entry', hleads⟩ := ih rfl
          exact ⟨goal', entry', .up hleads⟩
  | down hname hentry _ ih =>
      cases names with
      | nil => exact ⟨_, _, .stop⟩
      | cons first names =>
          cases hall
          obtain ⟨goal', entry', hleads⟩ := ih rfl
          exact ⟨goal', entry', .down hname hentry hleads⟩
  | file hname hentry =>
      cases names with
      | nil => exact ⟨_, _, .stop⟩
      | cons first names =>
          obtain ⟨rfl, hrest⟩ := List.cons.inj hall
          obtain ⟨rfl, -⟩ := List.append_eq_nil_iff.mp hrest
          exact ⟨_, _, .file hname hentry⟩
  | @link place goal name rest entry target hname hentry _ ih =>
      cases names with
      | nil => exact ⟨_, _, .stop⟩
      | cons first names =>
          cases hall
          obtain ⟨goal', entry', hleads⟩ := ih (List.append_assoc target.steps names more)
          exact ⟨goal', entry', .link hname hentry hleads⟩

end RewardPlot.FileTree
