import RewardPlot.FileTree.Edit
import RewardPlot.Proofs.FileTree.Walk
/-!
# What changes of a file tree keep

Writing puts a file where one was or where nothing was, and a new directory takes a place
where nothing was and at which its path ends.
-/

namespace RewardPlot.FileTree

/-! ## Entries of a changed tree -/

@[simp] theorem entryAt_root (t : FileTree) : t.entryAt [] = some .directory := rfl

theorem entryAt_set_self (t : FileTree) {place : Location} (entry : Entry)
    (hplace : place ≠ []) : (t.set place entry).entryAt place = some entry := by
  rw [entryAt, if_neg hplace]
  exact List.lookup_cons_self

theorem lookup_filter_of_ne (entries : List (Location × Entry)) {place other : Location}
    (hother : other ≠ place) :
    (entries.filter (·.1 ≠ place)).lookup other = entries.lookup other := by
  induction entries with
  | nil => rfl
  | cons first entries ih =>
      by_cases hfirst : first.1 = place
      · have hne : (other == first.1) = false := by simpa [hfirst] using hother
        rw [List.filter_cons_of_neg (by simp [hfirst]), ih, List.lookup_cons, hne]
      · rw [List.filter_cons_of_pos (by simpa using hfirst), List.lookup_cons,
          List.lookup_cons, ih]

theorem entryAt_set_of_ne (t : FileTree) {place other : Location} (entry : Entry)
    (hother : other ≠ place) : (t.set place entry).entryAt other = t.entryAt other := by
  have hne : (other == place) = false := by simpa using hother
  rw [entryAt, entryAt, set, List.lookup_cons, hne, lookup_filter_of_ne _ hother]

theorem mem_entries_of_entryAt {t : FileTree} {place : Location} (hplace : place ≠ [])
    {entry : Entry} (hentry : t.entryAt place = some entry) : (place, entry) ∈ t.entries := by
  rw [entryAt, if_neg hplace] at hentry
  obtain ⟨before, after, hentries, -⟩ := List.lookup_eq_some_iff.mp hentry
  simp [hentries]

theorem mem_names_iff (t : FileTree) (directory : Location) (name : Name) :
    name ∈ t.names directory ↔ (t.entryAt (directory ++ [name])).isSome := by
  rw [entryAt, if_neg (by simp), List.lookup_isSome_iff, names, List.mem_filterMap]
  constructor
  · rintro ⟨⟨place, entry⟩, hmem, hname⟩
    have hname : (if place.dropLast = directory then place.getLast? else none) = some name :=
      hname
    by_cases hdirectory : place.dropLast = directory
    · rw [if_pos hdirectory] at hname
      refine ⟨⟨place, entry⟩, hmem, ?_⟩
      rw [← hdirectory, beq_iff_eq]
      exact List.dropLast_append_getLast? name hname
    · rw [if_neg hdirectory] at hname
      cases hname
  · rintro ⟨⟨place, entry⟩, hmem, hplace⟩
    obtain rfl : directory ++ [name] = place := by simpa using hplace
    exact ⟨_, hmem, by simp⟩

theorem Keeps.mem_names {t later : FileTree} (hkeeps : Keeps t later) {directory : Location}
    {name : Name} (hname : name ∈ t.names directory) : name ∈ later.names directory := by
  rw [mem_names_iff] at hname ⊢
  obtain ⟨entry, hentry⟩ := Option.isSome_iff_exists.mp hname
  obtain ⟨entry', hentry', -⟩ := hkeeps.entryAt _ entry hentry
  rw [hentry']
  rfl

/-! ## Writing -/

/-- A place is free for a file when nothing but a file is there. -/
def FreeForFile (t : FileTree) (place : Location) : Prop :=
  t.entryAt place = none ∨ ∃ content, t.entryAt place = some (.file content)

theorem FreeForFile.ne_root {t : FileTree} {place : Location} (hfree : t.FreeForFile place) :
    place ≠ [] := by
  rintro rfl
  rcases hfree with h | ⟨content, h⟩ <;> simp at h

theorem FreeForFile.keeps {t : FileTree} {place : Location} (hfree : t.FreeForFile place)
    (content : List UInt8) : Keeps t (t.set place (.file content)) := by
  refine ⟨rfl, fun other entry hentry => ?_⟩
  by_cases hother : other = place
  · subst hother
    refine ⟨_, entryAt_set_self t _ hfree.ne_root, ?_⟩
    rcases hfree with h | ⟨content', h⟩
    · rw [h] at hentry
      cases hentry
    · rw [h] at hentry
      cases hentry
      rfl
  · exact ⟨entry, by rw [entryAt_set_of_ne t _ hother, hentry], rfl⟩

/-- The place at which a path has a file written. -/
def target? (t : FileTree) (p : Path) : Option Location :=
  match t.goal .creating p with
  | .ok (.vacant directory name) => some (directory ++ [name])
  | .ok (.existing place (.file _)) => some place
  | _ => none

theorem target?_free {t : FileTree} {p : Path} {place : Location}
    (htarget : t.target? p = some place) : t.FreeForFile place := by
  rw [target?] at htarget
  split at htarget
  · next hgoal =>
    cases htarget
    exact .inl (goal_holds hgoal)
  · next hgoal =>
    cases htarget
    exact .inr ⟨_, goal_holds hgoal⟩
  · cases htarget

/-- A write puts its content at the place of the path, or fails where there is none. -/
theorem write_eq (t : FileTree) (p : Path) (content : List UInt8) :
    (t.write p content).toOption =
      (t.target? p).map fun place => t.set place (.file content) := by
  rw [write, target?]
  rcases t.goal .creating p with cause | ⟨place, entry⟩ | ⟨directory, name⟩
  · rfl
  · cases entry <;> rfl
  · rfl

theorem write_ok {t written : FileTree} {p : Path} {content : List UInt8}
    (hwrite : t.write p content = .ok written) :
    ∃ place, t.target? p = some place ∧ written = t.set place (.file content) := by
  have htarget := write_eq t p content
  rw [hwrite] at htarget
  obtain ⟨place, hplace, hset⟩ := Option.map_eq_some_iff.mp htarget.symm
  exact ⟨place, hplace, hset.symm⟩

/-- A path at which a file was written leads to it, also when it is to be written again. -/
theorem goal_written {t : FileTree} {purpose : Purpose} (hallows : Purpose.creating.Allows purpose)
    {p : Path} {place : Location} (htarget : t.target? p = some place) (content : List UInt8) :
    (t.set place (.file content)).goal purpose p = .ok (.existing place (.file content)) := by
  have hfree := target?_free htarget
  have hentry := entryAt_set_self t (.file content) hfree.ne_root
  have hpersists := goal_persists (hfree.keeps content) hallows p
  rw [target?] at htarget
  split at htarget
  · next hgoal =>
    cases htarget
    rw [hgoal] at hpersists
    exact hpersists content hentry
  · next hgoal =>
    cases htarget
    rw [hgoal] at hpersists
    obtain ⟨content', hentry', hgoal'⟩ := hpersists
    cases hentry.symm.trans hentry'
    exact hgoal'
  · cases htarget

theorem find_written {t : FileTree} {p : Path} {place : Location}
    (htarget : t.target? p = some place) (content : List UInt8) :
    (t.set place (.file content)).find p = .ok (place, .file content) :=
  find_eq_ok_iff.mpr (goal_written .found htarget content)

theorem find_of_write {t written : FileTree} {p : Path} {content : List UInt8}
    (hwrite : t.write p content = .ok written) :
    ∃ place, written.find p = .ok (place, .file content) := by
  obtain ⟨place, htarget, rfl⟩ := write_ok hwrite
  exact ⟨place, find_written htarget content⟩

/-! ## New places -/

theorem newPlace_ne_root {t : FileTree} {p : Path} {place : Location}
    (hplace : t.newPlace p = .ok place) : place ≠ [] := by
  revert hplace
  fun_cases newPlace t p <;> simp
  rintro rfl
  simp

/-- The last name of a path and what may follow it. -/
theorem steps_eq_of_getLast? {p : Path} {name : Name}
    (hlast : (p.steps.filter (· ≠ [])).getLast? = some name) :
    ∃ tail : List Name, p.steps = (p.steps.filter (· ≠ [])).dropLast ++ name :: tail ∧
      (tail = [] ∨ tail = [[]]) := by
  have hsteps : p.steps = p.steps.filter (· ≠ []) ∨ p.steps = p.steps.filter (· ≠ []) ++ [[]] := by
    unfold Path.steps
    dsimp only
    split <;> simp
  have hnames := List.dropLast_append_getLast? name hlast
  rcases hsteps with hsteps | hsteps
  · refine ⟨[], ?_, .inl rfl⟩
    rw [hnames, ← hsteps]
  · refine ⟨[[]], ?_, .inr rfl⟩
    rw [List.append_cons, hnames, ← hsteps]

theorem goal_of_newPlace {t later : FileTree} (hkeeps : Keeps t later) {p : Path}
    {place : Location} (hplace : t.newPlace p = .ok place) :
    ∃ left directory name tail, place = directory ++ [name] ∧ (tail = [] ∨ tail = [[]]) ∧
      ¬(name = [] ∨ name = Name.self) ∧ name ≠ Name.above ∧
      Purpose.finding.Passes directory name tail ∧
      later.goal .finding p = later.followLinks .finding left directory (name :: tail) := by
  revert hplace
  fun_cases newPlace t p <;> intro hplace <;> cases hplace
  next hfault names directory hdirectory name hlast hname hlength =>
  obtain ⟨tail, hsteps, htail⟩ := steps_eq_of_getLast? hlast
  have hpersists := followLinks_persists hkeeps (.refl .finding) mostLinks (origin t.here p)
    names.dropLast
  rw [hdirectory] at hpersists
  obtain ⟨left, hleft⟩ := followLinks_append (List.cons_ne_nil name tail) hpersists
  have hempty : name ≠ [] := by
    have hmem := List.mem_of_getLast? hlast
    simpa using (List.mem_filter.mp hmem).2
  obtain ⟨hself, habove⟩ := not_or.mp hname
  refine ⟨left, directory, name, tail, rfl, htail, by simp [hempty, hself], habove, ?_, ?_⟩
  · exact ⟨by simp, hlength, by simp⟩
  · rw [goal, hfault]
    dsimp only
    rw [hkeeps.here, hsteps]
    exact hleft

/-- Where a new entry can be made, its path leads nowhere as long as there is none. -/
theorem hasEntry_newPlace {t : FileTree} {p : Path} {place : Location}
    (hplace : t.newPlace p = .ok place) (hnone : t.entryAt place = none) :
    t.hasEntry p = false := by
  obtain ⟨left, directory, name, tail, rfl, htail, hself, habove, hpasses, hgoal⟩ :=
    goal_of_newPlace (.refl t) hplace
  have hwalk := walkNames_of_passes t hself habove hpasses
  rw [hnone] at hwalk
  rw [hasEntry, find, reach, hgoal, followLinks, hwalk]
  rcases htail with rfl | rfl <;> rfl

/-- The path of a new place leads to the directory that is made there. -/
theorem find_newPlace {t later : FileTree} (hkeeps : Keeps t later) {p : Path}
    {place : Location} (hplace : t.newPlace p = .ok place)
    (hentry : later.entryAt place = some .directory) :
    later.find p = .ok (place, .directory) := by
  obtain ⟨left, directory, name, tail, rfl, htail, hself, habove, hpasses, hgoal⟩ :=
    goal_of_newPlace hkeeps hplace
  have hwalk := walkNames_of_passes later hself habove hpasses
  have hend : later.walkNames .finding (directory ++ [name]) tail =
      .found (directory ++ [name]) .directory := by
    rcases htail with rfl | rfl
    · rw [walkNames]
    · rw [walkNames, if_pos (.inl rfl), walkNames]
  rw [hentry] at hwalk
  dsimp only at hwalk
  rw [find_eq_ok_iff, hgoal, followLinks, hwalk, hend]

end RewardPlot.FileTree
