import RewardPlot.FileTree.Walk
import Mathlib.Data.List.Basic
/-!
# Walks in a tree that changes

A walk looks only at entries that are there.  In a later tree that still has every
directory and every link, and a file where there was one, it therefore comes to the same
place; and it comes to a file that was put where a name was missing.
-/

namespace RewardPlot

def Entry.kind : Entry → Entry
  | .file _ => .file []
  | entry => entry

@[simp] theorem Entry.kind_eq_file {entry : Entry} {content : List UInt8} :
    entry.kind = (Entry.file content).kind ↔ ∃ other, entry = .file other := by
  cases entry <;> simp [Entry.kind]

@[simp] theorem Entry.kind_eq_directory {entry : Entry} :
    entry.kind = Entry.directory.kind ↔ entry = .directory := by
  cases entry <;> simp [Entry.kind]

@[simp] theorem Entry.kind_eq_link {entry : Entry} {target : Path} :
    entry.kind = (Entry.link target).kind ↔ entry = .link target := by
  cases entry <;> simp [Entry.kind]

namespace FileTree

/-- The second tree still has every entry of the first one, but a file may hold something
else. -/
structure Keeps (t later : FileTree) : Prop where
  here : later.here = t.here
  entryAt : ∀ place entry, t.entryAt place = some entry →
    ∃ entry', later.entryAt place = some entry' ∧ entry'.kind = entry.kind

namespace Keeps

variable {t later last : FileTree}

theorem refl (t : FileTree) : Keeps t t := ⟨rfl, fun _ entry h => ⟨entry, h, rfl⟩⟩

theorem trans (h : Keeps t later) (h' : Keeps later last) : Keeps t last := by
  refine ⟨h'.here.trans h.here, fun place entry hentry => ?_⟩
  obtain ⟨entry', hentry', hkind⟩ := h.entryAt place entry hentry
  obtain ⟨entry'', hentry'', hkind'⟩ := h'.entryAt place entry' hentry'
  exact ⟨entry'', hentry'', hkind'.trans hkind⟩

theorem file (h : Keeps t later) {place : Location} {content : List UInt8}
    (hentry : t.entryAt place = some (.file content)) :
    ∃ content', later.entryAt place = some (.file content') := by
  obtain ⟨entry', hentry', hkind⟩ := h.entryAt place _ hentry
  obtain ⟨content', rfl⟩ := Entry.kind_eq_file.mp hkind
  exact ⟨content', hentry'⟩

theorem directory (h : Keeps t later) {place : Location}
    (hentry : t.entryAt place = some .directory) : later.entryAt place = some .directory := by
  obtain ⟨entry', hentry', hkind⟩ := h.entryAt place _ hentry
  rw [hentry', Entry.kind_eq_directory.mp hkind]

theorem link (h : Keeps t later) {place : Location} {target : Path}
    (hentry : t.entryAt place = some (.link target)) :
    later.entryAt place = some (.link target) := by
  obtain ⟨entry', hentry', hkind⟩ := h.entryAt place _ hentry
  rw [hentry', Entry.kind_eq_link.mp hkind]

end Keeps

/-! ## Where walks end -/

/-- A walk that ends at a file or at a missing name says what the tree holds there. -/
def Stop.Holds (t : FileTree) : Stop → Prop
  | .found place (.file content) => t.entryAt place = some (.file content)
  | .missing directory name => t.entryAt (directory ++ [name]) = none
  | _ => True

theorem walkNames_holds (t : FileTree) (purpose : Purpose) (directory : Location)
    (names : List Name) : (t.walkNames purpose directory names).Holds t := by
  fun_induction walkNames t purpose directory names with
  | case7 directory name _ _ _ place _ hentry => exact hentry
  | _ => simp_all [Stop.Holds]

/-! ## Walks in a later tree -/

/-- A walk may be taken again for the same purpose, or just to find what it has made. -/
def Purpose.Allows (purpose later : Purpose) : Prop :=
  later = purpose ∨ (purpose = .creating ∧ later = .finding)

theorem Purpose.Allows.refl (purpose : Purpose) : purpose.Allows purpose := .inl rfl

theorem Purpose.Allows.found : Purpose.creating.Allows .finding := .inr ⟨rfl, rfl⟩

/-- No check turns a walk down at a name, before the entry is looked at. -/
structure Purpose.Passes (purpose : Purpose) (directory : Location) (name : Name)
    (rest : List Name) : Prop where
  slash : ¬(purpose = .creating ∧ rest ≠ [] ∧ rest.all List.isEmpty)
  length : ¬longestName < name.length
  path : ¬(purpose = .resolving ∧ pathLimit ≤ (pathOf (directory ++ [name])).bytes.length)

theorem Purpose.Passes.allowed {purpose later : Purpose} {directory : Location} {name : Name}
    {rest : List Name} (hpasses : purpose.Passes directory name rest)
    (hallows : purpose.Allows later) : later.Passes directory name rest := by
  rcases hallows with rfl | ⟨rfl, rfl⟩
  · exact hpasses
  · exact ⟨by simp, hpasses.length, by simp⟩

theorem walkNames_of_passes (t : FileTree) {purpose : Purpose} {directory : Location}
    {name : Name} {rest : List Name} (hself : ¬(name = [] ∨ name = .self))
    (habove : name ≠ .above) (hpasses : purpose.Passes directory name rest) :
    t.walkNames purpose directory (name :: rest) =
      match t.entryAt (directory ++ [name]) with
      | none => if rest = [] then .missing directory name else .fault .notFound
      | some .directory => t.walkNames purpose (directory ++ [name]) rest
      | some (.file content) =>
        if rest = [] then .found (directory ++ [name]) (.file content)
        else .fault .notDirectory
      | some (.link target) => .link directory target rest := by
  rw [walkNames, if_neg hself, if_neg habove, if_neg hpasses.slash, if_neg hpasses.length]
  exact if_neg hpasses.path

/-- What is left of the end of a walk in a later tree. -/
def Stop.Persists (later : FileTree) (stop : Stop) : Stop → Prop
  | .found place (.file _) => ∃ content,
      later.entryAt place = some (.file content) ∧ stop = .found place (.file content)
  | .found place entry => stop = .found place entry
  | .missing directory name => ∀ content,
      later.entryAt (directory ++ [name]) = some (.file content) →
        stop = .found (directory ++ [name]) (.file content)
  | .link directory target rest => stop = .link directory target rest
  | .fault _ => True

theorem walkNames_persists {t later : FileTree} (hkeeps : Keeps t later)
    {purpose purpose' : Purpose} (hallows : purpose.Allows purpose') (directory : Location)
    (names : List Name) :
    Stop.Persists later (later.walkNames purpose' directory names)
      (t.walkNames purpose directory names) := by
  fun_induction walkNames t purpose directory names with
  | case1 directory => rfl
  | case2 directory name rest hself ih =>
      rw [walkNames, if_pos hself]
      exact ih
  | case3 directory rest hself ih =>
      rw [walkNames, if_neg hself, if_pos rfl]
      exact ih
  | case4 | case5 | case6 | case8 | case11 => trivial
  | case7 directory name hself habove hlength place hpath hentry hslash =>
      intro content hcontent
      have hpasses : purpose.Passes directory name [] := ⟨hslash, hlength, hpath⟩
      rw [walkNames_of_passes later hself habove (hpasses.allowed hallows), hcontent]
      rfl
  | case9 directory name rest hself habove hslash hlength place hpath hentry ih =>
      have hpasses : purpose.Passes directory name rest := ⟨hslash, hlength, hpath⟩
      rw [walkNames_of_passes later hself habove (hpasses.allowed hallows),
        hkeeps.directory hentry]
      exact ih
  | case10 directory name hself habove hlength place hpath content hentry hslash =>
      have hpasses : purpose.Passes directory name [] := ⟨hslash, hlength, hpath⟩
      obtain ⟨content', hcontent⟩ := hkeeps.file hentry
      refine ⟨content', hcontent, ?_⟩
      rw [walkNames_of_passes later hself habove (hpasses.allowed hallows), hcontent]
      rfl
  | case12 directory name rest hself habove hslash hlength place hpath target hentry =>
      have hpasses : purpose.Passes directory name rest := ⟨hslash, hlength, hpath⟩
      show later.walkNames purpose' directory (name :: rest) = .link directory target rest
      rw [walkNames_of_passes later hself habove (hpasses.allowed hallows),
        hkeeps.link hentry]

/-! ## Goals of paths -/

def Goal.Holds (t : FileTree) : Goal → Prop
  | .existing place (.file content) => t.entryAt place = some (.file content)
  | .vacant directory name => t.entryAt (directory ++ [name]) = none
  | _ => True

theorem Stop.Holds.existing {t : FileTree} {place : Location} {entry : Entry}
    (hholds : (Stop.found place entry).Holds t) : (Goal.existing place entry).Holds t := by
  cases entry <;> exact hholds

theorem followLinks_holds (t : FileTree) (purpose : Purpose) (links : Nat)
    (directory : Location) (names : List Name) {goal : Goal}
    (hgoal : t.followLinks purpose links directory names = .ok goal) : goal.Holds t := by
  fun_induction followLinks t purpose links directory names with
  | case1 | case4 => cases hgoal
  | case2 links directory names place entry hwalk =>
      cases hgoal
      exact (hwalk ▸ walkNames_holds t purpose directory names).existing
  | case3 links directory names above name hwalk =>
      cases hgoal
      have hholds := walkNames_holds t purpose directory names
      rw [hwalk] at hholds
      exact hholds
  | case5 directory names above target rest hwalk links ih => exact ih hgoal

theorem goal_holds {t : FileTree} {purpose : Purpose} {p : Path} {goal : Goal}
    (hgoal : t.goal purpose p = .ok goal) : goal.Holds t := by
  rw [FileTree.goal] at hgoal
  split at hgoal
  · cases hgoal
  · exact followLinks_holds t purpose _ _ _ hgoal

def Goal.Persists (later : FileTree) (goal : Except FileFault Goal) :
    Except FileFault Goal → Prop
  | .ok (.existing place (.file _)) => ∃ content,
      later.entryAt place = some (.file content) ∧ goal = .ok (.existing place (.file content))
  | .ok (.existing place entry) => goal = .ok (.existing place entry)
  | .ok (.vacant directory name) => ∀ content,
      later.entryAt (directory ++ [name]) = some (.file content) →
        goal = .ok (.existing (directory ++ [name]) (.file content))
  | .error _ => True

theorem followLinks_persists {t later : FileTree} (hkeeps : Keeps t later)
    {purpose purpose' : Purpose} (hallows : purpose.Allows purpose') (links : Nat)
    (directory : Location) (names : List Name) :
    Goal.Persists later (later.followLinks purpose' links directory names)
      (t.followLinks purpose links directory names) := by
  fun_induction followLinks t purpose links directory names with
  | case1 | case4 => trivial
  | case2 links directory names place entry hwalk =>
      have hpersists := walkNames_persists hkeeps hallows directory names
      rw [hwalk] at hpersists
      rw [followLinks]
      cases entry with
      | file content =>
          obtain ⟨content', hentry, hwalk'⟩ := hpersists
          exact ⟨content', hentry, by rw [hwalk']⟩
      | directory =>
          rw [show later.walkNames purpose' directory names = _ from hpersists]
          rfl
      | link target =>
          rw [show later.walkNames purpose' directory names = _ from hpersists]
          rfl
  | case3 links directory names above name hwalk =>
      have hpersists := walkNames_persists hkeeps hallows directory names
      rw [hwalk] at hpersists
      intro content hcontent
      rw [followLinks, hpersists content hcontent]
  | case5 directory names above target rest hwalk links ih =>
      have hpersists := walkNames_persists hkeeps hallows directory names
      rw [hwalk] at hpersists
      rw [followLinks, show later.walkNames purpose' directory names = _ from hpersists]
      exact ih

theorem pathFault?_of_allows {purpose purpose' : Purpose} (hallows : purpose.Allows purpose')
    (p : Path) : pathFault? purpose' p = pathFault? purpose p := by
  rcases hallows with rfl | ⟨rfl, rfl⟩
  · rfl
  · simp [pathFault?]

/-- In a later tree a path leads where it led before, or to a file put there since. -/
theorem goal_persists {t later : FileTree} (hkeeps : Keeps t later)
    {purpose purpose' : Purpose} (hallows : purpose.Allows purpose') (p : Path) :
    Goal.Persists later (later.goal purpose' p) (t.goal purpose p) := by
  rw [FileTree.goal, FileTree.goal, pathFault?_of_allows hallows]
  cases pathFault? purpose p with
  | some cause => trivial
  | none =>
      rw [hkeeps.here]
      exact followLinks_persists hkeeps hallows _ _ _

theorem isEmpty_of_goal {t : FileTree} {purpose : Purpose} {p : Path} {goal : Goal}
    (hgoal : t.goal purpose p = .ok goal) : p.isEmpty = false := by
  rw [← Bool.not_eq_true]
  intro hempty
  have hfault : pathFault? purpose p = some .nulInPath ∨ pathFault? purpose p = some .notFound := by
    simp [pathFault?, hempty, em]
  rcases hfault with hfault | hfault <;> simp [FileTree.goal, hfault] at hgoal

theorem find_eq_ok_iff {t : FileTree} {p : Path} {place : Location} {entry : Entry} :
    t.find p = .ok (place, entry) ↔ t.goal .finding p = .ok (.existing place entry) := by
  rw [find, reach]
  rcases t.goal .finding p with cause | ⟨place', entry'⟩ | ⟨directory, name⟩ <;> simp

theorem read_of_find {t : FileTree} {p : Path} {place : Location} {content : List UInt8}
    (hfind : t.find p = .ok (place, .file content)) : t.read p = .ok content := by
  rw [read, hfind]

theorem find_file_persists {t later : FileTree} (hkeeps : Keeps t later) {p : Path}
    {place : Location} {content : List UInt8} (hfind : t.find p = .ok (place, .file content)) :
    ∃ content', later.entryAt place = some (.file content') ∧
      later.find p = .ok (place, .file content') := by
  have hpersists := goal_persists hkeeps (.refl .finding) p
  rw [find_eq_ok_iff.mp hfind] at hpersists
  obtain ⟨content', hentry, hgoal⟩ := hpersists
  exact ⟨content', hentry, find_eq_ok_iff.mpr hgoal⟩

theorem find_directory_persists {t later : FileTree} (hkeeps : Keeps t later) {p : Path}
    {place : Location} (hfind : t.find p = .ok (place, .directory)) :
    later.find p = .ok (place, .directory) := by
  have hpersists := goal_persists hkeeps (.refl .finding) p
  rw [find_eq_ok_iff.mp hfind] at hpersists
  exact find_eq_ok_iff.mpr hpersists

theorem hasEntry_iff {t : FileTree} {p : Path} :
    t.hasEntry p ↔ ∃ place entry, t.find p = .ok (place, entry) := by
  rw [hasEntry]
  rcases t.find p with cause | ⟨place, entry⟩ <;> simp [Except.isOk, Except.toBool]

theorem hasEntry_persists {t later : FileTree} (hkeeps : Keeps t later) {p : Path}
    (hentry : t.hasEntry p) : later.hasEntry p := by
  obtain ⟨place, entry, hfind⟩ := hasEntry_iff.mp hentry
  have hpersists := goal_persists hkeeps (.refl .finding) p
  rw [find_eq_ok_iff.mp hfind] at hpersists
  rw [hasEntry_iff]
  cases entry with
  | file content =>
      obtain ⟨content', -, hgoal⟩ := hpersists
      exact ⟨place, .file content', find_eq_ok_iff.mpr hgoal⟩
  | directory => exact ⟨place, .directory, find_eq_ok_iff.mpr hpersists⟩
  | link target => exact ⟨place, .link target, find_eq_ok_iff.mpr hpersists⟩

theorem entryAt_of_find {t : FileTree} {p : Path} {place : Location} {content : List UInt8}
    (hfind : t.find p = .ok (place, .file content)) :
    t.entryAt place = some (.file content) :=
  goal_holds (find_eq_ok_iff.mp hfind)

/-! ## Walks that go on -/

/-- What a walk comes to when more names follow those that led to its end. -/
def Stop.onward (t : FileTree) (more : List Name) : Stop → Stop
  | .found place .directory => t.walkNames .finding place more
  | .found _ _ => .fault .notDirectory
  | .missing _ _ => .fault .notFound
  | .link directory target rest => .link directory target (rest ++ more)
  | .fault cause => .fault cause

theorem walkNames_append (t : FileTree) (directory : Location) (names : List Name)
    {more : List Name} (hmore : more ≠ []) :
    t.walkNames .finding directory (names ++ more) =
      (t.walkNames .finding directory names).onward t more := by
  induction names generalizing directory with
  | nil => simp [walkNames, Stop.onward]
  | cons name rest ih =>
      rw [List.cons_append]
      by_cases hself : name = [] ∨ name = .self
      · rw [walkNames, if_pos hself, walkNames, if_pos hself, ih]
      by_cases habove : name = .above
      · rw [walkNames, if_neg hself, if_pos habove, walkNames, if_neg hself, if_pos habove, ih]
      by_cases hlength : longestName < name.length
      · simp [walkNames, hself, habove, hlength, Stop.onward]
      have hpasses (rest : List Name) : Purpose.finding.Passes directory name rest :=
        ⟨by simp, hlength, by simp⟩
      rw [walkNames_of_passes t hself habove (hpasses _),
        walkNames_of_passes t hself habove (hpasses _)]
      rcases t.entryAt (directory ++ [name]) with - | content | - | target
      · by_cases hrest : rest = [] <;> simp [hmore, hrest, Stop.onward]
      · by_cases hrest : rest = [] <;> simp [hmore, hrest, Stop.onward]
      · exact ih (directory ++ [name])
      · rfl

/-- A walk that comes to a directory goes on from there, with the links that it has left. -/
theorem followLinks_append {t : FileTree} {links : Nat} {directory place : Location}
    {names more : List Name} (hmore : more ≠ [])
    (hgoal : t.followLinks .finding links directory names = .ok (.existing place .directory)) :
    ∃ left, t.followLinks .finding links directory (names ++ more) =
      t.followLinks .finding left place more := by
  fun_induction followLinks t .finding links directory names with
  | case1 | case3 | case4 => cases hgoal
  | case2 links directory names place' entry hwalk =>
      cases hgoal
      refine ⟨links, ?_⟩
      rw [followLinks, followLinks, walkNames_append t directory names hmore, hwalk]
      rfl
  | case5 directory names above target rest hwalk links ih =>
      obtain ⟨left, hleft⟩ := ih hgoal
      refine ⟨left, ?_⟩
      rw [followLinks, walkNames_append t directory names hmore, hwalk, Stop.onward]
      dsimp only
      rw [← List.append_assoc]
      exact hleft

/-- A walk that ends at a directory because it is to be one ends there anyway. -/
theorem followLinks_of_slash {t : FileTree} {links : Nat} {directory place : Location}
    {names : List Name}
    (hgoal : t.followLinks .finding links directory (names ++ [[]]) =
      .ok (.existing place .directory)) :
    t.followLinks .finding links directory names = .ok (.existing place .directory) := by
  fun_induction followLinks t .finding links directory names with
  | case1 links directory names cause hwalk | case3 links directory names _ _ hwalk =>
      rw [followLinks, walkNames_append t directory names (List.cons_ne_nil _ _), hwalk] at hgoal
      cases hgoal
  | case2 links directory names place' entry hwalk =>
      rw [followLinks, walkNames_append t directory names (List.cons_ne_nil _ _), hwalk] at hgoal
      cases entry with
      | directory => simpa [Stop.onward, walkNames] using hgoal
      | file content => cases hgoal
      | link target => cases hgoal
  | case4 directory names above target rest hwalk =>
      rw [followLinks, walkNames_append t directory names (List.cons_ne_nil _ _), hwalk] at hgoal
      cases hgoal
  | case5 directory names above target rest hwalk links ih =>
      rw [followLinks, walkNames_append t directory names (List.cons_ne_nil _ _), hwalk,
        Stop.onward] at hgoal
      dsimp only at hgoal
      rw [← List.append_assoc] at hgoal
      exact ih hgoal

end FileTree

end RewardPlot
