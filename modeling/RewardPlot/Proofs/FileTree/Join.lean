import RewardPlot.Proofs.FileTree.Edit
import RewardPlot.Proofs.Text.Splitting
/-!
# Entries of a directory by their paths

The path of a directory with a name behind it leads to the entry of that name.
-/

namespace RewardPlot

/-! ## Names -/

/-- A name that an entry can have. -/
structure Name.Proper (name : Name) : Prop where
  ne_nil : name ≠ []
  ne_self : name ≠ self
  ne_above : name ≠ above
  slash : Path.slash ∉ name
  length : name.length ≤ FileTree.longestName

instance (name : Name) : Decidable name.Proper :=
  decidable_of_iff (name ≠ [] ∧ name ≠ .self ∧ name ≠ .above ∧ Path.slash ∉ name ∧
      name.length ≤ FileTree.longestName)
    ⟨fun h => ⟨h.1, h.2.1, h.2.2.1, h.2.2.2.1, h.2.2.2.2⟩,
      fun h => ⟨h.ne_nil, h.ne_self, h.ne_above, h.slash, h.length⟩⟩

theorem Name.Proper.not_self {name : Name} (h : name.Proper) : ¬(name = [] ∨ name = self) :=
  not_or.mpr ⟨h.ne_nil, h.ne_self⟩

theorem Path.slash_not_mem_of_mem_steps {p : Path} {name : Name} (hname : name ∈ p.steps) :
    slash ∉ name := by
  have hpieces : ∀ piece ∈ p.pieces.filter (· ≠ []), slash ∉ piece :=
    fun piece hpiece => Text.not_mem_of_mem_splitOn (List.mem_of_mem_filter hpiece)
  unfold steps at hname
  dsimp only at hname
  split at hname
  · rcases List.mem_append.mp hname with hname | hname
    · exact hpieces name hname
    · simp_all
  · exact hpieces name hname

namespace FileTree

def ProperPlace (place : Location) : Prop := ∀ name ∈ place, name.Proper

instance (place : Location) : Decidable (ProperPlace place) :=
  inferInstanceAs (Decidable (∀ name ∈ place, name.Proper))

/-- All entries have proper names, and relative paths begin at such a place. -/
structure WellNamed (t : FileTree) : Prop where
  here : ProperPlace t.here
  entries : ∀ e ∈ t.entries, ProperPlace e.1

theorem WellNamed.names {t : FileTree} (h : t.WellNamed) {directory : Location} {name : Name}
    (hname : name ∈ t.names directory) : name.Proper := by
  rw [FileTree.names, List.mem_filterMap] at hname
  obtain ⟨⟨place, entry⟩, hentry, hlast⟩ := hname
  dsimp only at hlast
  split at hlast
  · exact h.entries _ hentry name (List.mem_of_getLast? hlast)
  · cases hlast

/-! ## Places that walks come to -/

def Stop.ProperPlaces : Stop → Prop
  | .found place _ => ProperPlace place
  | .missing directory name => ProperPlace (directory ++ [name])
  | .link directory _ rest => ProperPlace directory ∧ ∀ name ∈ rest, Path.slash ∉ name
  | .fault _ => True

theorem ProperPlace.snoc {directory : Location} (hdirectory : ProperPlace directory)
    {name : Name} (hself : ¬(name = [] ∨ name = .self)) (habove : name ≠ .above)
    (hslash : Path.slash ∉ name) (hlength : ¬longestName < name.length) :
    ProperPlace (directory ++ [name]) := by
  intro other hother
  rcases List.mem_append.mp hother with hother | hother
  · exact hdirectory other hother
  · rw [List.mem_singleton.mp hother]
    obtain ⟨hnil, hself⟩ := not_or.mp hself
    exact ⟨hnil, hself, habove, hslash, Nat.not_lt.mp hlength⟩

/-- A walk takes names as they are in its path, so it comes to proper places only. -/
theorem walkNames_properPlaces (t : FileTree) (purpose : Purpose) {directory : Location}
    {names : List Name} (hdirectory : ProperPlace directory)
    (hnames : ∀ name ∈ names, Path.slash ∉ name) :
    (t.walkNames purpose directory names).ProperPlaces := by
  fun_induction walkNames t purpose directory names with
  | case1 directory => exact hdirectory
  | case2 directory name rest hself ih =>
      exact ih hdirectory fun n hn => hnames n (by simp [hn])
  | case3 directory rest hself ih =>
      exact ih (fun n hn => hdirectory n (List.dropLast_subset _ hn))
        fun n hn => hnames n (by simp [hn])
  | case4 | case5 | case6 | case8 | case11 => trivial
  | case7 directory name hself habove hlength place hpath hentry hslash =>
      exact hdirectory.snoc hself habove (hnames name (by simp)) hlength
  | case9 directory name rest hself habove hslash hlength place hpath hentry ih =>
      exact ih (hdirectory.snoc hself habove (hnames name (by simp)) hlength)
        fun n hn => hnames n (by simp [hn])
  | case10 directory name hself habove hlength place hpath content hentry hslash =>
      exact hdirectory.snoc hself habove (hnames name (by simp)) hlength
  | case12 directory name rest hself habove hslash hlength place hpath target hentry =>
      exact ⟨hdirectory, fun n hn => hnames n (by simp [hn])⟩

theorem properPlace_origin {directory : Location} (hdirectory : ProperPlace directory)
    (p : Path) : ProperPlace (origin directory p) := by
  unfold origin
  split
  · simp [ProperPlace]
  · exact hdirectory

theorem followLinks_properPlace (t : FileTree) (purpose : Purpose) {links : Nat}
    {directory place : Location} {names : List Name} {entry : Entry}
    (hdirectory : ProperPlace directory) (hnames : ∀ name ∈ names, Path.slash ∉ name)
    (hgoal : t.followLinks purpose links directory names = .ok (.existing place entry)) :
    ProperPlace place := by
  fun_induction followLinks t purpose links directory names with
  | case1 | case3 | case4 => cases hgoal
  | case2 links directory names place' entry' hwalk =>
      cases hgoal
      have hproper := t.walkNames_properPlaces purpose hdirectory hnames
      rwa [hwalk] at hproper
  | case5 directory names above target rest hwalk links ih =>
      have hproper := t.walkNames_properPlaces purpose hdirectory hnames
      rw [hwalk] at hproper
      refine ih (properPlace_origin hproper.1 target) ?_ hgoal
      intro name hname
      rcases List.mem_append.mp hname with hname | hname
      · exact Path.slash_not_mem_of_mem_steps hname
      · exact hproper.2 name hname

theorem properPlace_of_find {t : FileTree} (hhere : ProperPlace t.here) {p : Path}
    {place : Location} {entry : Entry} (hfind : t.find p = .ok (place, entry)) :
    ProperPlace place := by
  have hgoal := find_eq_ok_iff.mp hfind
  rw [goal] at hgoal
  split at hgoal
  · cases hgoal
  · exact t.followLinks_properPlace .finding (properPlace_origin hhere p)
      (fun _ => Path.slash_not_mem_of_mem_steps) hgoal

end FileTree

/-! ## Names behind paths -/

namespace Path

variable {p : Path} {name : Name}

theorem not_endsWithSlash_of_proper (hname : name.Proper) (bytes : List UInt8) :
    (Path.mk (bytes ++ name)).endsWithSlash = false := by
  rw [endsWithSlash, List.getLast?_append_of_ne_nil _ hname.ne_nil, decide_eq_false_iff_not]
  intro hlast
  exact hname.slash (List.mem_of_getLast? hlast)

theorem endsWithSlash_join (hname : name.Proper) : (p.join name).endsWithSlash = false := by
  unfold join
  split
  · exact not_endsWithSlash_of_proper hname _
  · rw [List.append_cons]
    exact not_endsWithSlash_of_proper hname _

/-- The pieces of a path stay as they are, whether it ends with a slash or is given one. -/
theorem pieces_join (hsome : ¬p.isEmpty) (hname : name.Proper) :
    (p.join name).pieces.filter (· ≠ []) = p.pieces.filter (· ≠ []) ++ [name] := by
  have hone : name.splitOn slash = [name] := List.splitOn_eq_singleton hname.slash
  unfold join pieces
  split
  · next hends =>
    obtain ⟨front, hfront⟩ : ∃ front, p.bytes = front ++ [slash] := by
      have hlast : p.bytes.getLast? = some slash := by
        simpa [endsWithSlash] using hends.resolve_left hsome
      exact ⟨_, (List.dropLast_append_getLast? slash hlast).symm⟩
    have hends' : (front ++ [slash]).splitOn slash = front.splitOn slash ++ [[]] := by
      rw [List.splitOn_append_cons_self, List.splitOn_nil]
    rw [hfront, List.append_assoc, List.singleton_append, List.splitOn_append_cons_self,
      hends', hone]
    simp [hname.ne_nil]
  · rw [List.splitOn_append_cons_self, hone]
    simp [hname.ne_nil]

/-- A walk along a path with a name behind it takes the names of the path and then that
name. -/
theorem steps_join (hsome : ¬p.isEmpty) (hname : name.Proper) :
    ∃ names, (p.steps = names ∨ p.steps = names ++ [[]]) ∧
      (p.join name).steps = names ++ [name] := by
  refine ⟨p.pieces.filter (· ≠ []), ?_, ?_⟩
  · unfold steps
    dsimp only
    split <;> simp
  · unfold steps
    rw [pieces_join hsome hname, endsWithSlash_join hname]
    simp

theorem isAbsolute_join (hsome : ¬p.isEmpty) : (p.join name).isAbsolute = p.isAbsolute := by
  have hbytes : p.bytes ≠ [] := by simpa [isEmpty] using hsome
  unfold join isAbsolute
  split <;> rw [List.head?_append_of_ne_nil _ hbytes]

end Path

namespace FileTree

variable {t : FileTree} {p : Path} {place : Location} {name : Name}

/-- A directory is left for the entry of a name, with the links that are left. -/
theorem goal_join (hfind : t.find p = .ok (place, .directory)) (hname : name.Proper)
    (hfault : pathFault? .finding (p.join name) = none) :
    ∃ left, t.goal .finding (p.join name) = t.followLinks .finding left place [name] := by
  have hgoal := find_eq_ok_iff.mp hfind
  have hsome : ¬p.isEmpty := by simp [isEmpty_of_goal hgoal]
  rw [goal] at hgoal ⊢
  split at hgoal
  · cases hgoal
  · obtain ⟨names, hsteps, hjoin⟩ := Path.steps_join hsome hname
    have hnames : t.followLinks .finding mostLinks (origin t.here p) names =
        .ok (.existing place .directory) := by
      rcases hsteps with hsteps | hsteps
      · rwa [hsteps] at hgoal
      · rw [hsteps] at hgoal
        exact followLinks_of_slash hgoal
    have horigin : origin t.here (p.join name) = origin t.here p := by
      rw [origin, origin, Path.isAbsolute_join hsome]
    rw [hfault, horigin, hjoin]
    exact followLinks_append (List.cons_ne_nil _ _) hnames

/-- The path of a directory with a name behind it leads to the entry of that name. -/
theorem find_join (hfind : t.find p = .ok (place, .directory)) (hname : name.Proper)
    (hfault : pathFault? .finding (p.join name) = none) {entry : Entry}
    (hentry : t.entryAt (place ++ [name]) = some entry)
    (hlink : ∀ target, entry ≠ .link target) :
    t.find (p.join name) = .ok (place ++ [name], entry) := by
  obtain ⟨left, hgoal⟩ := goal_join hfind hname hfault
  have hpasses : Purpose.finding.Passes place name [] :=
    ⟨by simp, Nat.not_lt.mpr hname.length, by simp⟩
  rw [find_eq_ok_iff, hgoal, followLinks,
    walkNames_of_passes t hname.not_self hname.ne_above hpasses, hentry]
  cases entry with
  | file content => rfl
  | directory => rfl
  | link target => exact absurd rfl (hlink target)

end FileTree

end RewardPlot
