import RewardPlot.Candidate
import RewardPlot.Proofs.FileTree.Edit
import Mathlib.Data.List.Forall2
import Mathlib.Data.List.Nodup
/-!
# What is known of candidates

A directory has one candidate for each of its names, which are all different.  A candidate
that is a trace has a path that leads to a file.
-/

namespace RewardPlot

theorem FileTree.nodup_names (t : FileTree) (directory : Location) :
    (t.names directory).Nodup := by
  have hplaces : t.names directory = (t.entries.map Prod.fst).filterMap fun place =>
      if place.dropLast = directory then place.getLast? else none := by
    rw [List.filterMap_map]
    rfl
  rw [hplaces]
  apply t.distinct.filterMap
  intro place place' name hname hname'
  simp only [Option.mem_def, Option.ite_none_right_eq_some] at hname hname'
  calc
    place = directory ++ [name] := by
      rw [← hname.1, List.dropLast_append_getLast? name hname.2]
    _ = place' := by
      rw [← hname'.1, List.dropLast_append_getLast? name hname'.2]

/-- What succeeds on a whole list succeeds on each of its members. -/
theorem forall₂_of_mapM {α β ε : Type} {f : α → Except ε β} {xs : List α} {ys : List β}
    (hmap : xs.mapM f = .ok ys) : List.Forall₂ (fun x y => f x = .ok y) xs ys := by
  induction xs generalizing ys with
  | nil =>
      cases hmap
      exact .nil
  | cons x xs ih =>
      rw [List.mapM_cons] at hmap
      cases hx : f x with
      | error fault =>
          rw [hx] at hmap
          cases hmap
      | ok y =>
          cases hxs : xs.mapM f with
          | error fault =>
              rw [hx, hxs] at hmap
              cases hmap
          | ok ys' =>
              rw [hx, hxs] at hmap
              cases hmap
              exact .cons hx (ih hxs)

theorem exists_mapM_eq_ok {α β ε : Type} {f : α → Except ε β} {xs : List α}
    (hok : ∀ x ∈ xs, ∃ y, f x = .ok y) : ∃ ys, xs.mapM f = .ok ys := by
  induction xs with
  | nil => exact ⟨[], rfl⟩
  | cons x xs ih =>
      obtain ⟨y, hy⟩ := hok x List.mem_cons_self
      obtain ⟨ys, hys⟩ := ih fun z hz => hok z (List.mem_cons_of_mem x hz)
      refine ⟨y :: ys, ?_⟩
      rw [List.mapM_cons, hy, hys]
      rfl

theorem mapM_of_forall₂ {α β ε : Type} {f : α → Except ε β} {xs : List α} {ys : List β}
    (hall : List.Forall₂ (fun x y => f x = .ok y) xs ys) : xs.mapM f = .ok ys := by
  induction hall with
  | nil => rfl
  | cons hx _ ih =>
      rw [List.mapM_cons, hx, ih]
      rfl

/-- What fails on a list fails on the first member on which it fails. -/
theorem mapM_eq_error_iff {α β ε : Type} {f : α → Except ε β} {xs : List α} {fault : ε} :
    xs.mapM f = .error fault ↔
      ∃ front x back, xs = front ++ x :: back ∧ (∀ y ∈ front, ∃ z, f y = .ok z) ∧
        f x = .error fault := by
  constructor
  · intro hmap
    induction xs with
    | nil => cases hmap
    | cons x xs ih =>
        rw [List.mapM_cons] at hmap
        cases hx : f x with
        | error fault' =>
            rw [hx] at hmap
            cases hmap
            exact ⟨[], x, xs, rfl, by simp, hx⟩
        | ok z =>
            cases hxs : xs.mapM f with
            | ok zs =>
                rw [hx, hxs] at hmap
                cases hmap
            | error fault' =>
                rw [hx, hxs] at hmap
                cases hmap
                obtain ⟨front, x', back, rfl, hfront, hx'⟩ := ih hxs
                exact ⟨x :: front, x', back, rfl, List.forall_mem_cons.mpr ⟨⟨z, hx⟩, hfront⟩, hx'⟩
  · rintro ⟨front, x, back, rfl, hfront, hx⟩
    obtain ⟨zs, hzs⟩ := exists_mapM_eq_ok hfront
    rw [List.mapM_append, hzs, List.mapM_cons, hx]
    rfl

theorem exists_of_forall₂ {α β : Type} {R : α → β → Prop} {xs : List α} {ys : List β}
    (hall : List.Forall₂ R xs ys) {x : α} (hx : x ∈ xs) : ∃ y ∈ ys, R x y := by
  induction hall with
  | nil => contradiction
  | @cons x' y xs ys hxy _ ih =>
      rcases List.mem_cons.mp hx with rfl | hx
      · exact ⟨y, by simp, hxy⟩
      · obtain ⟨y', hy', hxy'⟩ := ih hx
        exact ⟨y', by simp [hy'], hxy'⟩

theorem forall₂_mem {α β : Type} {R : α → β → Prop} {xs : List α} {ys : List β}
    (hall : List.Forall₂ R xs ys) :
    List.Forall₂ (fun x y => x ∈ xs ∧ y ∈ ys ∧ R x y) xs ys := by
  induction hall with
  | nil => exact .nil
  | cons hxy _ ih =>
      refine .cons ⟨by simp, by simp, hxy⟩ (ih.imp ?_)
      rintro x y ⟨hx, hy, hxy⟩
      exact ⟨List.mem_cons_of_mem _ hx, List.mem_cons_of_mem _ hy, hxy⟩

namespace Candidate

theorem describe_ok {t : FileTree} {directory : Path} {name : Name} {c : Candidate}
    (hdescribe : describe t directory name = .ok c) :
    c.path = directory.join name ∧ c.label = Utf8.toStringLossy name ∧
      (c.isFile → ∃ place content, t.find c.path = .ok (place, .file content)) := by
  rw [describe] at hdescribe
  dsimp only at hdescribe
  split at hdescribe
  · next place content hfind =>
    cases hdescribe
    exact ⟨rfl, rfl, fun _ => ⟨place, content, hfind⟩⟩
  · cases hdescribe
    exact ⟨rfl, rfl, by simp⟩
  · cases hdescribe
    exact ⟨rfl, rfl, by simp⟩
  · cases hdescribe

theorem isFile_of_isTrace {c : Candidate} (htrace : c.isTrace) : c.isFile := by
  rw [isTrace, Bool.and_eq_true, Bool.and_eq_true] at htrace
  exact htrace.1.1

/-- The suffix of a name as text. -/
def suffixOf (name : Name) : Option String :=
  (Name.extension? name).map fun e => "." ++ Utf8.toStringLossy e

/-- The candidate of a name that leads to an entry. -/
def ofEntry (directory : Path) (name : Name) : Entry → Candidate
  | .file content =>
    { path := directory.join name, label := Utf8.toStringLossy name, size := content.length,
      suffix := suffixOf name, isFile := true }
  | _ =>
    { path := directory.join name, label := Utf8.toStringLossy name, size := 0,
      suffix := suffixOf name, isFile := false }

theorem describe_of_find {t : FileTree} {directory : Path} {name : Name} {place : Location}
    {entry : Entry} (hfind : t.find (directory.join name) = .ok (place, entry)) :
    describe t directory name = .ok (ofEntry directory name entry) := by
  rw [describe, hfind]
  cases entry <;> rfl

/-- An entry is described only if its path can be looked up. -/
theorem pathFault?_of_describe {t : FileTree} {directory : Path} {name : Name} {f : Candidate}
    (hdescribe : describe t directory name = .ok f) (hname : name ≠ []) :
    FileTree.pathFault? .finding (directory.join name) = none := by
  have hsome : (directory.join name).isEmpty = false := by
    unfold Path.join Path.isEmpty
    split <;> simp [hname]
  cases hfault : FileTree.pathFault? .finding (directory.join name) with
  | none => rfl
  | some cause =>
      have hfind : t.find (directory.join name) = .error cause := by
        rw [FileTree.find, FileTree.reach, FileTree.goal, hfault]
      have hcause : cause ≠ .notFound := by
        rintro rfl
        unfold FileTree.pathFault? at hfault
        simp only [hsome, Bool.false_eq_true, if_false] at hfault
        split_ifs at hfault <;> cases hfault
      rw [describe, hfind] at hdescribe
      cases cause <;> simp_all

/-- An entry of a directory is a trace. -/
structure InDirectory (t : FileTree) (directory : Path) (name : Name) (c : Candidate) :
    Prop where
  entry : ∃ place, t.find directory = .ok (place, .directory) ∧ name ∈ t.names place
  described : describe t directory name = .ok c
  trace : c.isTrace

theorem InDirectory.find {t : FileTree} {directory : Path} {name : Name} {c : Candidate}
    (h : InDirectory t directory name c) :
    ∃ place content, t.find c.path = .ok (place, .file content) :=
  (describe_ok h.described).2.2 (isFile_of_isTrace h.trace)

/-- The candidates of a directory are its names, described one by one. -/
theorem inDirectory_ok {t : FileTree} {directory : Path} {files : List Candidate}
    (hfiles : inDirectory t directory = .ok files) :
    ∃ place, t.find directory = .ok (place, .directory) ∧
      List.Forall₂ (fun name f => describe t directory name = .ok f) (t.names place) files := by
  rw [inDirectory] at hfiles
  split at hfiles
  · next place hfind => exact ⟨place, hfind, forall₂_of_mapM hfiles⟩
  · cases hfiles

end Candidate

end RewardPlot
