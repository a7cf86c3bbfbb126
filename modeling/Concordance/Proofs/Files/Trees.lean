import Concordance.Proofs.Files.Directories
import Concordance.Proofs.Path.Plain

/-!
# Trees of files

Entries stand in directories alone: below what is no directory there is nothing (`IsTree`). A save
keeps this, since an entry is put only where a step has left a directory (`get?_of_child_of_walk`),
and in the place of no directory.

A save puts a file at the target of its path, and directories at the targets of the directories on
the way; every other location it leaves as it is (`get?_makeDirectories_of_ne`,
`get?_save_of_ne_target`).
-/

namespace Concordance

namespace Location

theorem child_ne_self (dir : Location) (name : String) : dir.child name ≠ dir := by
  intro heq
  have hlength := congrArg (·.names.length) heq
  simp [child] at hlength

theorem child_inj {dir dir' : Location} {name name' : String} :
    dir.child name = dir'.child name' ↔ dir = dir' ∧ name = name' := by
  obtain ⟨origin, names⟩ := dir
  obtain ⟨origin', names'⟩ := dir'
  simp [child, and_assoc]

end Location

namespace Files

variable {f f' : Files} {path : String} {loc : Location} {bytes : ByteArray}

/-! ## Where a path ends -/

theorem eq_foldl_of_walk {start loc : Location} {steps : List PathStep}
    (h : f.walk start steps = .ok loc) : loc = steps.foldl PathStep.apply start := by
  induction steps generalizing start with
  | nil =>
    cases h
    rfl
  | cons s steps ih =>
    have hdir := get?_of_walk_cons h
    rw [walk, hdir] at h
    cases hlong : s.isTooLong with
    | true =>
      rw [hlong] at h
      cases h
    | false =>
      rw [hlong] at h
      exact ih h

/-- A path that leads somewhere leads to its target. -/
theorem eq_target_of_resolve (h : f.resolve path = .ok loc) : loc = Path.target path :=
  eq_foldl_of_walk (resolve_eq_ok_iff.mp h).2

theorem get?_start (f : Files) (path : String) : f.get? (Path.start path) = some .directory := by
  rw [Path.start]
  split <;> rfl

/-! ## Saves change nothing else -/

theorem get?_makeDirectories_of_ne {paths : List String} (h : ∀ q ∈ paths, loc ≠ Path.target q) :
    (f.makeDirectories paths).1.get? loc = f.get? loc := by
  refine makeDirectories_induction (P := fun g => g.get? loc = f.get? loc) ?_ rfl
  intro q hq g g' hkept hmade
  obtain ⟨loc', hloc', -, -, rfl⟩ := makeDirectory_eq_ok_iff.mp hmade
  have hne : loc ≠ loc' := by
    rw [eq_target_of_resolve hloc']
    exact h q hq
  rw [get?_put_of_ne g hne, hkept]

/-- A save makes directories, and may then write a file. -/
theorem save_cases (f : Files) (path : String) (bytes : ByteArray) :
    let g := (f.makeDirectories (Path.directories path).reverse).1
    (f.save path bytes).1 = g ∨
      ∃ loc kept, g.Places path loc ∧ (f.save path bytes).1 = g.put loc (.file kept) := by
  cases hmade : f.makeDirectories (Path.directories path).reverse with
  | mk g made =>
    cases made with
    | error cause => exact .inl (by rw [save_of_unmade hmade])
    | ok _ =>
      rw [save_of_made hmade]
      cases hwrite : g.write path bytes with
      | mk g' outcome =>
        cases Writes.of_eq hwrite with
        | refused _ => exact .inl rfl
        | whole places _ => exact .inr ⟨_, _, places, rfl⟩
        | torn places _ _ => exact .inr ⟨_, _, places, rfl⟩

/-- Below what is no directory there is nothing. -/
def IsTree (f : Files) : Prop :=
  ∀ dir name, f.get? dir ≠ some .directory → f.get? (dir.child name) = none

theorem IsTree.empty : ({} : Files).IsTree := by
  intro dir name _
  rw [get?, if_neg (by simp [Location.child])]
  rfl

namespace IsTree

theorem put (h : f.IsTree) {e : Entry} (hentry : f.get? loc ≠ some .directory)
    (hparent : ∀ dir name, loc = dir.child name → f.get? dir = some .directory) :
    (f.put loc e).IsTree := by
  intro dir name hdir
  have hchild : dir.child name ≠ loc := by
    -- The directory of the new entry is still one.
    rintro rfl
    refine hdir ?_
    rw [get?_put_of_ne f (Location.child_ne_self dir name).symm]
    exact hparent dir name rfl
  rw [get?_put_of_ne f hchild]
  by_cases hloc : dir = loc
  · rw [hloc]
    exact h loc name hentry
  · rw [get?_put_of_ne f hloc] at hdir
    exact h dir name hdir

/-- Where nothing is, there is nothing further down. -/
theorem get?_below_append (h : f.IsTree) {names : List String}
    (hnone : f.get? (.below names) = none) (more : List String) :
    f.get? (.below (names ++ more)) = none := by
  induction more generalizing names with
  | nil => rwa [List.append_nil]
  | cons name more ih =>
    have hnext : f.get? (.below (names ++ [name])) = none :=
      h (.below names) name (by simp [hnone])
    rw [List.append_cons]
    exact ih hnext

theorem get?_parent (h : f.IsTree) (hloc : f.get? loc = some .directory) :
    f.get? loc.parent = some .directory := by
  obtain ⟨origin, names⟩ := loc
  rcases List.eq_nil_or_concat names with rfl | ⟨names, name, rfl⟩
  · cases origin <;> rfl
  · rw [List.concat_eq_append] at hloc ⊢
    have hparent : Location.parent ⟨origin, names ++ [name]⟩ = ⟨origin, names⟩ := by
      rw [Location.parent, List.dropLast_concat]
      simp
    rw [hparent]
    refine Classical.byContradiction fun hdir => ?_
    have hnone : f.get? ⟨origin, names ++ [name]⟩ = none := h ⟨origin, names⟩ name hdir
    rw [hnone] at hloc
    cases hloc

/-- Whatever a path leads to, other than a directory, stands in a directory. -/
theorem get?_of_child_of_walk (h : f.IsTree) {start : Location} {steps : List PathStep}
    (hwalk : f.walk start steps = .ok loc) (hstart : f.get? start = some .directory)
    (hentry : f.get? loc ≠ some .directory) {dir : Location} {name : String}
    (hloc : loc = dir.child name) : f.get? dir = some .directory := by
  rcases List.eq_nil_or_concat steps with rfl | ⟨steps, s, rfl⟩
  · cases hwalk
    exact absurd hstart hentry
  · rw [List.concat_eq_append, walk_append] at hwalk
    cases hfirst : f.walk start steps with
    | error cause =>
      rw [hfirst] at hwalk
      cases hwalk
    | ok mid =>
      rw [hfirst] at hwalk
      have hmid : f.get? mid = some .directory := get?_of_walk_cons hwalk
      have hlast : loc = s.apply mid := eq_foldl_of_walk hwalk
      -- Only a step that enters leads to what is no directory.
      cases s with
      | here => exact absurd (hlast ▸ hmid) hentry
      | up => exact absurd (hlast ▸ h.get?_parent hmid) hentry
      | enter name' =>
        obtain ⟨rfl, -⟩ := Location.child_inj.mp (hloc.symm.trans hlast)
        exact hmid

theorem put_of_resolve (h : f.IsTree) (hloc : f.resolve path = .ok loc)
    (hentry : f.get? loc ≠ some .directory) (e : Entry) : (f.put loc e).IsTree :=
  h.put hentry fun _ _ => h.get?_of_child_of_walk (resolve_eq_ok_iff.mp hloc).2
    (get?_start f path) hentry

theorem makeDirectories (h : f.IsTree) (paths : List String) :
    (f.makeDirectories paths).1.IsTree := by
  refine makeDirectories_induction (fun _ _ g g' hg hmade => ?_) h
  obtain ⟨loc, hloc, hnone, -, rfl⟩ := makeDirectory_eq_ok_iff.mp hmade
  exact hg.put_of_resolve hloc (by simp [hnone]) .directory

/-- **Saving keeps a tree.** -/
theorem save (h : f.IsTree) (path : String) (bytes : ByteArray) :
    (f.save path bytes).1.IsTree := by
  have hmade := h.makeDirectories (Path.directories path).reverse
  rcases save_cases f path bytes with heq | ⟨loc, kept, hplaces, heq⟩ <;> rw [heq]
  · exact hmade
  · exact hmade.put_of_resolve hplaces.resolve hplaces.entry (.file kept)

end IsTree

end Files

end Concordance
