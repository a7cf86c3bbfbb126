import Concordance.Proofs.Files.Verdicts

/-!
# What is seen of files at one path

Two trees of files with the same limits are the same to one who reads and saves at a plain path
(`SameAt`) if they have the same obstacles on the way to it, and both have a directory at its end or
neither has (`SameTo.sameAt`). A save elsewhere changes nothing of that (`SameAt.of_save_apart`), and
a save at the path itself does the same in both, also when it breaks off (`SameAt.of_save`).
-/

namespace Concordance

namespace Files

variable {f f' : Files} {path other : String} {names : List String} {bytes : ByteArray}

/-- Whoever reads and saves at a path alone cannot tell the files apart: the path holds the same,
and a save to it succeeds in both or fails in both for the same cause. -/
structure SameAt (path : String) (f f' : Files) : Prop where
  limits : f'.limits = f.limits
  read : (f'.read path).toOption = (f.read path).toOption
  save : ∀ bytes, (f'.save path bytes).2 = (f.save path bytes).2

namespace SameAt

theorem refl (path : String) (f : Files) : SameAt path f f :=
  ⟨rfl, rfl, fun _ => rfl⟩

theorem symm (h : SameAt path f f') : SameAt path f' f :=
  ⟨h.limits.symm, h.read.symm, fun bytes => (h.save bytes).symm⟩

theorem trans {g : Files} (h : SameAt path f f') (h' : SameAt path f' g) : SameAt path f g :=
  ⟨h'.limits.trans h.limits, h'.read.trans h.read,
    fun bytes => (h'.save bytes).trans (h.save bytes)⟩

end SameAt

theorem read_toOption_congr (htree : f.IsTree) (htree' : f'.IsTree) (h : Path.Leads path names)
    (hsame : SameWayTo names f f') : (f'.read path).toOption = (f.read path).toOption := by
  ext bytes
  have hiff (g : Files) : (g.read path).toOption = some bytes ↔ g.read path = .ok bytes := by
    cases g.read path <;> simp [Except.toOption]
  rw [hiff, hiff, htree.read_eq_ok_iff h, htree'.read_eq_ok_iff h, wayTo_congr h hsame,
    hsame.file names (List.prefix_refl _)]

theorem SameTo.sameAt (hsame : SameTo names f f') (htree : f.IsTree) (htree' : f'.IsTree)
    (h : Path.Leads path names) : SameAt path f f' := by
  refine ⟨hsame.limits, read_toOption_congr htree htree' h hsame.way, fun bytes => ?_⟩
  rw [save_outcome htree h, save_outcome htree' h, saveVerdict_congr h hsame]

/-- A save that is refused cannot be told at its path either. -/
theorem sameAt_of_save_eq_error (htree : f.IsTree) (hpath : Path.IsPlain path) {cause : FileError}
    (hsave : f.save path bytes = (f', .error cause)) (hfull : cause ≠ .storageFull) :
    SameAt path f f' := by
  obtain ⟨names, h⟩ := hpath.exists_leads
  have hafter : f' = (f.makeDirectories (Path.directories path).reverse).1 := by
    cases hmade : f.makeDirectories (Path.directories path).reverse with
    | mk g made =>
      cases made with
      | error cause' =>
        rw [save_of_unmade hmade] at hsave
        cases hsave
        rfl
      | ok _ =>
        rw [save_of_made hmade] at hsave
        cases Writes.of_eq hsave with
        | refused _ => rfl
        | torn _ _ _ => exact absurd rfl hfull
  have htree' : f'.IsTree := hafter ▸ htree.makeDirectories _
  exact (hafter ▸ f.sameTo_makeDirectories h : SameTo names f f').sameAt htree htree' h

/-- Over a file that is there it is for the limits to decide about a save. -/
theorem save_outcome_of_find {old : ByteArray} (h : f.find path = .ok (.file old))
    (bytes : ByteArray) : (f.save path bytes).2 = f.fillVerdict (Path.target path) bytes := by
  obtain ⟨loc, hloc, hplace⟩ := place_of_find h
  obtain rfl := eq_target_of_resolve hloc
  rw [save_of_find h, write_outcome_of_place, hplace, fillVerdict]
  cases f.limits.isSealed (Path.target path) <;> rfl

/-- Files with the same limits that hold the same at a path are the same there. -/
theorem sameAt_of_find (hlimits : f'.limits = f.limits) (h : f.find path = .ok (.file bytes))
    (h' : f'.find path = .ok (.file bytes)) : SameAt path f f' := by
  refine ⟨hlimits, ?_, fun bytes' => ?_⟩
  · rw [read_eq_ok_iff.mpr h, read_eq_ok_iff.mpr h']
  · rw [save_outcome_of_find h, save_outcome_of_find h', fillVerdict, fillVerdict, hlimits]

/-- Once its file has been opened, a save leaves what there is room for. -/
theorem find_of_save_opened {outcome : Except FileError Unit}
    (h : f.save path bytes = (f', outcome))
    (hopened : outcome = .ok () ∨ outcome = .error .storageFull) :
    f'.find path = .ok (.file (f.limits.fit (Path.target path) bytes)) := by
  cases Saves.of_eq h with
  | refused _ notFull => simp [notFull] at hopened
  | whole _ places fits =>
    obtain rfl := eq_target_of_resolve places.resolve
    rw [fits]
    exact places.find_put bytes
  | torn _ places _ fits =>
    obtain rfl := eq_target_of_resolve places.resolve
    rw [fits]
    exact places.find_put _

/-- **A save at the path** does the same in both files. -/
theorem SameAt.of_save (hsame : SameAt path f f') (htree : f.IsTree) (htree' : f'.IsTree)
    (hpath : Path.IsPlain path) (bytes : ByteArray) :
    SameAt path (f.save path bytes).1 (f'.save path bytes).1 := by
  have houtcome := hsame.save bytes
  have hlimits : (f'.save path bytes).1.limits = (f.save path bytes).1.limits := by
    rw [limits_save, limits_save, hsame.limits]
  cases hsave : f.save path bytes with
  | mk g outcome =>
    cases hsave' : f'.save path bytes with
    | mk g' outcome' =>
      rw [hsave, hsave'] at houtcome hlimits
      obtain rfl : outcome' = outcome := houtcome
      by_cases hopened : outcome' = .ok () ∨ outcome' = .error .storageFull
      · have hfind' := find_of_save_opened hsave' hopened
        rw [hsame.limits] at hfind'
        exact sameAt_of_find hlimits (find_of_save_opened hsave hopened) hfind'
      · cases outcome' with
        | ok _ => exact absurd (.inl rfl) hopened
        | error cause =>
          have hfull : cause ≠ .storageFull := by
            rintro rfl
            exact hopened (.inr rfl)
          have hkept := sameAt_of_save_eq_error htree hpath hsave hfull
          have hkept' := sameAt_of_save_eq_error htree' hpath hsave' hfull
          exact (hkept.symm.trans hsame).trans hkept'

end Files

end Concordance
