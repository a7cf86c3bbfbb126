import Concordance.Proofs.Files

/-!
# Directories that are made on the way

Before a file is saved the directories on the way to it are made, and they stay when the save fails
then. So a save that is refused changes no file, but it may add directories (`AddsDirectories`),
through which everything that was found before is found as before (`AddsDirectories.find`). Only a
save that breaks off leaves a file that is torn (`saves_save`).

Directories that have been made do not help: a path to which a save has failed for what stands on
the way refuses every other save (`Refuses`), also with the directories that the first one has left
behind (`refuses_after_save`). The reason is that each directory of a path needs the one before it,
and that the first of them that cannot be made stops all saves there.
-/

namespace Concordance

/-- Whether an error is about what can be written at all, and not about a path and what stands on
the way. -/
def FileError.isLimit : FileError → Bool
  | permissionDenied | storageFull => true
  | _ => false

namespace Files

/-! ## Files with more directories -/

/-- The second files are the first with directories in some places where nothing stood and where one
could be made. -/
structure AddsDirectories (f f' : Files) : Prop where
  limits : f'.limits = f.limits
  entries : ∀ loc, f'.get? loc = f.get? loc ∨
    f.get? loc = none ∧ f.limits.isSealed loc = false ∧ f'.get? loc = some .directory

/-- There are the same files with the same contents. Directories do not count. -/
def SameFiles (f f' : Files) : Prop :=
  ∀ loc bytes, f'.get? loc = some (.file bytes) ↔ f.get? loc = some (.file bytes)

theorem SameFiles.refl (f : Files) : SameFiles f f :=
  fun _ _ => Iff.rfl

theorem SameFiles.symm {f g : Files} (h : SameFiles f g) : SameFiles g f :=
  fun loc bytes => (h loc bytes).symm

theorem SameFiles.trans {f g h : Files} (hfg : SameFiles f g) (hgh : SameFiles g h) :
    SameFiles f h :=
  fun loc bytes => (hgh loc bytes).trans (hfg loc bytes)

/-- An origin is always a directory. -/
theorem names_ne_nil {f : Files} {loc : Location} (h : f.get? loc = none) : loc.names ≠ [] := by
  intro hnil
  rw [Files.get?, hnil] at h
  cases h

namespace AddsDirectories

variable {f f' : Files}

theorem refl (f : Files) : AddsDirectories f f :=
  ⟨rfl, fun _ => .inl rfl⟩

theorem trans {g : Files} (h : AddsDirectories f f') (h' : AddsDirectories f' g) :
    AddsDirectories f g := by
  refine ⟨h'.limits.trans h.limits, fun loc => ?_⟩
  have hnext := h'.entries loc
  rw [h.limits] at hnext
  rcases h.entries loc with heq | ⟨hnone, hsealed, hdir⟩
  · rwa [← heq]
  · rcases hnext with heq | ⟨hnone', _⟩
    · exact .inr ⟨hnone, hsealed, heq.trans hdir⟩
    · rw [hdir] at hnone'
      cases hnone'

theorem put {loc : Location} (h : f.get? loc = none) (hsealed : f.limits.isSealed loc = false) :
    AddsDirectories f (f.put loc .directory) := by
  refine ⟨rfl, fun other => ?_⟩
  by_cases hother : other = loc
  · subst hother
    exact .inr ⟨h, hsealed, get?_put_self f (names_ne_nil h) _⟩
  · exact .inl (get?_put_of_ne f hother _)

/-- What stood somewhere still stands there. -/
theorem get? (h : AddsDirectories f f') {loc : Location} {e : Entry}
    (he : f.get? loc = some e) : f'.get? loc = some e := by
  rcases h.entries loc with heq | ⟨hnone, _⟩
  · rw [heq, he]
  · rw [hnone] at he
    cases he

theorem sameFiles (h : AddsDirectories f f') : SameFiles f f' := by
  intro loc bytes
  rcases h.entries loc with heq | ⟨hnone, _, hdir⟩
  · rw [heq]
  · simp [hnone, hdir]

theorem resolve (h : AddsDirectories f f') {path : String} {loc : Location}
    (hloc : f.resolve path = .ok loc) : f'.resolve path = .ok loc :=
  resolve_mono (fun _ => h.get?) hloc

/-- What a path leads to is still there. -/
theorem find (h : AddsDirectories f f') {path : String} {e : Entry}
    (he : f.find path = .ok e) : f'.find path = .ok e := by
  cases e with
  | directory =>
    obtain ⟨loc, hloc, hentry⟩ := find_eq_directory_iff.mp he
    exact find_eq_directory_iff.mpr ⟨loc, h.resolve hloc, h.get? hentry⟩
  | file bytes =>
    obtain ⟨hclosed, loc, hloc, hentry⟩ := find_eq_file_iff.mp he
    exact find_eq_file_iff.mpr ⟨hclosed, loc, h.resolve hloc, h.get? hentry⟩

end AddsDirectories

/-! ## Making directories -/

theorem isDirectory_iff {f : Files} {path : String} :
    f.isDirectory path = true ↔ f.find path = .ok .directory := by
  rw [isDirectory]
  cases f.find path with
  | error cause => simp
  | ok e => cases e <;> simp [Entry.isDirectory]

theorem makeDirectory_eq_ok_iff {f f' : Files} {path : String} :
    f.makeDirectory path = .ok f' ↔
      ∃ loc, f.resolve path = .ok loc ∧ f.get? loc = none ∧ f.limits.isSealed loc = false ∧
        f' = f.put loc .directory := by
  rw [makeDirectory]
  cases f.resolve path with
  | error cause => simp [bind, Except.bind]
  | ok loc =>
    simp only [bind, Except.bind, Except.ok.injEq, exists_eq_left']
    cases f.get? loc with
    | some e => simp [throw, throwThe, MonadExceptOf.throw]
    | none =>
      cases f.limits.isSealed loc <;>
        simp [throw, throwThe, MonadExceptOf.throw, pure, Except.pure, eq_comm]

theorem find_of_makeDirectory {f f' : Files} {path : String} (h : f.makeDirectory path = .ok f') :
    f'.find path = .ok .directory := by
  obtain ⟨loc, hloc, hnone, hsealed, rfl⟩ := makeDirectory_eq_ok_iff.mp h
  exact find_eq_directory_iff.mpr
    ⟨loc, (AddsDirectories.put hnone hsealed).resolve hloc, get?_put_self f (names_ne_nil hnone) _⟩

theorem addsDirectories_makeDirectory {f f' : Files} {path : String}
    (h : f.makeDirectory path = .ok f') : AddsDirectories f f' := by
  obtain ⟨loc, _, hnone, hsealed, rfl⟩ := makeDirectory_eq_ok_iff.mp h
  exact .put hnone hsealed

theorem settle_eq_ok_iff {f f' : Files} {path : String} {made : Except FileError Files} :
    f.settle path made = (f', .ok ()) ↔
      made = .ok f' ∨ (∃ cause, made = .error cause) ∧ f.isDirectory path = true ∧ f' = f := by
  cases made with
  | ok g => simp [settle]
  | error cause => cases hdir : f.isDirectory path <;> simp [settle, hdir, eq_comm]

theorem settle_eq_error_iff {f f' : Files} {path : String} {made : Except FileError Files}
    {cause : FileError} :
    f.settle path made = (f', .error cause) ↔
      made = .error cause ∧ f.isDirectory path = false ∧ f' = f := by
  cases made with
  | ok g => simp [settle]
  | error c =>
    cases hdir : f.isDirectory path <;> simp [settle, hdir]
    exact and_comm.trans (and_congr_right' eq_comm)

theorem find_of_settle {f f' : Files} {path : String}
    (h : f.settle path (f.makeDirectory path) = (f', .ok ())) : f'.find path = .ok .directory := by
  rcases settle_eq_ok_iff.mp h with hmade | ⟨_, hdir, rfl⟩
  · exact find_of_makeDirectory hmade
  · exact isDirectory_iff.mp hdir

/-- A directory that is not missing for want of the one around it is made at once, or not at
all. -/
theorem makeDirectories_of_ne {f : Files} {path : String}
    (h : f.makeDirectory path ≠ .error .notFound) (outer : List String) :
    f.makeDirectories (path :: outer) = f.settle path (f.makeDirectory path) := by
  rw [makeDirectories]
  split
  · next hmade => exact absurd hmade h
  · rfl

/-- A directory that is missing with the one around it is made after that one. -/
theorem makeDirectories_of_outer {f g : Files} {path : String}
    (h : f.makeDirectory path = .error .notFound) {outer : List String}
    (houter : f.makeDirectories outer = (g, .ok ())) :
    f.makeDirectories (path :: outer) = g.settle path (g.makeDirectory path) := by
  simp only [makeDirectories, h, houter]

/-- It is not made if that one cannot be made. -/
theorem makeDirectories_of_outer_error {f g : Files} {path : String}
    (h : f.makeDirectory path = .error .notFound) {outer : List String} {cause : FileError}
    (houter : f.makeDirectories outer = (g, .error cause)) :
    f.makeDirectories (path :: outer) = (g, .error cause) := by
  simp only [makeDirectories, h, houter]

/-- What holds of some files, and stays true when one of some directories is made, holds after all
of them have been made. -/
theorem makeDirectories_induction {P : Files → Prop} {f : Files} {paths : List String}
    (hmake : ∀ path ∈ paths, ∀ g g', P g → g.makeDirectory path = .ok g' → P g') (hf : P f) :
    P (f.makeDirectories paths).1 := by
  induction paths with
  | nil => exact hf
  | cons path outer ih =>
    have houter : P (f.makeDirectories outer).1 :=
      ih fun p hp => hmake p (List.mem_cons_of_mem _ hp)
    have hsettle (g : Files) (hg : P g) : P (g.settle path (g.makeDirectory path)).1 := by
      cases hmade : g.makeDirectory path with
      | ok g' => exact hmake path List.mem_cons_self g g' hg hmade
      | error cause => exact hg
    by_cases hmade : f.makeDirectory path = .error .notFound
    · cases hmake : f.makeDirectories outer with
      | mk g outcome =>
        rw [hmake] at houter
        cases outcome with
        | ok _ =>
          rw [makeDirectories_of_outer hmade hmake]
          exact hsettle g houter
        | error cause =>
          rw [makeDirectories_of_outer_error hmade hmake]
          exact houter
    · rw [makeDirectories_of_ne hmade]
      exact hsettle f hf

theorem addsDirectories_makeDirectories (f : Files) (paths : List String) :
    AddsDirectories f (f.makeDirectories paths).1 :=
  makeDirectories_induction (fun _ _ _ _ hadds hmade =>
    hadds.trans (addsDirectories_makeDirectory hmade)) (.refl f)

/-- The innermost of the directories that have been made is there. -/
theorem find_of_makeDirectories {f f' : Files} {path : String} {outer : List String}
    (h : f.makeDirectories (path :: outer) = (f', .ok ())) : f'.find path = .ok .directory := by
  by_cases hmade : f.makeDirectory path = .error .notFound
  · cases houter : f.makeDirectories outer with
    | mk g outcome =>
      cases outcome with
      | ok _ =>
        rw [makeDirectories_of_outer hmade houter] at h
        exact find_of_settle h
      | error cause =>
        rw [makeDirectories_of_outer_error hmade houter] at h
        cases h
  · rw [makeDirectories_of_ne hmade] at h
    exact find_of_settle h

/-- Directories that have been made need not be made again. -/
theorem makeDirectories_again {f f' : Files} {paths : List String}
    (h : f.makeDirectories paths = (f', .ok ())) : f'.makeDirectories paths = (f', .ok ()) := by
  cases paths with
  | nil => rfl
  | cons path outer => exact makeDirectories_of_find (find_of_makeDirectories h) outer

/-! ## Errors -/

theorem isLimit_of_walk {f : Files} {loc : Location} {steps : List PathStep} {cause : FileError}
    (h : f.walk loc steps = .error cause) : cause.isLimit = false := by
  induction steps generalizing loc with
  | nil => cases h
  | cons s steps ih =>
    rw [walk] at h
    rcases hentry : f.get? loc with _ | _ | bytes <;> rw [hentry] at h
    · cases h
      rfl
    · cases hlong : s.isTooLong with
      | true =>
        rw [hlong] at h
        cases h
        rfl
      | false =>
        rw [hlong] at h
        exact ih h
    · cases h
      rfl

theorem isLimit_of_fault? {path : String} {cause : FileError} (h : Path.fault? path = some cause) :
    cause.isLimit = false := by
  rw [Path.fault?] at h
  split at h
  · cases h
    rfl
  · split at h
    · cases h
      rfl
    · split at h <;> cases h
      rfl

theorem isLimit_of_resolve {f : Files} {path : String} {cause : FileError}
    (h : f.resolve path = .error cause) : cause.isLimit = false := by
  rw [resolve] at h
  cases hfault : Path.fault? path with
  | none =>
    rw [hfault] at h
    exact isLimit_of_walk h
  | some cause' =>
    rw [hfault] at h
    cases h
    exact isLimit_of_fault? hfault

/-- Only where a path leads somewhere, a limit can keep a directory from being made. -/
theorem makeDirectory_error_cases {f : Files} {path : String} {cause : FileError}
    (h : f.makeDirectory path = .error cause) :
    cause.isLimit = false ∨ cause = .permissionDenied ∧ ∃ loc, f.resolve path = .ok loc := by
  rw [makeDirectory] at h
  cases hloc : f.resolve path with
  | error cause' =>
    rw [hloc] at h
    cases h
    exact .inl (isLimit_of_resolve hloc)
  | ok loc =>
    simp only [hloc, bind, Except.bind] at h
    cases hentry : f.get? loc with
    | some e =>
      rw [hentry] at h
      cases h
      exact .inl rfl
    | none =>
      rw [hentry] at h
      cases hsealed : f.limits.isSealed loc with
      | true =>
        rw [hsealed] at h
        cases h
        exact .inr ⟨rfl, loc, rfl⟩
      | false =>
        rw [hsealed] at h
        cases h

theorem place_error_cases {f : Files} {path : String} {cause : FileError}
    (h : f.place path = .error cause) : cause.isLimit = false ∨ cause = .permissionDenied := by
  rw [place] at h
  cases hclosed : Path.isClosed path && (Path.fault? path).isNone with
  | true =>
    simp only [hclosed, if_true] at h
    cases hwalk : f.walk (Path.start path) ((Path.steps path).dropLast ++ [.here]) with
    | error cause' =>
      rw [hwalk] at h
      cases h
      exact .inl (isLimit_of_walk hwalk)
    | ok loc =>
      rw [hwalk] at h
      cases h
      exact .inl rfl
  | false =>
    simp only [hclosed, Bool.false_eq_true, if_false] at h
    cases hloc : f.resolve path with
    | error cause' =>
      rw [hloc] at h
      cases h
      exact .inl (isLimit_of_resolve hloc)
    | ok loc =>
      simp only [hloc, bind, Except.bind] at h
      cases hsealed : f.limits.isSealed loc with
      | true =>
        rcases hentry : f.get? loc with _ | _ | bytes <;> rw [hentry, hsealed] at h <;> cases h
        · exact .inr rfl
        · exact .inl rfl
        · exact .inr rfl
      | false =>
        rcases hentry : f.get? loc with _ | _ | bytes <;> rw [hentry, hsealed] at h <;> cases h
        exact .inl rfl

/-- What keeps directories from being made keeps one of them from being made. -/
theorem exists_makeDirectory_of_error {f f' : Files} {paths : List String} {cause : FileError}
    (h : f.makeDirectories paths = (f', .error cause)) :
    ∃ g path, Files.makeDirectory g path = .error cause := by
  induction paths generalizing f' cause with
  | nil => cases h
  | cons path outer ih =>
    by_cases hmade : f.makeDirectory path = .error .notFound
    · cases hmake : f.makeDirectories outer with
      | mk g outcome =>
        cases outcome with
        | ok _ =>
          rw [makeDirectories_of_outer hmade hmake] at h
          exact ⟨g, path, (settle_eq_error_iff.mp h).1⟩
        | error cause' =>
          rw [makeDirectories_of_outer_error hmade hmake] at h
          cases h
          exact ih hmake
    · rw [makeDirectories_of_ne hmade] at h
      exact ⟨f, path, (settle_eq_error_iff.mp h).1⟩

theorem makeDirectories_ne_storageFull {f f' : Files} {paths : List String} {cause : FileError}
    (h : f.makeDirectories paths = (f', .error cause)) : cause ≠ .storageFull := by
  rintro rfl
  obtain ⟨g, path, hmade⟩ := exists_makeDirectory_of_error h
  rcases makeDirectory_error_cases hmade with hlimit | ⟨hcause, _⟩
  · cases hlimit
  · cases hcause

/-! ## Directories that cannot be made -/

/-- A directory that cannot be made after those around it cannot be made either when it is tried
again. -/
theorem makeDirectories_again_of_settle {f : Files} {path : String} {outer : List String}
    {cause : FileError} (houter : f.makeDirectories outer = (f, .ok ()))
    (h : f.settle path (f.makeDirectory path) = (f, .error cause)) :
    f.makeDirectories (path :: outer) = (f, .error cause) := by
  by_cases hmade : f.makeDirectory path = .error .notFound
  · rw [makeDirectories_of_outer hmade houter]
    exact h
  · rw [makeDirectories_of_ne hmade]
    exact h

/-- What has no directory around it is no directory, and none can be made there. -/
theorem settle_eq_error_of_find_ne {f : Files} {path q : String} (hq : q ∈ Path.directories path)
    (h : f.find q ≠ .ok .directory) :
    ∃ cause, f.settle path (f.makeDirectory path) = (f, .error cause) ∧ cause.isLimit = false := by
  have hdir : f.isDirectory path = false := by
    rw [Bool.eq_false_iff]
    exact fun hpath => h (find_of_mem_directories hq (isDirectory_iff.mp hpath))
  cases hmade : f.makeDirectory path with
  | ok g =>
    obtain ⟨loc, hloc, _⟩ := makeDirectory_eq_ok_iff.mp hmade
    exact absurd (find_of_resolve hq hloc) h
  | error cause =>
    refine ⟨cause, settle_eq_error_iff.mpr ⟨rfl, hdir, rfl⟩, ?_⟩
    rcases makeDirectory_error_cases hmade with hlimit | ⟨_, loc, hloc⟩
    · exact hlimit
    · exact absurd (find_of_resolve hq hloc) h

/-- Where those around it cannot be made, a directory cannot be made either. -/
theorem makeDirectories_cons_of_error {f : Files} {path : String} {outer : List String}
    (houter : (Path.directories path).reverse = outer) {cause : FileError}
    (h : f.makeDirectories outer = (f, .error cause)) (hlimit : cause.isLimit = false) :
    ∃ cause', f.makeDirectories (path :: outer) = (f, .error cause') ∧ cause'.isLimit = false := by
  by_cases hmade : f.makeDirectory path = .error .notFound
  · exact ⟨cause, makeDirectories_of_outer_error hmade h, hlimit⟩
  · rw [makeDirectories_of_ne hmade]
    cases outer with
    | nil => cases h
    | cons q outer =>
      have hq : q ∈ Path.directories path := by
        rw [← List.mem_reverse, houter]
        exact List.mem_cons_self
      refine settle_eq_error_of_find_ne hq fun hfind => ?_
      rw [makeDirectories_of_find hfind] at h
      cases h

/-- **Directories that could not be made** for what stands on the way cannot be made later either,
with those that have been made for them. -/
theorem makeDirectories_fails_again {f f' : Files} {path : String} {paths : List String}
    (hpaths : (Path.directories path).reverse = paths) {cause : FileError}
    (h : f.makeDirectories paths = (f', .error cause)) (hlimit : cause.isLimit = false) :
    ∃ cause', f'.makeDirectories paths = (f', .error cause') ∧ cause'.isLimit = false := by
  induction paths generalizing path cause with
  | nil => cases h
  | cons p outer ih =>
    have houter : (Path.directories p).reverse = outer := by
      have happend : Path.directories path = outer.reverse ++ p :: [] := by
        rw [← List.reverse_reverse (Path.directories path), hpaths, List.reverse_cons]
      rw [Path.directories_of_eq_append happend, List.reverse_reverse]
    by_cases hmade : f.makeDirectory p = .error .notFound
    · cases hmake : f.makeDirectories outer with
      | mk g outcome =>
        cases outcome with
        | ok _ =>
          -- Those around are there, and this one cannot be made in them.
          rw [makeDirectories_of_outer hmade hmake] at h
          obtain ⟨_, _, rfl⟩ := settle_eq_error_iff.mp h
          exact ⟨cause, makeDirectories_again_of_settle (makeDirectories_again hmake) h, hlimit⟩
        | error cause₀ =>
          -- One around is still missing, so this one has no place.
          rw [makeDirectories_of_outer_error hmade hmake] at h
          cases h
          obtain ⟨cause', hagain, hlimit'⟩ := ih houter hmake hlimit
          exact makeDirectories_cons_of_error houter hagain hlimit'
    · have hsettle := h
      rw [makeDirectories_of_ne hmade] at hsettle
      obtain ⟨_, _, rfl⟩ := settle_eq_error_iff.mp hsettle
      exact ⟨cause, h, hlimit⟩

/-! ## Saves -/

/-- What a save comes to: it is refused, when it may have made directories, or it puts the file in
its place, whole or torn. -/
inductive Saves (f : Files) (path : String) (bytes : ByteArray) :
    Files → Except FileError Unit → Prop where
  | refused {f' : Files} {cause : FileError} (adds : f.AddsDirectories f')
      (notFull : cause ≠ .storageFull) : Saves f path bytes f' (.error cause)
  | whole {g : Files} {loc : Location} (adds : f.AddsDirectories g) (places : g.Places path loc)
      (fits : f.limits.fit loc bytes = bytes) :
      Saves f path bytes (g.put loc (.file bytes)) (.ok ())
  | torn {g : Files} {loc : Location} {n : Nat} (adds : f.AddsDirectories g)
      (places : g.Places path loc) (short : n < bytes.size)
      (fits : f.limits.fit loc bytes = bytes.extract 0 n) :
      Saves f path bytes (g.put loc (.file (bytes.extract 0 n))) (.error .storageFull)

theorem saves_save (f : Files) (path : String) (bytes : ByteArray) :
    Saves f path bytes (f.save path bytes).1 (f.save path bytes).2 := by
  have hadds := addsDirectories_makeDirectories f (Path.directories path).reverse
  cases hmade : f.makeDirectories (Path.directories path).reverse with
  | mk g made =>
    rw [hmade] at hadds
    cases made with
    | error cause =>
      rw [save_of_unmade hmade]
      exact .refused hadds (makeDirectories_ne_storageFull hmade)
    | ok _ =>
      rw [save_of_made hmade]
      cases hwrite : g.write path bytes with
      | mk g' outcome =>
        cases Writes.of_eq hwrite with
        | refused place =>
          refine .refused hadds ?_
          rintro rfl
          rcases place_error_cases place with hlimit | hcause
          · cases hlimit
          · cases hcause
        | whole places fits => exact .whole hadds places (hadds.limits ▸ fits)
        | torn places short fits => exact .torn hadds places short (hadds.limits ▸ fits)

theorem Saves.of_eq {f f' : Files} {path : String} {bytes : ByteArray}
    {outcome : Except FileError Unit} (h : f.save path bytes = (f', outcome)) :
    Saves f path bytes f' outcome := by
  have hsaves := f.saves_save path bytes
  rwa [h] at hsaves

theorem limits_save (f : Files) (path : String) (bytes : ByteArray) :
    (f.save path bytes).1.limits = f.limits := by
  cases hsave : f.save path bytes with
  | mk f' outcome =>
    cases Saves.of_eq hsave with
    | refused adds _ => exact adds.limits
    | whole adds _ _ => exact adds.limits
    | torn adds _ _ _ => exact adds.limits

/-- **A save that is refused** changes no file. -/
theorem addsDirectories_of_save {f f' : Files} {path : String} {bytes : ByteArray}
    {cause : FileError} (h : f.save path bytes = (f', .error cause)) (hfull : cause ≠ .storageFull) :
    AddsDirectories f f' := by
  cases Saves.of_eq h with
  | refused adds _ => exact adds
  | torn _ _ _ _ => exact absurd rfl hfull

/-- Over a file that is there a save that is refused changes nothing. -/
theorem eq_of_save_refused {f f' : Files} {path : String} {old bytes : ByteArray}
    (hfind : f.find path = .ok (.file old)) {cause : FileError}
    (h : f.save path bytes = (f', .error cause)) (hfull : cause ≠ .storageFull) : f' = f := by
  rw [save_of_find hfind] at h
  cases Writes.of_eq h with
  | refused _ => rfl
  | torn _ _ _ => exact absurd rfl hfull

/-- **A save that breaks off** leaves a file that is torn. -/
theorem find_of_save_torn {f f' : Files} {path : String} {bytes : ByteArray}
    (h : f.save path bytes = (f', .error .storageFull)) :
    ∃ n < bytes.size, f'.find path = .ok (.file (bytes.extract 0 n)) := by
  cases Saves.of_eq h with
  | refused _ notFull => exact absurd rfl notFull
  | @torn g loc n _ places short _ => exact ⟨n, short, places.find_put _⟩

/-- Whatever is saved to a path to which something could be saved, its file is opened. -/
theorem eq_storageFull_of_save {f f' f'' : Files} {path : String} {bytes bytes' : ByteArray}
    (h : f.save path bytes = (f', .ok ())) {cause : FileError}
    (h' : f.save path bytes' = (f'', .error cause)) : cause = .storageFull := by
  cases hmade : f.makeDirectories (Path.directories path).reverse with
  | mk g made =>
    cases made with
    | error cause' =>
      rw [save_of_unmade hmade] at h
      cases h
    | ok _ =>
      rw [save_of_made hmade] at h h'
      cases Writes.of_eq h with
      | whole places _ =>
        cases Writes.of_eq h' with
        | refused place =>
          rw [place_eq_ok_iff.mpr places] at place
          cases place
        | torn _ _ _ => rfl

/-- Every file that has been opened can be written to its end. -/
def HasRoom (f : Files) : Prop :=
  ∀ loc, f.limits.room? loc = none

namespace HasRoom

variable {f f' : Files} {path : String} {bytes : ByteArray}

/-- With room for all of it, no save breaks off. -/
theorem ne_storageFull (hroom : f.HasRoom) {cause : FileError}
    (h : f.save path bytes = (f', .error cause)) : cause ≠ .storageFull := by
  cases Saves.of_eq h with
  | refused _ notFull => exact notFull
  | @torn g loc n _ _ short fits =>
    simp only [Limits.fit, hroom loc] at fits
    have hsize := congrArg ByteArray.size fits
    rw [ByteArray.size_extract] at hsize
    omega

/-- What is saved does not decide whether it can be. -/
theorem exists_save_of_save (hroom : f.HasRoom) (h : f.save path bytes = (f', .ok ()))
    (bytes' : ByteArray) : ∃ f'', f.save path bytes' = (f'', .ok ()) := by
  cases hsave : f.save path bytes' with
  | mk f'' outcome =>
    cases outcome with
    | ok _ => exact ⟨f'', rfl⟩
    | error cause => exact absurd (eq_storageFull_of_save h hsave) (hroom.ne_storageFull hsave)

end HasRoom

/-- After a save that has succeeded the others come to what they came to before. -/
theorem save_outcome_after_save {f f' : Files} {path : String} {bytes : ByteArray}
    (h : f.save path bytes = (f', .ok ())) (bytes' : ByteArray) :
    (f'.save path bytes').2 = (f.save path bytes').2 := by
  have hfind := find_save h
  rw [save_of_find hfind]
  cases hmade : f.makeDirectories (Path.directories path).reverse with
  | mk g made =>
    cases made with
    | error cause =>
      rw [save_of_unmade hmade] at h
      cases h
    | ok _ =>
      rw [save_of_made hmade] at h ⊢
      cases Writes.of_eq h with
      | whole places _ =>
        rw [(places.put bytes).write_eq, places.write_eq]
        rfl

/-- A path to which everything can be saved. -/
def Accepts (f : Files) (path : String) : Prop :=
  ∀ bytes, ∃ f', f.save path bytes = (f', .ok ())

theorem Accepts.after_save {f f' : Files} {path : String} {bytes : ByteArray}
    (h : f.Accepts path) (hsave : f.save path bytes = (f', .ok ())) : f'.Accepts path := by
  intro bytes'
  have houtcome := save_outcome_after_save hsave bytes'
  obtain ⟨g, hagain⟩ := h bytes'
  rw [hagain] at houtcome
  exact ⟨(f'.save path bytes').1, Prod.ext rfl houtcome⟩

/-! ## Paths that refuse saves -/

/-- Nothing can be saved to a path, for what stands on the way. -/
def Refuses (f : Files) (path : String) : Prop :=
  ∀ bytes, ∃ f' cause, f.save path bytes = (f', .error cause) ∧ cause.isLimit = false

/-- A path to which one save fails for what stands on the way refuses all. -/
theorem refuses_of_save {f f' : Files} {path : String} {bytes : ByteArray} {cause : FileError}
    (h : f.save path bytes = (f', .error cause)) (hlimit : cause.isLimit = false) :
    f.Refuses path := by
  intro bytes'
  cases hmade : f.makeDirectories (Path.directories path).reverse with
  | mk g made =>
    cases made with
    | error cause' =>
      rw [save_of_unmade hmade] at h ⊢
      cases h
      exact ⟨f', cause, rfl, hlimit⟩
    | ok _ =>
      rw [save_of_made hmade] at h ⊢
      cases Writes.of_eq h with
      | refused place => exact ⟨f', cause, write_of_place_eq_error place bytes', hlimit⟩
      | torn _ _ _ => cases hlimit

/-- **A failed save** leaves a path that refuses the others too. -/
theorem refuses_after_save {f f' : Files} {path : String} {bytes : ByteArray} {cause : FileError}
    (h : f.save path bytes = (f', .error cause)) (hlimit : cause.isLimit = false) :
    f'.Refuses path := by
  cases hmade : f.makeDirectories (Path.directories path).reverse with
  | mk g made =>
    cases made with
    | error cause' =>
      rw [save_of_unmade hmade] at h
      cases h
      obtain ⟨cause', hagain, hlimit'⟩ := makeDirectories_fails_again rfl hmade hlimit
      exact refuses_of_save (save_of_unmade hagain bytes) hlimit'
    | ok _ =>
      rw [save_of_made hmade] at h
      cases Writes.of_eq h with
      | refused place =>
        have hagain : f'.save path bytes = (f', .error cause) := by
          rw [save_of_made (makeDirectories_again hmade), write_of_place_eq_error place]
        exact refuses_of_save hagain hlimit
      | torn _ _ _ => cases hlimit

/-- A path that ends with a slash names no file. The save that fails leaves a directory. -/
example : (({} : Files).save "data/notes/" .empty).2.toBool = false ∧
    (({} : Files).save "data/notes/" .empty).1.isDirectory "data" = true := by
  decide +kernel

/-- No file stands at a path that refuses to be written. -/
theorem Refuses.find_ne {f : Files} {path : String} (h : f.Refuses path) (bytes : ByteArray) :
    f.find path ≠ .ok (.file bytes) := by
  intro hfind
  obtain ⟨f', cause, hsave, hlimit⟩ := h bytes
  obtain ⟨loc, _, hplace⟩ := place_of_find hfind
  rw [save_of_find hfind] at hsave
  -- Only a limit keeps a file that is there from being opened and filled.
  cases Writes.of_eq hsave with
  | refused place =>
    rw [place] at hplace
    split at hplace
    · cases hplace
      cases hlimit
    · cases hplace
  | torn _ _ _ => cases hlimit

end Files

end Concordance
