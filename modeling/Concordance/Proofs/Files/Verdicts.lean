import Concordance.Proofs.Files.Trees

/-!
# What decides about a save

A save to a plain path makes the directories that are missing, so it is only files, long names and
places where nothing can be made that stop it on the way (`way`). Whether it succeeds, and why not, is
told before anything is made (`saveVerdict`, `save_outcome`), and so is what is read
(`IsTree.read_eq_ok_iff`).

So the verdict is the same in two trees with the same limits that have the same obstacles on the way
to a path, if its end is a directory in both or in neither (`SameTo`, `saveVerdict_congr`). Making the
directories on the way changes none of this (`sameTo_makeDirectories`).
-/

namespace Concordance

namespace Files

variable {f f' : Files} {path other q : String} {names : List String} {bytes : ByteArray}

/-- The bytes of the file at a location, if a file stands there. -/
def fileAt? (f : Files) (loc : Location) : Option ByteArray :=
  match f.get? loc with
  | some (.file bytes) => some bytes
  | _ => none

theorem fileAt?_eq_some_iff {loc : Location} :
    f.fileAt? loc = some bytes ↔ f.get? loc = some (.file bytes) := by
  rw [fileAt?]
  cases f.get? loc with
  | none => simp
  | some e => cases e <;> simp

theorem SameFiles.fileAt?_eq (h : f.SameFiles f') (loc : Location) :
    f'.fileAt? loc = f.fileAt? loc := by
  ext bytes
  rw [fileAt?_eq_some_iff, fileAt?_eq_some_iff]
  exact h loc bytes

/-- Whether a directory stands at a location. -/
def isDirectoryAt (f : Files) (loc : Location) : Bool :=
  (f.get? loc).any Entry.isDirectory

/-- Whether nothing stands at a location and nothing can be made there. -/
def isBarred (f : Files) (loc : Location) : Bool :=
  (f.get? loc).isNone && f.limits.isSealed loc

theorem AddsDirectories.isBarred_eq (h : f.AddsDirectories f') (loc : Location) :
    f'.isBarred loc = f.isBarred loc := by
  rw [isBarred, isBarred, h.limits]
  rcases h.entries loc with heq | ⟨hnone, hsealed, hdir⟩
  · rw [heq]
  · rw [hsealed, Bool.and_false, Bool.and_false]

/-! ## The way to a path -/

/-- What becomes of some steps from a location when the missing directories are made on the way. -/
def way (f : Files) (loc : Location) : List PathStep → Except FileError Unit
  | [] => .ok ()
  | s :: steps =>
    match f.fileAt? loc with
    | some _ => .error .notDirectory
    | none =>
      if f.isBarred loc then .error .permissionDenied
      else if s.isTooLong then .error .nameTooLong
      else f.way (s.apply loc) steps

/-- Why a path leads nowhere, also with the missing directories made, if that is so. -/
def wayTo (f : Files) (path : String) : Except FileError Unit :=
  match Path.fault? path with
  | some cause => .error cause
  | none => f.way (Path.start path) (Path.steps path)

theorem way_append (f : Files) (loc : Location) (first more : List PathStep) :
    f.way loc (first ++ more) =
      (f.way loc first).bind fun _ => f.way (first.foldl PathStep.apply loc) more := by
  induction first generalizing loc with
  | nil => rfl
  | cons s first ih =>
    rw [List.cons_append, way, way]
    cases f.fileAt? loc with
    | some bytes => rfl
    | none =>
      cases hbarred : f.isBarred loc with
      | true => rfl
      | false =>
        cases hlong : s.isTooLong with
        | true => rfl
        | false => exact ih _

/-- A walk that nothing is missing for. -/
theorem walk_eq_way {loc : Location} {steps : List PathStep}
    (h : f.walk loc steps ≠ .error .notFound) :
    f.walk loc steps = (f.way loc steps).map fun _ => steps.foldl PathStep.apply loc := by
  induction steps generalizing loc with
  | nil => rfl
  | cons s steps ih =>
    rw [walk] at h ⊢
    rw [way, fileAt?, isBarred]
    cases hentry : f.get? loc with
    | none =>
      rw [hentry] at h
      exact absurd rfl h
    | some e =>
      rw [hentry] at h
      cases e with
      | file bytes => rfl
      | directory =>
        cases hlong : s.isTooLong with
        | true => rfl
        | false =>
          rw [hlong] at h
          exact ih h

/-- Nothing is missing on the way to a path, unless its text shows that it leads nowhere. -/
def Reaches (f : Files) (path : String) : Prop :=
  Path.fault? path = none → f.walk (Path.start path) (Path.steps path) ≠ .error .notFound

theorem Reaches.resolve_eq (h : f.Reaches path) :
    f.resolve path = (f.wayTo path).map fun _ => Path.target path := by
  rw [resolve, wayTo]
  cases hfault : Path.fault? path with
  | some cause => rfl
  | none => exact walk_eq_way (h hfault)

/-- If something is missing on the way down in a tree, nothing is at its end. -/
theorem IsTree.get?_of_walk (h : f.IsTree) (seen : List String)
    (hwalk : f.walk (.below seen) (names.map .enter) = .error .notFound) :
    f.get? (.below (seen ++ names)) = none := by
  induction names generalizing seen with
  | nil => cases hwalk
  | cons name names ih =>
    rw [List.map_cons, walk] at hwalk
    cases hentry : f.get? (.below seen) with
    | none => exact h.get?_below_append hentry _
    | some e =>
      rw [hentry] at hwalk
      cases e with
      | file bytes => cases hwalk
      | directory =>
        cases hlong : (PathStep.enter name).isTooLong with
        | true =>
          rw [hlong] at hwalk
          cases hwalk
        | false =>
          rw [hlong] at hwalk
          rw [List.append_cons]
          exact ih _ hwalk

/-- On the way to what is there nothing is missing. -/
theorem IsTree.walk_ne (h : f.IsTree) {e : Entry} (hentry : f.get? (.below names) = some e) :
    f.walk .workingDirectory (names.map .enter) ≠ .error .notFound := by
  intro hwalk
  have hnone : f.get? (.below names) = none := h.get?_of_walk [] hwalk
  rw [hnone] at hentry
  cases hentry

/-- A file that nothing stops before is what stops the next step. -/
theorem IsTree.walk_concat_of_file (h : f.IsTree)
    (hway : f.way .workingDirectory (names.map .enter) = .ok ())
    (hfile : f.fileAt? (.below names) = some bytes) (name : String) :
    f.walk .workingDirectory ((names ++ [name]).map .enter) = .error .notDirectory := by
  have hentry := fileAt?_eq_some_iff.mp hfile
  have hend : (names.map .enter).foldl PathStep.apply .workingDirectory = .below names :=
    Path.foldl_enter [] names
  rw [List.map_append, walk_append, walk_eq_way (h.walk_ne hentry), hway]
  simp only [Except.map, Except.bind, hend, List.map_singleton, walk, hentry]

/-! ## The directory around -/

/-- The directory around what a path names is there. -/
def IsHoused (f : Files) (path : String) : Prop :=
  ∃ loc, f.walk (Path.start path) ((Path.steps path).dropLast ++ [.here]) = .ok loc

theorem IsHoused.reaches (h : f.IsHoused path) : f.Reaches path := by
  intro _
  obtain ⟨loc, hloc⟩ := h
  rcases List.eq_nil_or_concat (Path.steps path) with hsteps | ⟨first, s, hsteps⟩
  · rw [hsteps, walk]
    simp
  · rw [hsteps, List.concat_eq_append] at hloc ⊢
    rw [List.dropLast_concat, walk_append] at hloc
    rw [walk_append]
    cases hfirst : f.walk (Path.start path) first with
    | error cause =>
      rw [hfirst] at hloc
      cases hloc
    | ok mid =>
      rw [hfirst] at hloc
      have hmid : f.get? mid = some .directory := get?_of_walk_cons hloc
      simp only [Except.bind, walk, hmid]
      cases s.isTooLong <;> simp

theorem isHoused_of_directories_eq_nil (f : Files) (h : Path.Leads path names)
    (hdirs : Path.directories path = []) : f.IsHoused path := by
  have hlast : (Path.steps path).dropLast = [] := by
    have hlength := h.length_of_directories_eq_nil hdirs
    rw [h.steps_eq]
    exact List.eq_nil_of_length_eq_zero (by simp; omega)
  refine ⟨Path.start path, ?_⟩
  rw [hlast, List.nil_append, walk, get?_start]
  rfl

theorem isHoused_of_find {before : List String} (h : Path.Leads path names)
    (hdirs : Path.directories path = before ++ [q]) (hq : f.find q = .ok .directory) :
    f.IsHoused path := by
  obtain ⟨first, name, rfl, hlead⟩ := h.of_directories_eq_concat hdirs
  obtain ⟨loc, hloc, hentry⟩ := find_eq_directory_iff.mp hq
  obtain ⟨-, hwalk⟩ := resolve_eq_ok_iff.mp hloc
  rw [hlead.start_eq, hlead.steps_eq] at hwalk
  refine ⟨loc, ?_⟩
  rw [h.start_eq, h.steps_eq, List.map_append, List.map_singleton, List.dropLast_concat,
    walk_append, hwalk]
  simp only [Except.bind, walk, hentry]
  rfl

/-! ## Directories -/

/-- The outcome of making a directory and those around it. -/
def directoryVerdict (f : Files) (path : String) : Except FileError Unit :=
  (f.wayTo path).bind fun _ =>
    match f.fileAt? (Path.target path) with
    | some _ => .error .alreadyExists
    | none => if f.isBarred (Path.target path) then .error .permissionDenied else .ok ()

theorem isDirectory_of_resolve {loc : Location} (h : f.resolve path = .ok loc) :
    f.isDirectory path = f.isDirectoryAt loc := by
  rw [isDirectory, find, isDirectoryAt, h]
  simp only [bind, Except.bind]
  rcases f.get? loc with _ | _ | bytes
  · rfl
  · rfl
  · cases Path.isClosed path <;> rfl

theorem settle_outcome (h : f.Reaches path) :
    (f.settle path (f.makeDirectory path)).2 = f.directoryVerdict path := by
  have hresolve := h.resolve_eq
  rw [directoryVerdict, makeDirectory]
  cases hway : f.wayTo path with
  | error cause =>
    rw [hway] at hresolve
    simp [hresolve, settle, isDirectory, find, Except.map, bind, Except.bind]
  | ok _ =>
    rw [hway] at hresolve
    obtain ⟨e?, hentry⟩ : ∃ e?, f.get? (Path.target path) = e? := ⟨_, rfl⟩
    have hdir : f.isDirectory path = e?.any Entry.isDirectory := by
      rw [isDirectory_of_resolve hresolve, isDirectoryAt, hentry]
    have hbarred : f.isBarred (Path.target path) =
        (e?.isNone && f.limits.isSealed (Path.target path)) := by
      rw [isBarred, hentry]
    simp only [hresolve, Except.map, bind, Except.bind, fileAt?, hentry, hbarred]
    rcases e? with _ | _ | bytes
    · cases hsealed : f.limits.isSealed (Path.target path) <;>
        simp [settle, hdir, throw, throwThe, MonadExceptOf.throw, pure, Except.pure]
    · simp [settle, hdir, Entry.isDirectory, throw, throwThe, MonadExceptOf.throw]
    · simp [settle, hdir, Entry.isDirectory, throw, throwThe, MonadExceptOf.throw]

theorem makeDirectory_eq_notFound_iff :
    f.makeDirectory path = .error .notFound ↔ f.resolve path = .error .notFound := by
  rw [makeDirectory]
  cases f.resolve path with
  | error cause => simp [bind, Except.bind]
  | ok loc =>
    simp only [bind, Except.bind, reduceCtorEq, iff_false]
    cases f.get? loc with
    | some e => simp [throw, throwThe, MonadExceptOf.throw]
    | none =>
      cases f.limits.isSealed loc <;>
        simp [throw, throwThe, MonadExceptOf.throw, pure, Except.pure]

/-- A directory is missing with the one around it if something on the way to it is missing. -/
theorem reaches_iff (hpath : path ≠ "") :
    f.Reaches path ↔ f.makeDirectory path ≠ .error .notFound := by
  rw [ne_eq, makeDirectory_eq_notFound_iff, resolve, Reaches]
  cases hfault : Path.fault? path with
  | none => simp
  | some cause =>
    have hcause : cause ≠ .notFound := fun heq => Path.fault?_ne_notFound hpath (heq ▸ hfault)
    simp [hcause]

/-- What stops the directory around stops this one in the same way, if it is missing with that
one. -/
theorem directoryVerdict_of_outer (htree : f.IsTree) (h : Path.Leads path names)
    (hpath : path ≠ "") {before : List String}
    (hdirs : Path.directories path = before ++ [q])
    (hmissing : f.makeDirectory path = .error .notFound) {cause : FileError}
    (hcause : f.directoryVerdict q = .error cause) :
    f.directoryVerdict path = .error cause := by
  obtain ⟨first, name, rfl, hlead⟩ := h.of_directories_eq_concat hdirs
  obtain ⟨hfault, hwalk⟩ : Path.fault? path = none ∧
      f.walk (Path.start path) (Path.steps path) = .error .notFound := by
    have hreaches : ¬f.Reaches path := fun h => (reaches_iff hpath).mp h hmissing
    simpa [Reaches] using hreaches
  have hfaultq := Path.fault?_of_mem_directories (hdirs ▸ List.mem_concat_self) hfault
  rw [directoryVerdict, wayTo, hfaultq, hlead.start_eq, hlead.steps_eq, hlead.target_eq] at hcause
  rw [h.start_eq, h.steps_eq] at hwalk
  rw [directoryVerdict, wayTo, hfault, h.start_eq, h.steps_eq, List.map_append]
  simp only [way_append]
  cases hway : f.way .workingDirectory (first.map .enter) with
  | error cause' =>
    rw [hway] at hcause
    exact hcause
  | ok _ =>
    rw [hway] at hcause
    have hend : (first.map .enter).foldl PathStep.apply .workingDirectory = .below first :=
      Path.foldl_enter [] first
    cases hfile : f.fileAt? (.below first) with
    | none =>
      cases hbarred : f.isBarred (.below first) with
      | false =>
        simp only [Except.bind, hfile, hbarred] at hcause
        cases hcause
      | true =>
        -- Where nothing can be made, nothing is made further down.
        simp only [Except.bind, hfile, hbarred, if_true] at hcause
        simp only [Except.bind, hend, List.map_singleton, way, hfile, hbarred, if_true]
        exact hcause
    | some bytes =>
      -- A file around would have stopped the walk, so that nothing was missing.
      rw [htree.walk_concat_of_file hway hfile name] at hwalk
      cases hwalk

/-- The same files stand on the way down some names, and the same places are barred. -/
structure SameWayTo (names : List String) (f f' : Files) : Prop where
  file : ∀ first, first <+: names → f'.fileAt? (.below first) = f.fileAt? (.below first)
  barred : ∀ first, first <+: names → f'.isBarred (.below first) = f.isBarred (.below first)

theorem AddsDirectories.sameWayTo (h : f.AddsDirectories f') (names : List String) :
    SameWayTo names f f' :=
  ⟨fun first _ => h.sameFiles.fileAt?_eq (.below first), fun _ _ => h.isBarred_eq _⟩

theorem SameWayTo.mono {first : List String} (h : SameWayTo names f f') (hfirst : first <+: names) :
    SameWayTo first f f' :=
  ⟨fun ns hns => h.file ns (hns.trans hfirst), fun ns hns => h.barred ns (hns.trans hfirst)⟩

theorem way_congr {seen : List String} (h : SameWayTo (seen ++ names) f f') :
    f'.way (.below seen) (names.map .enter) = f.way (.below seen) (names.map .enter) := by
  induction names generalizing seen with
  | nil => rfl
  | cons name names ih =>
    have hfile := h.file seen (List.prefix_append _ _)
    have hbarred := h.barred seen (List.prefix_append _ _)
    rw [List.append_cons] at h
    rw [List.map_cons, way, way, hfile, hbarred]
    cases f.fileAt? (.below seen) with
    | some bytes => rfl
    | none =>
      cases f.isBarred (.below seen) with
      | true => rfl
      | false =>
        cases hlong : (PathStep.enter name).isTooLong with
        | true => rfl
        | false => exact ih h

theorem wayTo_congr (h : Path.Leads path names) (hsame : SameWayTo names f f') :
    f'.wayTo path = f.wayTo path := by
  rw [wayTo, wayTo, h.start_eq, h.steps_eq]
  cases Path.fault? path with
  | some cause => rfl
  | none => exact way_congr hsame

theorem directoryVerdict_congr (h : Path.Leads path names) (hsame : SameWayTo names f f') :
    f'.directoryVerdict path = f.directoryVerdict path := by
  have hfile := hsame.file names (List.prefix_refl _)
  have hbarred := hsame.barred names (List.prefix_refl _)
  rw [directoryVerdict, directoryVerdict, wayTo_congr h hsame, h.target_eq, hfile, hbarred]

/-- **Directories** are made or not as the obstacles on the way decide. -/
theorem makeDirectories_outcome (htree : f.IsTree) (h : Path.Leads path names) (hpath : path ≠ "")
    {outer : List String} (houter : (Path.directories path).reverse = outer) :
    (f.makeDirectories (path :: outer)).2 = f.directoryVerdict path := by
  induction outer generalizing path names with
  | nil =>
    have hreaches : f.Reaches path :=
      (f.isHoused_of_directories_eq_nil h (List.reverse_eq_nil_iff.mp houter)).reaches
    rw [makeDirectories_of_ne ((reaches_iff hpath).mp hreaches), settle_outcome hreaches]
  | cons q outer ih =>
    have hdirs : Path.directories path = outer.reverse ++ [q] := by
      rw [← List.reverse_cons, ← houter, List.reverse_reverse]
    obtain ⟨first, name, rfl, hlead⟩ := h.of_directories_eq_concat hdirs
    have hmem : q ∈ Path.directories path := hdirs ▸ List.mem_concat_self
    have hq : q ≠ "" := Path.ne_empty_of_mem_directories hmem
    have hqouter : (Path.directories q).reverse = outer := by
      rw [Path.directories_of_eq_append hdirs, List.reverse_reverse]
    have hqoutcome := ih hlead hq hqouter
    by_cases hmade : f.makeDirectory path = .error .notFound
    · cases hmake : f.makeDirectories (q :: outer) with
      | mk g outcome =>
        rw [hmake] at hqoutcome
        cases outcome with
        | ok _ =>
          have hadds := addsDirectories_makeDirectories f (q :: outer)
          rw [hmake] at hadds
          have hreaches : g.Reaches path :=
            (isHoused_of_find h hdirs (find_of_makeDirectories hmake)).reaches
          rw [makeDirectories_of_outer hmade hmake, settle_outcome hreaches]
          exact directoryVerdict_congr h (hadds.sameWayTo _)
        | error cause =>
          rw [makeDirectories_of_outer_error hmade hmake]
          exact (directoryVerdict_of_outer htree h hpath hdirs hmade hqoutcome.symm).symm
    · rw [makeDirectories_of_ne hmade, settle_outcome ((reaches_iff hpath).mpr hmade)]

/-! ## Files -/

/-- The outcome of opening a file and filling it. -/
def fillVerdict (f : Files) (loc : Location) (bytes : ByteArray) : Except FileError Unit :=
  if f.limits.isSealed loc then .error .permissionDenied
  else if f.limits.overflows loc bytes then .error .storageFull
  else .ok ()

/-- The outcome of writing a file when the directories on the way to it are made. -/
def fileVerdict (f : Files) (path : String) (bytes : ByteArray) : Except FileError Unit :=
  if Path.isClosed path && (Path.fault? path).isNone then .error .isDirectory
  else
    (f.wayTo path).bind fun _ =>
      if f.isDirectoryAt (Path.target path) then .error .isDirectory
      else f.fillVerdict (Path.target path) bytes

theorem write_outcome_of_place (f : Files) (path : String) (bytes : ByteArray) :
    (f.write path bytes).2 = (f.place path).bind fun loc =>
      if f.limits.overflows loc bytes then .error .storageFull else .ok () := by
  cases hplace : f.place path with
  | error cause =>
    rw [write_of_place_eq_error hplace]
    rfl
  | ok loc =>
    rw [(place_eq_ok_iff.mp hplace).write_eq]
    rfl

theorem write_outcome (h : f.IsHoused path) (bytes : ByteArray) :
    (f.write path bytes).2 = f.fileVerdict path bytes := by
  have hresolve := h.reaches.resolve_eq
  obtain ⟨loc, hloc⟩ := h
  rw [write_outcome_of_place, place, fileVerdict]
  cases hclosed : Path.isClosed path && (Path.fault? path).isNone with
  | true =>
    simp only [if_true, hloc]
    rfl
  | false =>
    simp only [Bool.false_eq_true, if_false, hresolve]
    cases f.wayTo path with
    | error cause => rfl
    | ok _ =>
      simp only [Except.map, bind, Except.bind, isDirectoryAt, fillVerdict]
      obtain ⟨e?, hentry⟩ : ∃ e?, f.get? (Path.target path) = e? := ⟨_, rfl⟩
      simp only [hentry]
      cases f.limits.isSealed (Path.target path) <;> rcases e? with _ | _ | _ <;> rfl

/-- The outcome of a save. -/
def saveVerdict (f : Files) (path : String) (bytes : ByteArray) : Except FileError Unit :=
  match (Path.directories path).getLast? with
  | none => f.fileVerdict path bytes
  | some q => (f.directoryVerdict q).bind fun _ => f.fileVerdict path bytes

/-- The same obstacles stand on the way down some names, and a directory at their end in both or in
neither. The limits are the same. -/
structure SameTo (names : List String) (f f' : Files) : Prop where
  limits : f'.limits = f.limits
  way : SameWayTo names f f'
  directory : f'.isDirectoryAt (.below names) = f.isDirectoryAt (.below names)

theorem fileVerdict_congr (h : Path.Leads path names) (hsame : SameTo names f f')
    (bytes : ByteArray) : f'.fileVerdict path bytes = f.fileVerdict path bytes := by
  rw [fileVerdict, fileVerdict, wayTo_congr h hsame.way, h.target_eq, hsame.directory, fillVerdict,
    fillVerdict, hsame.limits]

theorem saveVerdict_congr (h : Path.Leads path names) (hsame : SameTo names f f')
    (bytes : ByteArray) : f'.saveVerdict path bytes = f.saveVerdict path bytes := by
  rw [saveVerdict, saveVerdict, fileVerdict_congr h hsame]
  rcases List.eq_nil_or_concat (Path.directories path) with hdirs | ⟨before, q, hdirs⟩
  · rw [hdirs]
    rfl
  · rw [List.concat_eq_append] at hdirs
    obtain ⟨first, name, rfl, hlead⟩ := h.of_directories_eq_concat hdirs
    rw [hdirs, List.getLast?_concat]
    simp only [directoryVerdict_congr hlead (hsame.way.mono (List.prefix_append _ _))]

/-- Making the directories on the way to a path changes neither the obstacles nor what its end is. -/
theorem sameTo_makeDirectories (f : Files) (h : Path.Leads path names) :
    SameTo names f (f.makeDirectories (Path.directories path).reverse).1 := by
  have hadds := addsDirectories_makeDirectories f (Path.directories path).reverse
  refine ⟨hadds.limits, hadds.sameWayTo names, ?_⟩
  rw [isDirectoryAt, get?_makeDirectories_of_ne, isDirectoryAt]
  intro q hq
  obtain ⟨first, name, more, rfl, hlead⟩ := h.of_mem_directories (List.mem_reverse.mp hq)
  rw [hlead.target_eq]
  simp [Location.below_inj]

theorem save_outcome_of_makeDirectories {g : Files} (h : Path.Leads path names)
    (hhoused : g.IsHoused path)
    (hmake : f.makeDirectories (Path.directories path).reverse = (g, .ok ())) (bytes : ByteArray) :
    (f.save path bytes).2 = f.fileVerdict path bytes := by
  have hsame := f.sameTo_makeDirectories h
  rw [hmake] at hsame
  rw [save_of_made hmake, write_outcome hhoused, fileVerdict_congr h hsame]

/-- **Saves** succeed or fail as the obstacles on the way and the limits decide. -/
theorem save_outcome (htree : f.IsTree) (h : Path.Leads path names) (bytes : ByteArray) :
    (f.save path bytes).2 = f.saveVerdict path bytes := by
  rw [saveVerdict]
  rcases List.eq_nil_or_concat (Path.directories path) with hdirs | ⟨before, q, hdirs⟩
  · have hmake : f.makeDirectories (Path.directories path).reverse = (f, .ok ()) := by
      rw [hdirs]
      rfl
    rw [hdirs]
    exact save_outcome_of_makeDirectories h (f.isHoused_of_directories_eq_nil h hdirs) hmake bytes
  · rw [List.concat_eq_append] at hdirs
    obtain ⟨first, name, rfl, hlead⟩ := h.of_directories_eq_concat hdirs
    have hmem : q ∈ Path.directories path := hdirs ▸ List.mem_concat_self
    have hq : q ≠ "" := Path.ne_empty_of_mem_directories hmem
    have hreverse : (Path.directories path).reverse = q :: before.reverse := by
      rw [hdirs, List.reverse_append]
      rfl
    have hmade : (f.makeDirectories (q :: before.reverse)).2 = f.directoryVerdict q :=
      makeDirectories_outcome htree hlead hq (by rw [Path.directories_of_eq_append hdirs])
    rw [hdirs, List.getLast?_concat]
    simp only [← hmade]
    cases hmake : f.makeDirectories (q :: before.reverse) with
    | mk g outcome =>
      cases outcome with
      | ok _ =>
        have hhoused : g.IsHoused path := isHoused_of_find h hdirs (find_of_makeDirectories hmake)
        exact save_outcome_of_makeDirectories h hhoused (hreverse ▸ hmake) bytes
      | error cause =>
        rw [save, hreverse, hmake]
        rfl

/-! ## Reading -/

/-- **What is read** is the file at the end, if nothing stands in the way. -/
theorem IsTree.read_eq_ok_iff (htree : f.IsTree) (h : Path.Leads path names) :
    f.read path = .ok bytes ↔ Path.isClosed path = false ∧ f.wayTo path = .ok () ∧
      f.fileAt? (.below names) = some bytes := by
  rw [Files.read_eq_ok_iff, find_eq_file_iff, fileAt?_eq_some_iff]
  refine and_congr_right fun _ => ?_
  constructor
  · rintro ⟨loc, hloc, hentry⟩
    have hreaches : f.Reaches path := fun _ => by
      rw [(resolve_eq_ok_iff.mp hloc).2]
      exact nofun
    rw [eq_target_of_resolve hloc, h.target_eq] at hentry
    refine ⟨?_, hentry⟩
    rw [hreaches.resolve_eq] at hloc
    cases hway : f.wayTo path with
    | error cause =>
      rw [hway] at hloc
      cases hloc
    | ok _ => rfl
  · rintro ⟨hway, hentry⟩
    -- Since something is at the end, nothing is missing on the way.
    have hreaches : f.Reaches path := by
      intro _
      rw [h.start_eq, h.steps_eq]
      exact htree.walk_ne hentry
    refine ⟨.below names, ?_, hentry⟩
    rw [hreaches.resolve_eq, hway, h.target_eq]
    rfl

end Files

end Concordance
