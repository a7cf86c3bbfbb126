import Concordance.Proofs.CommandLine.Calls
import Concordance.Proofs.Session.Saving

/-!
# Lines that can be left out

A session handles lines one after the other (`Session.handleAll`). Blank lines, queries and lines
that are answered with a failure are idle, other than saves that a limit stops: a session that handles
only the others gives these the same responses, ends with the same index, and leaves the same files
(`handleAll_kept`). A save that a limit stops has to stay. If it is not permitted to open the file, the
directories that it has made may lead to a snapshot, and if it breaks off, the file is torn
(`handleAll_failed_saves`).

The two runs may differ in directories, since a save that is left out may have made some. But then the
snapshot can neither be saved nor loaded in either run, and so no later line can tell the runs
apart: this is what `Alike` says. An idle line of the full run keeps it (`Alike.idle`), and so does
every other line when both runs handle it (`Alike.kept`).
-/

namespace Concordance.Session

/-- The responses to some lines, each with its line, and what the session ends with. -/
def handleAll (s : Session) (files : Files) :
    List String → List (String × Option Response) × Session × Files
  | [] => ([], s, files)
  | line :: lines =>
    match s.handleLine files line with
    | (r?, s', files') =>
      match s'.handleAll files' lines with
      | (rs, s'', files'') => ((line, r?) :: rs, s'', files'')

theorem handleAll_cons (s : Session) (files : Files) (line : String) (lines : List String) :
    let step := s.handleLine files line
    let rest := step.2.1.handleAll step.2.2 lines
    s.handleAll files (line :: lines) = ((line, step.1) :: rest.1, rest.2) :=
  rfl

/-- Whether a response is that of a save that was not permitted to open its file, or had no room to
write it to the end. -/
def tellsLimit (r : Response) : Bool :=
  [FileError.permissionDenied, .storageFull].any fun cause => r == .ofError (.file cause)

theorem tellsLimit_ofError (cause : FileError) :
    tellsLimit (.ofError (.file cause)) = cause.isLimit := by
  cases cause <;> decide +kernel

/-- Whether a line, with its response, is blank, a query or a failure that is due to no limit. -/
def isIdle (line : String) (r? : Option Response) : Bool :=
  match Text.fields line, r? with
  | [], _ => true
  | "query" :: _, _ => true
  | _, some (.failure message) => !tellsLimit (.failure message)
  | _, _ => false

/-- The lines that are not idle, with their responses. -/
def kept (transcript : List (String × Option Response)) : List (String × Option Response) :=
  transcript.filter fun p => !isIdle p.1 p.2

theorem kept_cons_of_idle {line : String} {r? : Option Response} (h : isIdle line r? = true)
    (rest : List (String × Option Response)) : kept ((line, r?) :: rest) = kept rest :=
  List.filter_cons_of_neg (by simp [h])

theorem kept_cons_of_not_idle {line : String} {r? : Option Response} (h : isIdle line r? = false)
    (rest : List (String × Option Response)) :
    kept ((line, r?) :: rest) = (line, r?) :: kept rest :=
  List.filter_cons_of_pos (by simp [h])

variable {s : Session} {files files' : Files} {line name : String} {args : List String}
  {command : Command}

/-! ## One line -/

theorem handleLine_of_blank (h : Text.fields line = []) :
    s.handleLine files line = (none, s, files) := by
  rw [handleLine, Command.ofLine, h]

theorem handleLine_of_refused (h : Text.fields line = name :: args) {e : SearchError}
    (hparts : Command.ofParts name args = .error e) :
    s.handleLine files line = (some (.ofError e), s, files) := by
  rw [handleLine, Command.ofLine, h]
  simp only [hparts]
  rfl

theorem handleLine_of_command (h : Text.fields line = name :: args)
    (hparts : Command.ofParts name args = .ok command) :
    s.handleLine files line = (some (s.execute files command).1, (s.execute files command).2) := by
  rw [handleLine, Command.ofLine, h]
  simp only [hparts]
  rfl

/-- A line does nothing or carries out a command, whatever the files are. -/
theorem handleLine_cases (s : Session) (line : String) :
    (∃ r?, ∀ files, s.handleLine files line = (r?, s, files)) ∨
      ∃ command, ∀ files, s.handleLine files line =
        (some (s.execute files command).1, (s.execute files command).2) := by
  cases hfields : Text.fields line with
  | nil => exact .inl ⟨none, fun _ => handleLine_of_blank hfields⟩
  | cons name args =>
    cases hparts : Command.ofParts name args with
    | error e => exact .inl ⟨some (.ofError e), fun _ => handleLine_of_refused hfields hparts⟩
    | ok command => exact .inr ⟨command, fun _ => handleLine_of_command hfields hparts⟩

theorem isIdle_cons_iff (h : Text.fields line = name :: args) {r : Response} :
    isIdle line (some r) = true ↔
      name = "query" ∨ (∃ message, r = .failure message) ∧ tellsLimit r = false := by
  unfold isIdle
  rw [h]
  split <;> simp_all

theorem config_reload (s : Session) (files : Files) : (s.reload files).2.config = s.config := by
  rw [reload]
  cases loadSnapshot files s.config.snapshotPath <;> rfl

theorem config_execute (s : Session) (files : Files) (command : Command) :
    (s.execute files command).2.1.config = s.config := by
  cases command with
  | index | clear | exit => rfl
  | query chunks =>
    obtain ⟨r, hexecute⟩ := execute_query s chunks
    rw [hexecute]
  | save => rw [execute_save]
  | load => exact config_reload s files

/-- The configuration stays. -/
theorem config_handleLine (s : Session) (files : Files) (line : String) :
    (s.handleLine files line).2.1.config = s.config := by
  obtain ⟨r?, hidle⟩ | ⟨command, hcommand⟩ := s.handleLine_cases line
  · rw [hidle]
  · rw [hcommand]
    exact config_execute s files command

/-- What a session holds is in order after a command if it was before. -/
theorem wellFormed_execute (h : s.index.WellFormed) (files : Files) (command : Command) :
    (s.execute files command).2.1.index.WellFormed := by
  cases command with
  | index d words => exact h.addDocument d words
  | query chunks =>
    obtain ⟨r, hexecute⟩ := execute_query s chunks
    rw [hexecute]
    exact h
  | save =>
    rw [execute_save]
    exact h
  | load =>
    rw [execute, reload]
    cases hload : loadSnapshot files s.config.snapshotPath with
    | ok t => exact wellFormed_of_loadSnapshot hload
    | error e => exact .empty
  | clear => exact .empty
  | exit => exact h

theorem wellFormed_handleLine (h : s.index.WellFormed) (files : Files) (line : String) :
    (s.handleLine files line).2.1.index.WellFormed := by
  obtain ⟨r?, hidle⟩ | ⟨command, hcommand⟩ := s.handleLine_cases line
  · rw [hidle]
    exact h
  · rw [hcommand]
    exact wellFormed_execute h files command

/-- A command that fails was a query or a save, and has done nothing but what such a save does. -/
theorem execute_of_failure {message : String} (h : (s.execute files command).1 = .failure message)
    (hlimit : tellsLimit (s.execute files command).1 = false) :
    (s.execute files command).2 = (s, files) ∨
      ∃ files' cause, (s.execute files command).2 = (s, files') ∧
        s.save files = (files', .error (.file cause)) ∧ cause.isLimit = false := by
  cases command with
  | index | clear | exit => cases h
  | query chunks =>
    obtain ⟨r, hexecute⟩ := execute_query s chunks
    rw [hexecute]
    exact .inl rfl
  | save =>
    rw [execute_save] at h hlimit ⊢
    cases hsave : s.save files with
    | mk files' outcome =>
      rw [hsave] at h hlimit
      cases outcome with
      | ok _ => cases h
      | error e =>
        obtain ⟨cause, rfl, _⟩ := save_eq_error_iff.mp hsave
        exact .inr ⟨files', cause, rfl, rfl, (tellsLimit_ofError cause).symm.trans hlimit⟩
  | load =>
    rw [execute, reload] at h
    cases hload : loadSnapshot files s.config.snapshotPath with
    | ok t =>
      rw [hload] at h
      cases h
    | error e =>
      rw [hload] at h
      cases h

/-- **An idle line** changes nothing, up to what a save that is refused may have done. -/
theorem handleLine_of_isIdle (h : isIdle line (s.handleLine files line).1 = true) :
    (s.handleLine files line).2 = (s, files) ∨
      ∃ files' cause, (s.handleLine files line).2 = (s, files') ∧
        s.save files = (files', .error (.file cause)) ∧ cause.isLimit = false := by
  cases hfields : Text.fields line with
  | nil =>
    rw [handleLine_of_blank hfields]
    exact .inl rfl
  | cons name args =>
    cases hparts : Command.ofParts name args with
    | error e =>
      rw [handleLine_of_refused hfields hparts]
      exact .inl rfl
    | ok command =>
      rw [handleLine_of_command hfields hparts] at h ⊢
      rcases (isIdle_cons_iff hfields).mp h with rfl | ⟨⟨message, hfailure⟩, hlimit⟩
      · obtain rfl := Command.eq_query_of_ofParts hparts
        obtain ⟨r, hexecute⟩ := execute_query s args
        rw [hexecute]
        exact .inl rfl
      · exact execute_of_failure hfailure hlimit

/-! ## Many lines -/

theorem config_handleAll (s : Session) (files : Files) (lines : List String) :
    (s.handleAll files lines).2.1.config = s.config := by
  induction lines generalizing s files with
  | nil => rfl
  | cons line lines ih =>
    rw [handleAll_cons]
    exact (ih _ _).trans (config_handleLine s files line)

theorem wellFormed_handleAll (h : s.index.WellFormed) (files : Files) (lines : List String) :
    (s.handleAll files lines).2.1.index.WellFormed := by
  induction lines generalizing s files with
  | nil => exact h
  | cons line lines ih =>
    rw [handleAll_cons]
    exact ih (wellFormed_handleLine h files line) _

/-! ## Files that no line tells apart -/

/-- The same files, or files that differ in directories alone while the snapshot has no place in
either. -/
def Alike (path : String) (files files' : Files) : Prop :=
  files = files' ∨ files.Refuses path ∧ files'.Refuses path ∧ files.SameFiles files'

namespace Alike

theorem sameFiles {path : String} (h : Alike path files files') : files.SameFiles files' := by
  rcases h with rfl | ⟨_, _, hsame⟩
  · exact .refl files
  · exact hsame

/-- **A line that is left out.** -/
theorem idle (h : Alike s.config.snapshotPath files files')
    (hidle : isIdle line (s.handleLine files line).1 = true) :
    (s.handleLine files line).2.1 = s ∧
      Alike s.config.snapshotPath (s.handleLine files line).2.2 files' := by
  rcases handleLine_of_isIdle hidle with hsame | ⟨files₁, cause, hafter, hsave, hlimit⟩
  · rw [hsame]
    exact ⟨rfl, h⟩
  · rw [hafter]
    refine ⟨rfl, .inr ⟨refuses_after_save hsave hlimit, ?_, ?_⟩⟩
    · rcases h with rfl | ⟨_, hrefuses, _⟩
      · exact refuses_of_save hsave hlimit
      · exact hrefuses
    · have hfull : SearchError.file cause ≠ .file .storageFull := by
        rintro ⟨⟩
        cases hlimit
      exact (addsDirectories_of_save hsave hfull).sameFiles.symm.trans h.sameFiles

/-- A command that does not fail, or that a limit stops, does the same with both files. -/
theorem execute (h : Alike s.config.snapshotPath files files')
    (hr : ∀ message, (s.execute files command).1 = .failure message →
      tellsLimit (s.execute files command).1 = true) :
    (s.execute files' command).1 = (s.execute files command).1 ∧
      (s.execute files' command).2.1 = (s.execute files command).2.1 ∧
      Alike s.config.snapshotPath (s.execute files command).2.2
        (s.execute files' command).2.2 := by
  rcases h with rfl | ⟨hrefuses, hrefuses', hsame⟩
  · exact ⟨rfl, rfl, .inl rfl⟩
  · have halike : Alike s.config.snapshotPath files files' := .inr ⟨hrefuses, hrefuses', hsame⟩
    cases command with
    | index | clear | exit => exact ⟨rfl, rfl, halike⟩
    | query chunks =>
      obtain ⟨r, hexecute⟩ := execute_query s chunks
      rw [hexecute, hexecute]
      exact ⟨rfl, rfl, halike⟩
    | save =>
      -- There is no place for the snapshot, so no limit would have stopped the save.
      obtain ⟨g, cause, hsave, hlimit⟩ := exists_save_eq_error hrefuses
      rw [execute_save, hsave] at hr
      have htells : tellsLimit (.ofError (.file cause)) = true := hr _ rfl
      rw [tellsLimit_ofError, hlimit] at htells
      cases htells
    | load =>
      obtain ⟨e, hload⟩ := exists_loadSnapshot_eq_error hrefuses
      obtain ⟨e', hload'⟩ := exists_loadSnapshot_eq_error hrefuses'
      simp only [Session.execute, reload, hload, hload', true_and]
      exact halike

/-- **A line that both runs handle.** -/
theorem kept (h : Alike s.config.snapshotPath files files')
    (hkept : isIdle line (s.handleLine files line).1 = false) :
    (s.handleLine files' line).1 = (s.handleLine files line).1 ∧
      (s.handleLine files' line).2.1 = (s.handleLine files line).2.1 ∧
      Alike s.config.snapshotPath (s.handleLine files line).2.2
        (s.handleLine files' line).2.2 := by
  cases hfields : Text.fields line with
  | nil =>
    rw [handleLine_of_blank hfields, handleLine_of_blank hfields]
    exact ⟨rfl, rfl, h⟩
  | cons name args =>
    cases hparts : Command.ofParts name args with
    | error e =>
      rw [handleLine_of_refused hfields hparts, handleLine_of_refused hfields hparts]
      exact ⟨rfl, rfl, h⟩
    | ok command =>
      rw [handleLine_of_command hfields hparts] at hkept
      rw [handleLine_of_command hfields hparts, handleLine_of_command hfields hparts]
      have hr (message : String) (hfailure : (s.execute files command).1 = .failure message) :
          tellsLimit (s.execute files command).1 = true := by
        cases hlimit : tellsLimit (s.execute files command).1 with
        | true => rfl
        | false =>
          rw [(isIdle_cons_iff hfields).mpr (.inr ⟨⟨message, hfailure⟩, hlimit⟩)] at hkept
          cases hkept
      obtain ⟨hresponse, hsession, hafter⟩ := h.execute hr
      exact ⟨congrArg some hresponse, hsession, hafter⟩

/-- **Whole runs**, line by line. -/
theorem handleAll (h : Alike s.config.snapshotPath files files') (lines : List String) :
    let full := s.handleAll files lines
    let rest := s.handleAll files' ((Session.kept full.1).map Prod.fst)
    rest.1 = Session.kept full.1 ∧ rest.2.1 = full.2.1 ∧
      Alike s.config.snapshotPath full.2.2 rest.2.2 := by
  induction lines generalizing s files files' with
  | nil => exact ⟨rfl, rfl, h⟩
  | cons line lines ih =>
    have hconfig := config_handleLine s files line
    simp only [handleAll_cons]
    cases hidle : isIdle line (s.handleLine files line).1 with
    | true =>
      obtain ⟨hsession, halike⟩ := h.idle hidle
      rw [kept_cons_of_idle hidle]
      rw [hsession]
      exact ih halike
    | false =>
      obtain ⟨hresponse, hsession, halike⟩ := h.kept hidle
      rw [← hconfig] at halike
      obtain ⟨htranscript, hend, hfiles⟩ := ih halike
      rw [kept_cons_of_not_idle hidle, List.map_cons, handleAll_cons, hresponse, hsession]
      rw [hconfig] at hfiles
      exact ⟨congrArg _ htranscript, hend, hfiles⟩

end Alike

end Concordance.Session
