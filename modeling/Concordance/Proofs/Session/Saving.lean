import Concordance.Session
import Concordance.Proofs.Files.Directories
import Concordance.Proofs.Snapshot.RoundTrip
import Concordance.Proofs.Trie.Reachable

/-!
# Saving a session

What a session saves is loaded again as it was (`loadSnapshot_of_save`). A save that is refused
changes no file (`addsDirectories_of_save`); one that breaks off leaves the beginning of a snapshot
(`find_of_save_torn`).

Where a save is refused for what stands on the way, the path of the snapshot refuses every other save
too, before and after (`refuses_of_save`, `refuses_after_save`); from such a path nothing is loaded
either (`exists_loadSnapshot_eq_error`).
-/

namespace Concordance.Session

variable {s : Session} {files files' : Files} {e : SearchError} {cause : FileError}

theorem save_eq (s : Session) (files : Files) :
    let saved := files.save s.config.snapshotPath (Snapshot.render s.index).toUTF8
    s.save files = (saved.1, saved.2.mapError .file) := by
  rw [save]
  cases files.save s.config.snapshotPath (Snapshot.render s.index).toUTF8 with
  | mk g outcome => cases outcome <;> rfl

theorem save_eq_ok_iff : s.save files = (files', .ok ()) ↔
    files.save s.config.snapshotPath (Snapshot.render s.index).toUTF8 = (files', .ok ()) := by
  rw [save_eq]
  cases files.save s.config.snapshotPath (Snapshot.render s.index).toUTF8 with
  | mk g outcome => cases outcome <;> simp [Except.mapError]

/-- A save fails for what the system says about the file. -/
theorem save_eq_error_iff : s.save files = (files', .error e) ↔
    ∃ cause, e = .file cause ∧
      files.save s.config.snapshotPath (Snapshot.render s.index).toUTF8 = (files', .error cause) := by
  rw [save_eq]
  cases files.save s.config.snapshotPath (Snapshot.render s.index).toUTF8 with
  | mk g outcome => cases outcome <;> simp [Except.mapError, eq_comm, and_comm]

theorem save_eq_error_file_iff : s.save files = (files', .error (.file cause)) ↔
    files.save s.config.snapshotPath (Snapshot.render s.index).toUTF8 = (files', .error cause) := by
  simp [save_eq_error_iff]

/-- A query is answered from the index alone. -/
theorem execute_query (s : Session) (chunks : List String) :
    ∃ r, ∀ g, s.execute g (.query chunks) = (r, s, g) := by
  cases hids : Query.answerChunks s.index chunks with
  | ok ids => exact ⟨.results ids, fun g => by simp only [execute, hids]⟩
  | error e => exact ⟨.ofError e, fun g => by simp only [execute, hids]⟩

theorem execute_save (s : Session) (files : Files) :
    s.execute files .save =
      (match (s.save files).2 with
        | .ok _ => .saved
        | .error e => .ofError e, s, (s.save files).1) := by
  rw [execute]
  cases s.save files with
  | mk files' outcome => cases outcome <;> rfl

theorem loadSnapshot_eq_ok_iff {path : String} {t : Trie} :
    loadSnapshot files path = .ok t ↔
      ∃ text, files.find path = .ok (.file text.toUTF8) ∧ Snapshot.ofText text = .ok t := by
  rw [loadSnapshot]
  simp only [← Files.readText_eq_ok_iff]
  cases files.readText path <;> simp

theorem wellFormed_of_loadSnapshot {path : String} {t : Trie}
    (h : loadSnapshot files path = .ok t) : t.WellFormed := by
  obtain ⟨text, _, haccepted⟩ := loadSnapshot_eq_ok_iff.mp h
  exact Snapshot.wellFormed_ofText haccepted

/-- What is loaded depends only on what stands at the path. -/
theorem loadSnapshot_of_find_eq {path : String} (h : files'.find path = files.find path) :
    loadSnapshot files' path = loadSnapshot files path := by
  rw [loadSnapshot, Files.readText, Files.read, h, loadSnapshot, Files.readText, Files.read]

/-- **What is saved is loaded again.** -/
theorem loadSnapshot_of_save (hindex : s.index.WellFormed) (h : s.save files = (files', .ok ())) :
    loadSnapshot files' s.config.snapshotPath = .ok s.index :=
  loadSnapshot_eq_ok_iff.mpr ⟨Snapshot.render s.index, Files.find_save (save_eq_ok_iff.mp h),
    Snapshot.ofText_render hindex⟩

/-! ## Saves that fail -/

theorem addsDirectories_of_save (h : s.save files = (files', .error e))
    (hfull : e ≠ .file .storageFull) : files.AddsDirectories files' := by
  obtain ⟨cause, rfl, hsave⟩ := save_eq_error_iff.mp h
  exact Files.addsDirectories_of_save hsave fun hcause => hfull (congrArg _ hcause)

theorem find_of_save_torn (h : s.save files = (files', .error (.file .storageFull))) :
    ∃ n < (Snapshot.render s.index).toUTF8.size, files'.find s.config.snapshotPath =
      .ok (.file ((Snapshot.render s.index).toUTF8.extract 0 n)) :=
  Files.find_of_save_torn (save_eq_error_file_iff.mp h)

theorem refuses_of_save (h : s.save files = (files', .error (.file cause)))
    (hlimit : cause.isLimit = false) : files.Refuses s.config.snapshotPath :=
  Files.refuses_of_save (save_eq_error_file_iff.mp h) hlimit

theorem refuses_after_save (h : s.save files = (files', .error (.file cause)))
    (hlimit : cause.isLimit = false) : files'.Refuses s.config.snapshotPath :=
  Files.refuses_after_save (save_eq_error_file_iff.mp h) hlimit

theorem exists_loadSnapshot_eq_error {path : String} (h : files.Refuses path) :
    ∃ e, loadSnapshot files path = .error e := by
  cases hload : loadSnapshot files path with
  | error e => exact ⟨e, rfl⟩
  | ok t =>
    obtain ⟨text, hfind, _⟩ := loadSnapshot_eq_ok_iff.mp hload
    exact absurd hfind (h.find_ne _)

theorem exists_save_eq_error (h : files.Refuses s.config.snapshotPath) :
    ∃ files' cause, s.save files = (files', .error (.file cause)) ∧ cause.isLimit = false := by
  obtain ⟨files', cause, hsave, hlimit⟩ := h (Snapshot.render s.index).toUTF8
  exact ⟨files', cause, save_eq_error_file_iff.mpr hsave, hlimit⟩

end Concordance.Session
