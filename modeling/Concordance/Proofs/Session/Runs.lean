import Concordance.Proofs.Session.Lines
import Concordance.Proofs.Snapshot.Torn
import Concordance.Shell

/-!
# Runs with restarts

A run goes on over many sessions, one after the other, with one configuration. The snapshot is
where an index outlives its session, so what a run may rely on is what became of the last save that
opened the file (`Kept`): `Run config s files kept` says that a run has come to the session `s` and
to `files`, and that this is `kept`.

What the files hold agrees with `kept` at every point (`Kept.Holds`): there is no snapshot before the
first save, after a save it is that of the saved index, and after a save that broke off it is torn.
Each command keeps this (`Keeps.handleLine`), hence a whole conversation does (`Keeps.converse`), and
a run (`Run.keeps`). So what loading and restarting give at any point is decided by the last save
(`Run.answers`), whatever has been done to the index since.
-/

namespace Concordance

/-- What the last save that opened the file of the snapshot has left. -/
inductive Kept where
  /-- No save has opened it yet. -/
  | nothing
  | whole (t : Trie)
  /-- The save broke off. -/
  | torn (t : Trie)
  deriving Inhabited

namespace Kept

def isTorn : Kept → Bool
  | torn _ => true
  | _ => false

/-- The text of the snapshot, if one was written to its end. -/
def text? : Kept → Option String
  | whole t => some (Snapshot.render t)
  | _ => none

/-- What is left after a further save. If that is refused it opens no file. -/
def afterSave (kept : Kept) (t : Trie) : Except SearchError Unit → Kept
  | .ok _ => whole t
  | .error (.file .storageFull) => torn t
  | .error _ => kept

end Kept

namespace Session

/-- What is left after a command. -/
def keptBy (s : Session) (files : Files) (kept : Kept) : Command → Kept
  | .save => kept.afterSave s.index (s.save files).2
  | _ => kept

/-- What is left after a line. -/
def keptAfter (s : Session) (files : Files) (kept : Kept) (line : String) : Kept :=
  match Command.ofLine line with
  | .ok (some command) => s.keptBy files kept command
  | _ => kept

end Session

namespace Shell

/-- What is left once the shell has been left. -/
def keptOnLeave (s : Session) (files : Files) (kept : Kept) : Kept :=
  if s.config.autosaveOnExit then kept.afterSave s.index (s.save files).2 else kept

/-- What is left after a conversation over some lines. -/
def keptBy (s : Session) (files : Files) (kept : Kept) : List (List UInt8) → Kept
  | [] => keptOnLeave s files kept
  | bytes :: rest =>
    match Text.decodeLine? bytes with
    | none => kept
    | some line =>
      match s.handleLine files line with
      | (none, s', files') => keptBy s' files' (s.keptAfter files kept line) rest
      | (some r, s', files') =>
        if r.endsSession then keptOnLeave s' files' (s.keptAfter files kept line)
        else keptBy s' files' (s.keptAfter files kept line) rest

end Shell

namespace Session

/-- A snapshot can be created at a path. -/
def IsWritable (files : Files) (path : String) : Prop :=
  ∃ bytes files', files.save path bytes = (files', .ok ())

/-- The runs that start without a snapshot where one can be created. Nobody else writes it. -/
inductive Run (config : Config) : Session → Files → Kept → Prop where
  | begin {files : Files} (absent : files.exists? config.snapshotPath = false)
      (writable : IsWritable files config.snapshotPath) : Run config { config } files .nothing
  | line {s : Session} {files : Files} {kept : Kept} (run : Run config s files kept)
      (text : String) :
      Run config (s.handleLine files text).2.1 (s.handleLine files text).2.2
        (s.keptAfter files kept text)
  | save {s : Session} {files : Files} {kept : Kept} (run : Run config s files kept) :
      Run config s (s.save files).1 (kept.afterSave s.index (s.save files).2)
  /-- A script for the shell, to its end. The points inside it are reached by its lines. -/
  | script {s : Session} {files : Files} {kept : Kept} (run : Run config s files kept)
      (m : Medium) (input : ByteArray) :
      Run config (Shell.run m s files input).session (Shell.run m s files input).files
        (Shell.keptBy s files kept (Text.lines input.data.toList))
  | restart {s : Session} {files : Files} {kept : Kept} (run : Run config s files kept) :
      Run config { config } files kept
  | start {s : Session} {files : Files} {kept : Kept} (run : Run config s files kept) :
      Run config (Session.start config files).2 files kept
  | ofSnapshot {s s' : Session} {files : Files} {kept : Kept}
      (run : Run config s files kept) (opened : Session.ofSnapshot config files = .ok s') :
      Run config s' files kept
  /-- Other programs change other files. What the path leads to stays, and as long as that is nothing,
  a snapshot can still be created. -/
  | others {s : Session} {files files' : Files} {kept : Kept}
      (run : Run config s files kept)
      (same : files'.find config.snapshotPath = files.find config.snapshotPath)
      (writable : kept = .nothing → IsWritable files' config.snapshotPath) : Run config s files' kept

end Session

/-! ## What the files hold -/

/-- The files hold at a path what the last save there has left. -/
def Kept.Holds (files : Files) (path : String) : Kept → Prop
  | nothing => files.exists? path = false ∧ Session.IsWritable files path
  | whole t => Session.loadSnapshot files path = .ok t
  | torn t => t.WellFormed ∧ ∃ n < (Snapshot.render t).toUTF8.size,
      files.find path = .ok (.file ((Snapshot.render t).toUTF8.extract 0 n))

namespace Kept

variable {files files' : Files} {path : String} {kept : Kept} {s : Session}

/-- Unless nothing has been saved, there is a file. -/
theorem Holds.exists_find (h : kept.Holds files path) (hkept : kept ≠ .nothing) :
    ∃ bytes, files.find path = .ok (.file bytes) := by
  cases kept with
  | nothing => exact absurd rfl hkept
  | whole t =>
    obtain ⟨text, hfind, _⟩ := Session.loadSnapshot_eq_ok_iff.mp h
    exact ⟨_, hfind⟩
  | torn t =>
    obtain ⟨_, n, _, hfind⟩ := h
    exact ⟨_, hfind⟩

/-- It is for what the path leads to to decide. -/
theorem Holds.of_find (h : kept.Holds files path) (same : files'.find path = files.find path)
    (writable : kept = .nothing → Session.IsWritable files' path) : kept.Holds files' path := by
  cases kept with
  | nothing => exact ⟨by rw [Files.exists?, same]; exact h.1, writable rfl⟩
  | whole t => exact (Session.loadSnapshot_of_find_eq same).trans h
  | torn t =>
    obtain ⟨ht, n, hn, hfind⟩ := h
    exact ⟨ht, n, hn, same.trans hfind⟩

/-- A save that is refused leaves what there was. Where nothing had been saved, it is not refused. -/
theorem Holds.of_refused (h : kept.Holds files s.config.snapshotPath) {cause : FileError}
    (hsave : s.save files = (files', .error (.file cause))) (hfull : cause ≠ .storageFull) :
    kept.Holds files' s.config.snapshotPath := by
  have hfail := Session.save_eq_error_file_iff.mp hsave
  by_cases hkept : kept = .nothing
  · subst hkept
    obtain ⟨bytes, files'', hsaved⟩ := h.2
    exact absurd (Files.eq_storageFull_of_save hsaved hfail) hfull
  · obtain ⟨bytes, hfind⟩ := h.exists_find hkept
    rwa [Files.eq_of_save_refused hfind hfail hfull]

/-- **A save**, whatever it comes to. -/
theorem Holds.save (h : kept.Holds files s.config.snapshotPath) (ht : s.index.WellFormed) :
    (kept.afterSave s.index (s.save files).2).Holds (s.save files).1 s.config.snapshotPath := by
  cases hsave : s.save files with
  | mk files' outcome =>
    cases outcome with
    | ok _ => exact Session.loadSnapshot_of_save ht hsave
    | error e =>
      obtain ⟨cause, rfl, _⟩ := Session.save_eq_error_iff.mp hsave
      by_cases hfull : cause = .storageFull
      · subst hfull
        obtain ⟨n, hn, hfind⟩ := Session.find_of_save_torn hsave
        exact ⟨ht, n, hn, hfind⟩
      · have hkept : kept.afterSave s.index (.error (.file cause)) = kept := by
          cases cause <;> first | rfl | exact absurd rfl hfull
        rw [hkept]
        exact h.of_refused hsave hfull

/-- A snapshot that is torn is not loaded. -/
theorem Holds.exists_loadSnapshot_eq_error {t : Trie} (h : (torn t).Holds files path) :
    ∃ e, Session.loadSnapshot files path = .error e := by
  obtain ⟨ht, n, hn, hfind⟩ := h
  have hcut : (Snapshot.render t).toUTF8.extract 0 n ++
      (Snapshot.render t).toUTF8.extract n (Snapshot.render t).toUTF8.size =
        (Snapshot.render t).toUTF8 := by
    rw [← ByteArray.extract_eq_extract_append_extract n (Nat.zero_le n) (Nat.le_of_lt hn),
      ByteArray.extract_zero_size]
  have hmore : (Snapshot.render t).toUTF8.extract n (Snapshot.render t).toUTF8.size ≠ .empty := by
    intro hempty
    have hsize := congrArg ByteArray.size hempty
    rw [ByteArray.size_extract, ByteArray.size_empty] at hsize
    omega
  cases hload : Session.loadSnapshot files path with
  | error e => exact ⟨e, rfl⟩
  | ok t' => exact absurd hload (Snapshot.loadSnapshot_ne_ok_of_append ht hfind hcut hmore t')

end Kept

namespace Session

/-- A session has the configuration, and the files hold what the last save has left. -/
structure Keeps (config : Config) (s : Session) (files : Files) (kept : Kept) : Prop where
  config_eq : s.config = config
  wellFormed : s.index.WellFormed
  holds : kept.Holds files config.snapshotPath

namespace Keeps

variable {config : Config} {s : Session} {files : Files} {kept : Kept}

/-- Another session with the same files. -/
theorem session (h : Keeps config s files kept) {t : Trie} (ht : t.WellFormed) :
    Keeps config { config, index := t } files kept :=
  ⟨rfl, ht, h.holds⟩

/-- The session goes on with another index. -/
theorem withIndex (h : Keeps config s files kept) {t : Trie} (ht : t.WellFormed) :
    Keeps config { s with index := t } files kept :=
  ⟨h.config_eq, ht, h.holds⟩

theorem save (h : Keeps config s files kept) :
    Keeps config s (s.save files).1 (kept.afterSave s.index (s.save files).2) := by
  obtain ⟨rfl, hindex, hholds⟩ := h
  exact ⟨rfl, hindex, hholds.save hindex⟩

theorem loadSnapshot {t : Trie} (h : Keeps config s files (.whole t)) :
    Session.loadSnapshot files config.snapshotPath = .ok t :=
  h.holds

/-- Without a snapshot there is nothing to load, and none is loaded that is torn. -/
theorem exists_loadSnapshot_eq_error (h : Keeps config s files kept)
    (hkept : ∀ t, kept ≠ .whole t) :
    ∃ e, Session.loadSnapshot files config.snapshotPath = .error e := by
  cases kept with
  | nothing =>
    rw [Session.loadSnapshot]
    cases hread : files.readText config.snapshotPath with
    | error cause => exact ⟨_, rfl⟩
    | ok text =>
      obtain ⟨bytes, hfind⟩ := Files.find_of_readText hread
      have hexists := Files.exists?_of_find hfind
      rw [h.holds.1] at hexists
      cases hexists
  | whole t => exact absurd rfl (hkept t)
  | torn t => exact h.holds.exists_loadSnapshot_eq_error

/-- What is kept is loaded. -/
theorem reload_whole {t : Trie} (h : Keeps config s files (.whole t)) :
    s.reload files = (.loaded, { s with index := t }) := by
  rw [Session.reload, h.config_eq, h.loadSnapshot]

theorem reload_of_ne (h : Keeps config s files kept) (hkept : ∀ t, kept ≠ .whole t) :
    s.reload files = (.loadFailed, { s with index := .empty }) := by
  obtain ⟨e, hload⟩ := h.exists_loadSnapshot_eq_error hkept
  rw [Session.reload, h.config_eq, hload]

theorem reload (h : Keeps config s files kept) : Keeps config (s.reload files).2 files kept := by
  cases kept with
  | whole t =>
    rw [h.reload_whole]
    exact h.withIndex (wellFormed_of_loadSnapshot h.loadSnapshot)
  | nothing =>
    rw [h.reload_of_ne nofun]
    exact h.withIndex .empty
  | torn t =>
    rw [h.reload_of_ne nofun]
    exact h.withIndex .empty

/-- **One command.** Only a save changes what is kept, and the files with it. -/
theorem execute (h : Keeps config s files kept) (command : Command) :
    Keeps config (s.execute files command).2.1 (s.execute files command).2.2
      (s.keptBy files kept command) := by
  cases command with
  | index d words => exact h.withIndex (h.wellFormed.addDocument d words)
  | query chunks =>
    obtain ⟨r, hexecute⟩ := execute_query s chunks
    rw [hexecute]
    exact h
  | save =>
    rw [execute_save]
    exact h.save
  | load => exact h.reload
  | clear => exact h.withIndex .empty
  | exit => exact h

/-- **One line.** -/
theorem handleLine (h : Keeps config s files kept) (line : String) :
    Keeps config (s.handleLine files line).2.1 (s.handleLine files line).2.2
      (s.keptAfter files kept line) := by
  rw [Session.handleLine, keptAfter]
  cases Command.ofLine line with
  | error e => exact h
  | ok command? =>
    cases command? with
    | none => exact h
    | some command => exact h.execute command

/-- The shell saves the index that it is left with, if it is configured to. -/
theorem leave (h : Keeps config s files kept) (output : String) :
    Keeps config (Shell.leave output s files).session (Shell.leave output s files).files
      (Shell.keptOnLeave s files kept) := by
  rw [Shell.leave, Shell.keptOnLeave]
  cases s.config.autosaveOnExit with
  | false => exact h
  | true =>
    have hsaved := h.save
    cases hsave : s.save files with
    | mk files' outcome =>
      rw [hsave] at hsaved
      cases outcome <;> exact hsaved

/-- **A conversation**, line by line. -/
theorem converse (h : Keeps config s files kept) (m : Medium) (output : String)
    (lines : List (List UInt8)) :
    Keeps config (Shell.converse m output s files lines).session
      (Shell.converse m output s files lines).files (Shell.keptBy s files kept lines) := by
  induction lines generalizing s files kept output with
  | nil => exact h.leave "\n"
  | cons bytes rest ih =>
    rw [Shell.converse, Shell.turn, Shell.keptBy]
    cases hdecode : Text.decodeLine? bytes with
    | none => exact h
    | some line =>
      have hline := h.handleLine line
      cases hresponse : s.handleLine files line with
      | mk r? after =>
        obtain ⟨s', files'⟩ := after
        rw [hresponse] at hline
        cases r? with
        | none =>
          simp only [hresponse]
          exact ih hline _
        | some r =>
          simp only [hresponse]
          cases r.endsSession with
          | true => exact hline.leave _
          | false => exact ih hline _

/-- A session that is started reloads the snapshot, if it should and there is one. -/
theorem start_of_exists (h : Keeps config s files kept) (hload : config.autoload = true)
    (hkept : kept ≠ .nothing) : Session.start config files =
      (some (({ config } : Session).reload files).1, (({ config } : Session).reload files).2) := by
  obtain ⟨bytes, hfind⟩ := h.holds.exists_find hkept
  simp only [Session.start, hload, Files.exists?_of_find hfind, Bool.and_self, if_true]

theorem start_nothing (h : Keeps config s files .nothing) :
    Session.start config files = (none, { config }) := by
  simp [Session.start, h.holds.1]

theorem start (h : Keeps config s files kept) :
    Keeps config (Session.start config files).2 files kept := by
  have hfresh := h.session .empty
  cases hload : config.autoload with
  | false =>
    simp only [Session.start, hload]
    exact hfresh
  | true =>
    by_cases hkept : kept = .nothing
    · subst hkept
      rw [h.start_nothing]
      exact hfresh
    · rw [h.start_of_exists hload hkept]
      exact hfresh.reload

theorem ofSnapshot_nothing (h : Keeps config s files .nothing) :
    Session.ofSnapshot config files = .ok { config } := by
  rw [Session.ofSnapshot, h.holds.1]
  rfl

theorem ofSnapshot_of_exists (h : Keeps config s files kept) (hkept : kept ≠ .nothing) :
    Session.ofSnapshot config files =
      (Session.loadSnapshot files config.snapshotPath).map fun t => { config, index := t } := by
  obtain ⟨bytes, hfind⟩ := h.holds.exists_find hkept
  rw [Session.ofSnapshot, Files.exists?_of_find hfind, if_pos rfl]
  cases Session.loadSnapshot files config.snapshotPath <;> rfl

theorem ofSnapshot (h : Keeps config s files kept) {s' : Session}
    (hopened : Session.ofSnapshot config files = .ok s') : Keeps config s' files kept := by
  by_cases hkept : kept = .nothing
  · subst hkept
    rw [h.ofSnapshot_nothing] at hopened
    cases hopened
    exact h.session .empty
  · rw [h.ofSnapshot_of_exists hkept] at hopened
    cases hload : Session.loadSnapshot files config.snapshotPath with
    | error e =>
      rw [hload] at hopened
      cases hopened
    | ok t =>
      rw [hload] at hopened
      cases hopened
      exact h.session (wellFormed_of_loadSnapshot hload)

end Keeps

/-- **Whole runs.** At every point the files hold what the last save has left. -/
theorem Run.keeps {config : Config} {s : Session} {files : Files} {kept : Kept}
    (h : Run config s files kept) : Keeps config s files kept := by
  induction h with
  | begin absent writable => exact ⟨rfl, .empty, absent, writable⟩
  | line _ text ih => exact ih.handleLine text
  | save _ ih => exact ih.save
  | script _ m input ih => exact ih.converse m "" _
  | restart _ ih => exact ih.session .empty
  | start _ ih => exact ih.start
  | ofSnapshot _ opened ih => exact ih.ofSnapshot opened
  | others _ same writable ih =>
    exact ⟨ih.config_eq, ih.wellFormed, ih.holds.of_find same writable⟩

theorem handleLine_load {s : Session} {files : Files} {line : String}
    (h : Command.ofLine line = .ok (some .load)) :
    s.handleLine files line = (some (s.reload files).1, (s.reload files).2, files) := by
  rw [handleLine, h]
  rfl

/-- **What the last save has left** decides at every point of a run. As long as no save has opened the
file, there is no snapshot, loading fails and leaves an empty index, and sessions are opened with an
empty index. After a save that succeeded, loading and opening succeed with exactly the index that was
saved. After one that broke off, the file holds only the beginning of its snapshot: loading fails and
leaves an empty index, and no session is opened for one command. -/
theorem Run.answers {config : Config} {s : Session} {files : Files} {kept : Kept}
    (h : Run config s files kept) :
    (kept = .nothing →
      files.exists? config.snapshotPath = false ∧
      (∀ line, Command.ofLine line = .ok (some .load) →
        s.handleLine files line = (some .loadFailed, { s with index := .empty }, files)) ∧
      Session.start config files = (none, { config }) ∧
      Session.ofSnapshot config files = .ok { config }) ∧
    (∀ t, kept = .whole t →
      (∀ line, Command.ofLine line = .ok (some .load) →
        s.handleLine files line = (some .loaded, { s with index := t }, files)) ∧
      (config.autoload = true →
        Session.start config files = (some .loaded, { config, index := t })) ∧
      Session.ofSnapshot config files = .ok { config, index := t }) ∧
    (∀ t, kept = .torn t →
      (∃ n < (Snapshot.render t).toUTF8.size, files.find config.snapshotPath =
        .ok (.file ((Snapshot.render t).toUTF8.extract 0 n))) ∧
      (∀ line, Command.ofLine line = .ok (some .load) →
        s.handleLine files line = (some .loadFailed, { s with index := .empty }, files)) ∧
      (config.autoload = true → Session.start config files = (some .loadFailed, { config })) ∧
      ∃ e, Session.ofSnapshot config files = .error e) := by
  have hkeeps := h.keeps
  have hfresh := hkeeps.session .empty
  refine ⟨?_, ?_, ?_⟩
  · rintro rfl
    refine ⟨hkeeps.holds.1, fun line hline => ?_, hkeeps.start_nothing, hkeeps.ofSnapshot_nothing⟩
    rw [handleLine_load hline, hkeeps.reload_of_ne nofun]
  · rintro t rfl
    refine ⟨fun line hline => ?_, fun hload => ?_, ?_⟩
    · rw [handleLine_load hline, hkeeps.reload_whole]
    · rw [hkeeps.start_of_exists hload nofun, hfresh.reload_whole]
    · rw [hkeeps.ofSnapshot_of_exists nofun, hkeeps.loadSnapshot]
      rfl
  · rintro t rfl
    obtain ⟨_, n, hn, hfind⟩ := hkeeps.holds
    refine ⟨⟨n, hn, hfind⟩, fun line hline => ?_, fun hload => ?_, ?_⟩
    · rw [handleLine_load hline, hkeeps.reload_of_ne nofun]
    · rw [hkeeps.start_of_exists hload nofun, hfresh.reload_of_ne nofun]
    · obtain ⟨e, hload⟩ := hkeeps.exists_loadSnapshot_eq_error nofun
      exact ⟨e, by rw [hkeeps.ofSnapshot_of_exists nofun, hload]; rfl⟩

/-- A script that saves, clears and indexes, and is left with autosave; after it the index is
cleared again. And a run in which a second snapshot is longer than there is room for. -/
theorem Run.answers_script :
    (let config : Config := { snapshotPath := "data/index.json", autosaveOnExit := true }
      let input := "index 4 bread\nsave\nclear\nindex 2 tea\n".toUTF8
      let o := Shell.run .plain { config } {} input
      let cleared := o.session.handleLine o.files "clear"
      ({} : Files).exists? config.snapshotPath = false ∧ IsWritable {} config.snapshotPath ∧
        ∃ t, Snapshot.render t = Snapshot.render (Trie.empty.addDocument 2 ["tea"]) ∧
          Run config cleared.2.1 cleared.2.2 (.whole t) ∧
          cleared.2.1.handleLine cleared.2.2 "load" =
            (some .loaded, { cleared.2.1 with index := t }, cleared.2.2) ∧
          Session.start config cleared.2.2 = (some .loaded, { config, index := t }) ∧
          Session.ofSnapshot config cleared.2.2 = .ok { config, index := t }) ∧
    (let config : Config := { snapshotPath := "data/index.json" }
      ∃ s files t, Run config s files (.torn t) ∧
        Session.start config files = (some .loadFailed, { config })) := by
  constructor
  · intro config input o cleared
    have habsent : ({} : Files).exists? config.snapshotPath = false := by decide +kernel
    have hwritable : IsWritable {} config.snapshotPath :=
      ⟨.empty, Files.exists_save_of_toBool (by decide +kernel)⟩
    have htext : (Shell.keptBy { config } {} .nothing (Text.lines input.data.toList)).text? =
        some (Snapshot.render (Trie.empty.addDocument 2 ["tea"])) := by decide +kernel
    have hscript : Run config o.session o.files
        (Shell.keptBy { config } {} .nothing (Text.lines input.data.toList)) :=
      (Run.begin habsent hwritable).script .plain input
    generalize Shell.keptBy { config } {} .nothing (Text.lines input.data.toList) = kept
      at hscript htext
    have hcleared : Run config cleared.2.1 cleared.2.2 kept := hscript.line "clear"
    cases kept with
    | nothing | torn => cases htext
    | whole t =>
      obtain ⟨hload, hstart, hopened⟩ := hcleared.answers.2.1 t rfl
      exact ⟨habsent, hwritable, t, Option.some.inj htext, hcleared, hload "load" rfl, hstart rfl,
        hopened⟩
  · intro config
    let files : Files := { limits := { room? := fun _ => some 40 } }
    have hwritable : IsWritable files config.snapshotPath :=
      ⟨.empty, Files.exists_save_of_toBool (by decide +kernel)⟩
    have hbegin : Run config { config } files .nothing := .begin (by decide +kernel) hwritable
    obtain ⟨s, files', kept, hrun, htorn⟩ :
        ∃ s files' kept, Run config s files' kept ∧ kept.isTorn = true :=
      ⟨_, _, _, ((hbegin.line "save").line "index 2 tea").save, by decide +kernel⟩
    cases kept with
    | nothing | whole => cases htorn
    | torn t => exact ⟨s, files', t, hrun, (hrun.answers.2.2 t rfl).2.2.1 rfl⟩

/-- **Where the last save does not decide.** Another program writes another file, with a directory
for it, and through that directory the path leads to a snapshot that no save has written. A save that
breaks off leaves a file although nothing has been saved; and if something has been, that is no longer
loaded. -/
theorem load_unlike_last_save :
    (let config : Config := { snapshotPath := "data/../index.json" }
      let files := (({} : Files).save "index.json" (Snapshot.render .empty).toUTF8).1
      let files' := (files.save "data/notes.txt" .empty).1
      files.exists? config.snapshotPath = false ∧
        (files.save config.snapshotPath .empty).2.toBool = true ∧
        (({ config } : Session).handleLine files "load").1 = some .loadFailed ∧
        (({ config } : Session).handleLine files' "load").1 = some .loaded) ∧
    (let config : Config := { snapshotPath := "index.json" }
      let files : Files := { limits := { room? := fun _ => some 40 } }
      let lines := ["index 2 tea", "save"]
      let o := ({ config } : Session).handleAll files lines
      o.1.map Prod.snd = [some (.indexed 2), some (.ofError (.file .storageFull))] ∧
        o.2.2.exists? config.snapshotPath = true) ∧
    (let config : Config := { snapshotPath := "index.json" }
      let files : Files := { limits := { room? := fun _ => some 40 } }
      let lines := ["save", "index 2 tea", "save", "load"]
      let o := ({ config } : Session).handleAll files lines
      o.1.map Prod.snd = [some .saved, some (.indexed 2),
        some (.ofError (.file .storageFull)), some .loadFailed]) := by
  refine ⟨⟨?_, ?_, ?_, ?_⟩, ⟨?_, ?_⟩, ?_⟩ <;> decide +kernel

end Session

end Concordance
