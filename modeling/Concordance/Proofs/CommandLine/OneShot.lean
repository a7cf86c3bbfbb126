import Concordance.Proofs.CommandLine.Calls
import Concordance.Proofs.Session.Saving

/-!
# Runs for one command

A run for one command opens the snapshot, carries out the command and saves the index if that has
changed it; `Answers` says at which of these points it may end, and with what. The save is the only
step that writes a file, and all that can refuse the command comes before it. So a run that fails
leaves every file as it was, also a snapshot that it could not read, if there is room to write what
has been opened; and a run that changes the index succeeds only if the snapshot holds the new one
afterwards (`run_keeps_files`).
-/

namespace Concordance

namespace Session

/-- A session that has been opened has the configuration, and an index that is in order. -/
theorem ofSnapshot_eq_ok {config : Config} {files : Files} {s : Session}
    (h : ofSnapshot config files = .ok s) : s.config = config ∧ s.index.WellFormed := by
  rw [ofSnapshot] at h
  cases hexists : files.exists? config.snapshotPath with
  | true =>
    rw [hexists, if_pos rfl] at h
    cases hload : loadSnapshot files config.snapshotPath with
    | ok t =>
      rw [hload] at h
      cases h
      exact ⟨rfl, wellFormed_of_loadSnapshot hload⟩
    | error e =>
      rw [hload] at h
      cases h
  | false =>
    rw [hexists] at h
    cases h
    exact ⟨rfl, .empty⟩

/-- Where something stands that is no snapshot no session is opened. -/
theorem exists_ofSnapshot_eq_error {config : Config} {files : Files} {entry : Entry}
    (hfind : files.find config.snapshotPath = .ok entry)
    (hload : ∀ t, loadSnapshot files config.snapshotPath ≠ .ok t) :
    ∃ e, ofSnapshot config files = .error e := by
  rw [ofSnapshot, Files.exists?_of_find hfind, if_pos rfl]
  cases hresult : loadSnapshot files config.snapshotPath with
  | ok t => exact absurd hresult (hload t)
  | error e => exact ⟨e, rfl⟩

/-- An index that is saved for a session that was opened is loaded again. -/
theorem loadSnapshot_of_opened {config : Config} {files files' : Files} {s : Session} {t : Trie}
    (hopened : ofSnapshot config files = .ok s) (ht : t.WellFormed)
    (hsaved : { s with index := t }.save files = (files', .ok ())) :
    loadSnapshot files' config.snapshotPath = .ok t := by
  obtain ⟨rfl, _⟩ := ofSnapshot_eq_ok hopened
  exact loadSnapshot_of_save ht hsaved

end Session

namespace CommandLine

/-! ## The outcomes of one command -/

/-- The call that a request is, if it is for a command. -/
def Request.call? : Request → Option Call
  | index id texts => some ⟨"index", id :: texts⟩
  | query chunks => some ⟨"query", chunks⟩
  | clear => some ⟨"clear", []⟩
  | stats | shell => none

/-- The outcomes of a run for a single command. -/
inductive Answers (m : Medium) (config : Config) (files : Files) (c : Call) : Outcome → Prop where
  | unreadable {e : SearchError} (opened : Session.ofSnapshot config files = .error e) :
      Answers m config files c { code := 1, files }
  | misused {s : Session} {e : SearchError} (opened : Session.ofSnapshot config files = .ok s)
      (parts : Command.ofParts c.name c.args = .error e) :
      Answers m config files c (respond m (.ofError e) files)
  | queried {s : Session} {chunks : List String} {r : Response}
      (opened : Session.ofSnapshot config files = .ok s)
      (parts : Command.ofParts c.name c.args = .ok (.query chunks))
      (answered : s.execute files (.query chunks) = (r, s, files)) :
      Answers m config files c (respond m r files)
  | indexed {s : Session} {d : DocId} {words : List String} {files' : Files}
      (opened : Session.ofSnapshot config files = .ok s)
      (parts : Command.ofParts c.name c.args = .ok (.index d words))
      (saved : { s with index := s.index.addDocument d words }.save files = (files', .ok ())) :
      Answers m config files c (respond m (.indexed d) files')
  | cleared {s : Session} {files' : Files} (opened : Session.ofSnapshot config files = .ok s)
      (parts : Command.ofParts c.name c.args = .ok .clear)
      (saved : { s with index := .empty }.save files = (files', .ok ())) :
      Answers m config files c (respond m .cleared files')
  | unsaved {s : Session} {command : Command} {t : Trie} {files' : Files} {e : SearchError}
      (opened : Session.ofSnapshot config files = .ok s)
      (parts : Command.ofParts c.name c.args = .ok command) (mutates : command.mutatesIndex = true)
      (saved : { s with index := t }.save files = (files', .error e)) :
      Answers m config files c { code := 1, files := files' }

variable {m : Medium} {config : Config} {files : Files} {c : Call} {o : Outcome}

theorem answers_runOnce (hc : c.name ∈ ["index", "query", "clear"]) :
    Answers m config files c (runOnce m config files c.name c.args) := by
  rw [runOnce]
  cases hopened : Session.ofSnapshot config files with
  | error e => exact .unreadable hopened
  | ok s =>
    obtain ⟨e, hparts⟩ | ⟨_, d, words, hparts⟩ | ⟨_, chunks, hparts⟩ | ⟨_, hparts⟩ :=
      ofParts_cases hc
    · simp only [hparts]
      exact .misused hopened hparts
    · simp only [hparts, Session.execute]
      cases hsave : { s with index := s.index.addDocument d words }.save files with
      | mk files' outcome =>
        cases outcome with
        | ok _ => exact .indexed hopened hparts hsave
        | error e => exact .unsaved hopened hparts rfl hsave
    · obtain ⟨r, hexecute⟩ := s.execute_query chunks
      simp only [hparts, hexecute]
      exact .queried hopened hparts (hexecute files)
    · simp only [hparts, Session.execute]
      cases hsave : { s with index := .empty }.save files with
      | mk files' outcome =>
        cases outcome with
        | ok _ => exact .cleared hopened hparts hsave
        | error e => exact .unsaved hopened hparts rfl hsave

/-- **What a run for a command does**: it ends in one of these ways. -/
theorem answers_perform {input : ByteArray} {request : Request} (hcall : request.call? = some c) :
    Answers m config files c (perform m config files input request) := by
  cases request with
  | index | query | clear =>
    cases hcall
    exact answers_runOnce (by simp)
  | stats | shell => cases hcall

namespace Answers

/-- Only a command that succeeds changes a file, if there is room to write one. -/
theorem addsDirectories_of_code_ne (h : Answers m config files c o) (hroom : files.HasRoom)
    (hcode : o.code ≠ 0) : files.AddsDirectories o.files := by
  cases h with
  | unreadable | misused | queried => exact .refl files
  | indexed | cleared => exact absurd rfl hcode
  | unsaved _ _ _ saved =>
    obtain ⟨cause, _, hsave⟩ := Session.save_eq_error_iff.mp saved
    exact Files.addsDirectories_of_save hsave (hroom.ne_storageFull hsave)

/-- A query changes no file. -/
theorem addsDirectories_of_query {chunks : List String}
    (h : Answers m config files ⟨"query", chunks⟩ o) : files.AddsDirectories o.files := by
  cases h with
  | unreadable | misused | queried => exact .refl files
  | indexed _ parts _ => cases Command.eq_query_of_ofParts parts
  | cleared _ parts _ => cases Command.eq_query_of_ofParts parts
  | unsaved _ parts mutates _ =>
    rw [Command.eq_query_of_ofParts parts] at mutates
    cases mutates

/-- Where a document was indexed the snapshot is that of the new index. -/
theorem loadSnapshot_of_index {id : String} {texts : List String}
    (h : Answers m config files ⟨"index", id :: texts⟩ o) (hcode : o.code = 0) :
    ∃ s d, Session.ofSnapshot config files = .ok s ∧ DocId.parse? id = some d ∧
      Session.loadSnapshot o.files config.snapshotPath =
        .ok (s.index.addDocument d (Text.wordsOfAll texts)) := by
  have hindex {command : Command} (hparts : Command.ofParts "index" (id :: texts) = .ok command) :
      ∃ d, DocId.parse? id = some d ∧ command = .index d (Text.wordsOfAll texts) := by
    cases texts with
    | nil => cases hparts
    | cons text texts =>
      cases hid : DocId.parse? id with
      | none => simp [Command.ofParts, Command.indexOfArgs, hid] at hparts
      | some d => simpa [Command.ofParts, Command.indexOfArgs, hid, eq_comm] using hparts
  cases h with
  | unreadable | unsaved => exact absurd hcode (by decide : (1 : UInt8) ≠ 0)
  | misused => cases Opens.code_respond_eq_zero_iff.mp hcode
  | queried _ parts _ =>
    obtain ⟨d, _, hcommand⟩ := hindex parts
    cases hcommand
  | cleared _ parts _ =>
    obtain ⟨d, _, hcommand⟩ := hindex parts
    cases hcommand
  | @indexed s d words _ opened parts saved =>
    obtain ⟨_, hid, hcommand⟩ := hindex parts
    cases hcommand
    have ht := (Session.ofSnapshot_eq_ok opened).2.addDocument d (Text.wordsOfAll texts)
    exact ⟨s, d, opened, hid, Session.loadSnapshot_of_opened opened ht saved⟩

/-- Where the index was cleared the snapshot is that of an empty one. -/
theorem loadSnapshot_of_clear {args : List String} (h : Answers m config files ⟨"clear", args⟩ o)
    (hcode : o.code = 0) : Session.loadSnapshot o.files config.snapshotPath = .ok .empty := by
  have hclear {command : Command} (hparts : Command.ofParts "clear" args = .ok command) :
      command = .clear := by
    cases hparts
    rfl
  cases h with
  | unreadable | unsaved => exact absurd hcode (by decide : (1 : UInt8) ≠ 0)
  | misused => cases Opens.code_respond_eq_zero_iff.mp hcode
  | queried _ parts _ => cases hclear parts
  | indexed _ parts _ => cases hclear parts
  | cleared opened _ saved => exact Session.loadSnapshot_of_opened opened .empty saved

end Answers

/-! ## The four subcommands -/

variable {input : ByteArray} {request : Request}

/-- Without a snapshot that can be read, no subcommand does anything. -/
theorem perform_of_unreadable {e : SearchError} (hrequest : request ≠ .shell)
    (h : Session.ofSnapshot config files = .error e) :
    perform m config files input request = { code := 1, files } := by
  cases request with
  | index | query | clear => rw [perform, runOnce, h]
  | stats => rw [perform, runStats, h]
  | shell => exact absurd rfl hrequest

theorem files_runStats (config : Config) (files : Files) :
    (runStats config files).files = files := by
  rw [runStats]
  cases Session.ofSnapshot config files <;> rfl

/-- A run that fails changes no file, nor does one that only reads. -/
theorem addsDirectories_perform (hrequest : request ≠ .shell)
    (h : files.HasRoom ∧ (perform m config files input request).code ≠ 0 ∨
      (∃ chunks, request = .query chunks) ∨ request = .stats) :
    files.AddsDirectories (perform m config files input request).files := by
  cases request with
  | index id texts =>
    rcases h with ⟨hroom, hcode⟩ | ⟨_, hquery⟩ | hstats
    · exact (answers_perform rfl).addsDirectories_of_code_ne hroom hcode
    · cases hquery
    · cases hstats
  | query chunks => exact (answers_perform rfl).addsDirectories_of_query
  | clear =>
    rcases h with ⟨hroom, hcode⟩ | ⟨_, hquery⟩ | hstats
    · exact (answers_perform rfl).addsDirectories_of_code_ne hroom hcode
    · cases hquery
    · cases hstats
  | stats =>
    rw [perform, files_runStats]
    exact .refl files
  | shell => exact absurd rfl hrequest

/-- The directory of the configuration is made for it. Nothing else is changed before a command. -/
theorem addsDirectories_prepare (files : Files) (dataDirectory : Option String) (o : Options) :
    files.AddsDirectories (prepare files dataDirectory o).1 := by
  cases dataDirectory with
  | none => exact .refl files
  | some directory =>
    have hadds := files.addsDirectories_makeDirectories
      ((directory ++ "/" ++ Config.folder) ::
        (Path.directories (directory ++ "/" ++ Config.folder)).reverse)
    have hfiles : (prepare files (some directory) o).1 =
        (files.ensureDirectory (directory ++ "/" ++ Config.folder)).1 := by
      rw [prepare, configure]
      cases files.ensureDirectory (directory ++ "/" ++ Config.folder) with
      | mk found outcome =>
        cases outcome with
        | error cause => rfl
        | ok _ =>
          simp only
          cases Config.load found (directory ++ "/" ++ Config.fileName) <;> rfl
    rw [hfiles]
    exact hadds

/-- **No run for one command spoils a file.** A run that fails, although there is room to write what
has been opened, and a query and the statistics in any case, leave the contents of all files as they
were. What stands in the place of the snapshot and cannot be
loaded makes every subcommand fail without output, and stays. A run that indexes or clears succeeds
only if the index that it has come to is loaded from the snapshot afterwards. -/
theorem run_keeps_files {args : List String} {invocation : Invocation}
    (hargs : ofArguments args = some invocation) (hrequest : invocation.request ≠ .shell)
    (dataDirectory : Option String) (env : Environment) (files : Files) (input : ByteArray) :
    let found := (prepare files dataDirectory invocation.options).1
    let config := (prepare files dataDirectory invocation.options).2
    let o := run dataDirectory env files input args
    ((files.HasRoom ∧ o.code ≠ 0 ∨ (∃ chunks, invocation.request = .query chunks) ∨
      invocation.request = .stats) → files.SameFiles o.files) ∧
    (∀ g, g = files ∨ g = found → ∀ entry, g.find config.snapshotPath = .ok entry →
      (∀ t, Session.loadSnapshot g config.snapshotPath ≠ .ok t) →
      o.code = 1 ∧ o.output = "" ∧ o.files.find config.snapshotPath = .ok entry) ∧
    (∀ id texts, invocation.request = .index id texts → o.code = 0 →
      ∃ s d, Session.ofSnapshot config found = .ok s ∧ DocId.parse? id = some d ∧
        Session.loadSnapshot o.files config.snapshotPath =
          .ok (s.index.addDocument d (Text.wordsOfAll texts))) ∧
    (invocation.request = .clear → o.code = 0 →
      Session.loadSnapshot o.files config.snapshotPath = .ok .empty) := by
  intro found config o
  have hadds : files.AddsDirectories found := addsDirectories_prepare files dataDirectory _
  have ho : o = perform (medium env invocation.options) config found input invocation.request := by
    show run dataDirectory env files input args = _
    rw [run, hargs]
  rw [ho]
  refine ⟨fun h => ?_, ?_, ?_, ?_⟩
  · have hroom : files.HasRoom → found.HasRoom := fun hroom loc => by rw [hadds.limits, hroom loc]
    exact (hadds.trans (addsDirectories_perform hrequest
      (h.imp_left (And.imp_left hroom)))).sameFiles
  · intro g hg entry hfind hload
    -- What stands in the place of the snapshot still stands there when the command begins.
    have hfound : found.find config.snapshotPath = .ok entry := by
      rcases hg with rfl | rfl
      · exact hadds.find hfind
      · exact hfind
    rw [← Session.loadSnapshot_of_find_eq (hfound.trans hfind.symm)] at hload
    obtain ⟨e, hopened⟩ := Session.exists_ofSnapshot_eq_error hfound hload
    rw [perform_of_unreadable hrequest hopened]
    exact ⟨rfl, rfl, hfound⟩
  · intro id texts hindex hcode
    rw [hindex] at hcode ⊢
    exact (answers_perform rfl).loadSnapshot_of_index hcode
  · intro hclear hcode
    rw [hclear] at hcode ⊢
    exact (answers_perform rfl).loadSnapshot_of_clear hcode

/-- Indexing over a file that is no snapshot. -/
theorem run_keeps_files_damaged :
    let files := (({} : Files).save "data/notes.json" "not json".toUTF8).1
    let args := ["--snapshot=data/notes.json", "index", "1", "soup"]
    let o := run none {} files .empty args
    ofArguments args = some ⟨{ snapshot := some "data/notes.json" }, .index "1" ["soup"]⟩ ∧
      o.code = 1 ∧ o.output = "" ∧ files.SameFiles o.files ∧
      o.files.find "data/notes.json" = .ok (.file "not json".toUTF8) := by
  intro files args o
  have hargs : ofArguments args =
      some ⟨{ snapshot := some "data/notes.json" }, .index "1" ["soup"]⟩ := by decide +kernel
  have hrequest : Request.index "1" ["soup"] ≠ .shell := by decide
  obtain ⟨files', hsave⟩ : ∃ files', ({} : Files).save "data/notes.json" "not json".toUTF8 =
      (files', .ok ()) := Files.exists_save_of_toBool (by decide +kernel)
  have hfind : files.find "data/notes.json" = .ok (.file "not json".toUTF8) := by
    show (({} : Files).save "data/notes.json" "not json".toUTF8).1.find _ = _
    rw [hsave]
    exact Files.find_save hsave
  have hload (t : Trie) : Session.loadSnapshot files "data/notes.json" ≠ .ok t := by
    intro hok
    have hbad : (Session.loadSnapshot files "data/notes.json").toBool = false := by decide +kernel
    rw [hok] at hbad
    cases hbad
  obtain ⟨hsame, hrefuses, _⟩ := run_keeps_files hargs hrequest none {} files .empty
  obtain ⟨hcode, houtput, hleft⟩ := hrefuses files (.inl rfl) _ hfind hload
  have hroom : files.HasRoom := by
    intro loc
    rw [Files.limits_save]
  exact ⟨hargs, hcode, houtput, hsame (.inl ⟨hroom, by rw [hcode]; decide⟩), hleft⟩

end CommandLine

end Concordance
