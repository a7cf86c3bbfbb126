import Concordance.CommandLine
import Concordance.Proofs.Session.Saving

/-!
# Calls with a process each

A call of a single command reads the snapshot, and writes it again if the index has changed.
`Opens config files t` says that such a call finds the index `t`: in a snapshot that is accepted,
or, for the empty index, because there is no snapshot yet.

One call is answered as a session with the index `t` would answer it, and the next call finds the
index that this session goes on with, unless the call fails to save it (`Opens.step`). So a list of
calls, none of which fails to save, does what one session does that is opened before the first of
them (`Opens.runEach_eq`). All of them have one configuration, and a call that fails to save is not
answered as in a session (`run_ne_answer`).
-/

namespace Concordance

/-- A command as it is called. -/
structure Call where
  name : String
  args : List String
  deriving DecidableEq, Repr, Inhabited

namespace Session

/-- The response to a call. A call that is no command has the response of its error. -/
def answer (s : Session) (files : Files) (c : Call) : Response × Session × Files :=
  match Command.ofParts c.name c.args with
  | .ok command => s.execute files command
  | .error e => (.ofError e, s, files)

/-- The responses to some calls, and what the session ends with. -/
def answerAll (s : Session) (files : Files) : List Call → List Response × Session × Files
  | [] => ([], s, files)
  | c :: calls =>
    match s.answer files c with
    | (r, s', files') =>
      match s'.answerAll files' calls with
      | (rs, s'', files'') => (r :: rs, s'', files'')

end Session

namespace Command

theorem eq_query_of_ofParts {args : List String} {command : Command}
    (h : ofParts "query" args = .ok command) : command = .query args := by
  cases args with
  | nil => cases h
  | cons chunk chunks =>
    cases h
    rfl

end Command

namespace CommandLine

/-- The runs of some calls, each of which finds the files as the one before it left them. -/
def runEach (m : Medium) (config : Config) : Files → List Call → List Outcome
  | _, [] => []
  | files, c :: calls =>
    let o := runOnce m config files c.name c.args
    o :: runEach m config o.files calls

/-- The files that some calls leave. -/
def filesAfter (m : Medium) (config : Config) (files : Files) (calls : List Call) : Files :=
  calls.foldl (fun f c => (runOnce m config f c.name c.args).files) files

/-- The files with which a call finds an index. -/
inductive Opens (config : Config) (files : Files) : Trie → Prop where
  | stored {text : String} {t : Trie} (read : files.readText config.snapshotPath = .ok text)
      (accepted : Snapshot.ofText text = .ok t) : Opens config files t
  | missing (absent : files.exists? config.snapshotPath = false) : Opens config files .empty

namespace Opens

variable {config : Config} {files files' : Files} {t t' : Trie}

theorem wellFormed (h : Opens config files t) : t.WellFormed := by
  cases h with
  | stored _ accepted => exact Snapshot.wellFormed_ofText accepted
  | missing _ => exact .empty

theorem loadSnapshot (h : Opens config files t)
    (hexists : files.exists? config.snapshotPath = true) :
    Session.loadSnapshot files config.snapshotPath = .ok t := by
  cases h with
  | stored read accepted =>
    rw [Session.loadSnapshot, read]
    exact accepted
  | missing absent =>
    rw [absent] at hexists
    cases hexists

theorem ofSnapshot (h : Opens config files t) :
    Session.ofSnapshot config files = .ok { config, index := t } := by
  rw [Session.ofSnapshot]
  cases hexists : files.exists? config.snapshotPath with
  | true => rw [if_pos rfl, h.loadSnapshot hexists]
  | false =>
    cases h with
    | stored read _ =>
      obtain ⟨bytes, hfind⟩ := Files.find_of_readText read
      rw [Files.exists?_of_find hfind] at hexists
      cases hexists
    | missing _ => rfl

/-- The next call finds an index that has been saved. -/
theorem of_save (ht' : t'.WellFormed)
    (hsave : ({ config, index := t' } : Session).save files = (files', .ok ())) :
    Opens config files' t' ∧ files'.exists? config.snapshotPath = true := by
  have hfind := Files.find_save (Session.save_eq_ok_iff.mp hsave)
  exact ⟨.stored (Files.readText_of_find hfind) (Snapshot.ofText_render ht'),
    Files.exists?_of_find hfind⟩

end Opens

/-- The calls that are a run of their own, and the commands that they are. -/
theorem ofParts_cases {c : Call} (hc : c.name ∈ ["index", "query", "clear"]) :
    (∃ e, Command.ofParts c.name c.args = .error e) ∨
      (c.name = "index" ∧ ∃ d words, Command.ofParts c.name c.args = .ok (.index d words)) ∨
      (c.name = "query" ∧ ∃ chunks, Command.ofParts c.name c.args = .ok (.query chunks)) ∨
      (c.name = "clear" ∧ Command.ofParts c.name c.args = .ok .clear) := by
  obtain ⟨name, args⟩ := c
  simp only [List.mem_cons, List.not_mem_nil, or_false] at hc
  obtain rfl | rfl | rfl := hc
  · match args with
    | [] => exact .inl ⟨_, rfl⟩
    | [_] => exact .inl ⟨_, rfl⟩
    | raw :: text :: texts =>
      cases hraw : DocId.parse? raw with
      | none => exact .inl ⟨.invalidDocId raw, by simp [Command.ofParts, Command.indexOfArgs, hraw]⟩
      | some d =>
        refine .inr (.inl ⟨rfl, d, Text.wordsOfAll (text :: texts), ?_⟩)
        simp [Command.ofParts, Command.indexOfArgs, hraw]
  · cases args with
    | nil => exact .inl ⟨_, rfl⟩
    | cons chunk chunks => exact .inr (.inr (.inl ⟨rfl, _, rfl⟩))
  · exact .inr (.inr (.inr ⟨rfl, rfl⟩))

/-- What a call comes to that a session would give the response `r` and then go on with the index
`t`: it writes the response and leaves the index to the next call, or it fails to save the index, and
ends without a response. -/
inductive Serves (m : Medium) (config : Config) (files : Files) (c : Call) (r : Response) (t : Trie) :
    Outcome → Prop where
  | answered {files' : Files} (opens : Opens config files' t)
      (exists_iff : files'.exists? config.snapshotPath = true ↔
        files.exists? config.snapshotPath = true ∨
          (c.name ∈ ["index", "clear"] ∧ r.isFailure = false))
      (accepts : files.Accepts config.snapshotPath → files'.Accepts config.snapshotPath) :
      Serves m config files c r t (respond m r files')
  | unsaved {files' : Files} (refused : ¬files.Accepts config.snapshotPath) :
      Serves m config files c r t { code := 1, files := files' }

theorem write_ne_empty (m : Medium) (r : Response) : r.write m ≠ "" := by
  intro hempty
  have hlist := congrArg String.toList hempty
  rw [Response.write] at hlist
  split at hlist <;> simp at hlist

namespace Opens

variable {config : Config} {files : Files} {t : Trie} {c : Call}

/-- A call that changes the index saves it, or fails to. -/
theorem serves_of_change (h : Opens config files t) (m : Medium) {command : Command}
    (hparts : Command.ofParts c.name c.args = .ok command) (hmutates : command.mutatesIndex = true)
    {r : Response} (hr : r.isFailure = false) (hname : c.name ∈ ["index", "clear"]) {t' : Trie}
    (ht' : t'.WellFormed) (hexecute : ({ config, index := t } : Session).execute files command =
      (r, { config, index := t' }, files)) :
    Serves m config files c r t' (runOnce m config files c.name c.args) := by
  rw [runOnce, h.ofSnapshot]
  simp only [hparts, hexecute, hmutates, hr, Bool.not_false, Bool.and_self, if_true]
  cases hsave : ({ config, index := t' } : Session).save files with
  | mk files' outcome =>
    cases outcome with
    | ok _ =>
      obtain ⟨hopens, hexists⟩ := of_save ht' hsave
      have hsaved := Session.save_eq_ok_iff.mp hsave
      exact .answered hopens (by simp [hexists, hname, hr]) fun haccepts =>
        haccepts.after_save hsaved
    | error e =>
      refine .unsaved fun haccepts => ?_
      obtain ⟨cause, _, hfail⟩ := Session.save_eq_error_iff.mp hsave
      obtain ⟨files'', hsaved⟩ := haccepts (Snapshot.render t').toUTF8
      rw [hsaved] at hfail
      cases hfail

/-- **One call.** It has the response of a session with the index that it finds, and the next call
finds the index that the session goes on with; there is a snapshot then if there was one before or
the call has changed the index. Or else the call fails to save the index. -/
theorem step (h : Opens config files t) (m : Medium) (files₀ : Files)
    (hc : c.name ∈ ["index", "query", "clear"]) :
    ∃ r t', ({ config, index := t } : Session).answer files₀ c =
        (r, { config, index := t' }, files₀) ∧
      Serves m config files c r t' (runOnce m config files c.name c.args) := by
  obtain ⟨e, hparts⟩ | ⟨hname, d, words, hparts⟩ | ⟨hname, chunks, hparts⟩ | ⟨hname, hparts⟩ :=
    ofParts_cases hc
  · refine ⟨.ofError e, t, ?_, ?_⟩
    · rw [Session.answer, hparts]
    · rw [runOnce, h.ofSnapshot, hparts]
      exact .answered h (by simp [Response.ofError, Response.isFailure]) id
  · refine ⟨.indexed d, t.addDocument d words, ?_, ?_⟩
    · rw [Session.answer, hparts]
      rfl
    · exact h.serves_of_change m hparts rfl rfl (by simp [hname])
        (h.wellFormed.addDocument d words) rfl
  · obtain ⟨r, hexecute⟩ := Session.execute_query { config, index := t } chunks
    refine ⟨r, t, ?_, ?_⟩
    · rw [Session.answer, hparts]
      exact hexecute files₀
    · rw [runOnce, h.ofSnapshot]
      simp only [hparts, hexecute]
      exact .answered h (by simp [hname]) id
  · refine ⟨.cleared, .empty, ?_, ?_⟩
    · rw [Session.answer, hparts]
      rfl
    · exact h.serves_of_change m hparts rfl rfl (by simp [hname]) .empty rfl

/-- The code of a run that ends with a response. -/
theorem code_respond_eq_zero_iff {m : Medium} {r : Response} {f : Files} :
    (respond m r f).code = 0 ↔ r.isFailure = false := by
  cases hr : r.isFailure <;> simp [respond, hr]

/-- Where everything can be saved, no call fails to save. -/
theorem output_ne_empty (h : Opens config files t) (m : Medium) {calls : List Call}
    (hcalls : ∀ c ∈ calls, c.name ∈ ["index", "query", "clear"])
    (haccepts : files.Accepts config.snapshotPath) :
    ∀ o ∈ runEach m config files calls, o.output ≠ "" := by
  induction calls generalizing files t with
  | nil => exact List.forall_mem_nil _
  | cons c calls ih =>
    obtain ⟨r, t', _, hserves⟩ := h.step m files (hcalls c List.mem_cons_self)
    rw [runEach]
    generalize runOnce m config files c.name c.args = o at hserves
    cases hserves with
    | unsaved refused => exact absurd haccepts refused
    | answered opens _ accepts =>
      exact List.forall_mem_cons.mpr ⟨write_ne_empty m r,
        ih opens (fun c' hc' => hcalls c' (List.mem_cons_of_mem c hc')) (accepts haccepts)⟩

/-- Some calls that do not fail to save, in a session with the index that the first of them finds. -/
theorem run (h : Opens config files t) (m : Medium) (files₀ : Files) {calls : List Call}
    (hcalls : ∀ c ∈ calls, c.name ∈ ["index", "query", "clear"])
    (houtputs : ∀ o ∈ runEach m config files calls, o.output ≠ "") :
    ∃ rs t', ({ config, index := t } : Session).answerAll files₀ calls =
        (rs, { config, index := t' }, files₀) ∧
      (runEach m config files calls).map (fun o => (o.output, o.code)) =
        rs.map (fun r => (r.write m, if r.isFailure then 1 else 0)) ∧
      Opens config (filesAfter m config files calls) t' ∧
      ((filesAfter m config files calls).exists? config.snapshotPath = true ↔
        files.exists? config.snapshotPath = true ∨
          ∃ p ∈ calls.zip (runEach m config files calls),
            p.1.name ∈ ["index", "clear"] ∧ p.2.code = 0) := by
  induction calls generalizing files t with
  | nil => exact ⟨[], t, rfl, rfl, h, by simp [filesAfter, runEach]⟩
  | cons c calls ih =>
    obtain ⟨r, t₁, hanswer, hserves⟩ := h.step m files₀ (hcalls c List.mem_cons_self)
    rw [runEach] at houtputs ⊢
    rw [filesAfter, List.foldl_cons]
    generalize runOnce m config files c.name c.args = o at hserves houtputs ⊢
    obtain ⟨houtput, hlater⟩ := List.forall_mem_cons.mp houtputs
    cases hserves with
    | unsaved _ => exact absurd rfl houtput
    | @answered files₁ opens exists_iff _ =>
      obtain ⟨rs, t', hanswers, houtcomes, hafter, hexists⟩ :=
        ih opens (fun c' hc' => hcalls c' (List.mem_cons_of_mem c hc')) hlater
      refine ⟨r :: rs, t', ?_, ?_, hafter, ?_⟩
      · rw [Session.answerAll, hanswer]
        simp only [hanswers]
      · rw [List.map_cons, List.map_cons, ← houtcomes]
        rfl
      · refine hexists.trans ?_
        rw [exists_iff, List.zip_cons_cons, or_assoc]
        simp only [List.mem_cons, or_and_right, exists_or, exists_eq_left,
          code_respond_eq_zero_iff]
        rfl

/-- **Calls and one session.** The calls have one configuration, and each has a process of its own.
If none of them fails to save, they write the responses of a session that is opened before the first
of them, and their codes say which of these are failures. After them there is a snapshot if there was
one at the start or a call has changed the index, and it holds the index of the session. If everything
can be saved at the start, no call fails to save. -/
theorem runEach_eq (h : Opens config files t) (m : Medium) :
    ∃ s, Session.ofSnapshot config files = .ok s ∧
      ∀ calls : List Call, (∀ c ∈ calls, c.name ∈ ["index", "query", "clear"]) →
        (files.Accepts config.snapshotPath → ∀ o ∈ runEach m config files calls, o.output ≠ "") ∧
        ((∀ o ∈ runEach m config files calls, o.output ≠ "") →
          (runEach m config files calls).map (fun o => (o.output, o.code)) =
            (s.answerAll files calls).1.map (fun r => (r.write m, if r.isFailure then 1 else 0)) ∧
          ((filesAfter m config files calls).exists? config.snapshotPath = true ↔
            files.exists? config.snapshotPath = true ∨
              ∃ p ∈ calls.zip (runEach m config files calls),
                p.1.name ∈ ["index", "clear"] ∧ p.2.code = 0) ∧
          ((filesAfter m config files calls).exists? config.snapshotPath = true →
            Session.loadSnapshot (filesAfter m config files calls) config.snapshotPath =
              .ok (s.answerAll files calls).2.1.index)) := by
  refine ⟨{ config, index := t }, h.ofSnapshot, fun calls hcalls =>
    ⟨h.output_ne_empty m hcalls, fun houtputs => ?_⟩⟩
  obtain ⟨rs, t', hanswers, houtcomes, hafter, hexists⟩ := h.run m files hcalls houtputs
  rw [hanswers]
  exact ⟨houtcomes, hexists, hafter.loadSnapshot⟩

/-- Calls that start without a snapshot: one that fails, one that writes it, one that is refused,
and one that reads it. -/
theorem runEach_eq_fresh :
    let config : Config := { snapshotPath := "data/index.json" }
    let files : Files := {}
    let calls : List Call := [⟨"query", ["soup"]⟩, ⟨"index", ["7", "soup tomato"]⟩,
      ⟨"index", ["-1", "cake"]⟩, ⟨"query", ["to", "|", "soup"]⟩]
    Opens config files .empty ∧ files.Accepts config.snapshotPath ∧
      (∀ c ∈ calls, c.name ∈ ["index", "query", "clear"]) ∧
      ∃ s, Session.ofSnapshot config files = .ok s ∧
        (∀ o ∈ runEach .plain config files calls, o.output ≠ "") ∧
        (runEach .plain config files calls).map (fun o => (o.output, o.code)) =
          (s.answerAll files calls).1.map
            (fun r => (r.write .plain, if r.isFailure then 1 else 0)) ∧
        Session.loadSnapshot (filesAfter .plain config files calls) config.snapshotPath =
          .ok (s.answerAll files calls).2.1.index := by
  intro config files calls
  obtain ⟨files', hsave⟩ : ∃ files', files.save config.snapshotPath .empty = (files', .ok ()) :=
    Files.exists_save_of_toBool (by decide +kernel)
  have hroom : files.HasRoom := fun _ => rfl
  have haccepts : files.Accepts config.snapshotPath := hroom.exists_save_of_save hsave
  have hopens : Opens config files .empty := .missing (by decide +kernel)
  have hcalls : ∀ c ∈ calls, c.name ∈ ["index", "query", "clear"] := by decide
  obtain ⟨s, hs, hall⟩ := hopens.runEach_eq .plain
  obtain ⟨hwrites, hagree⟩ := hall calls hcalls
  have houtputs := hwrites haccepts
  obtain ⟨houtcomes, hexists, hload⟩ := hagree houtputs
  have hthere : (filesAfter .plain config files calls).exists? config.snapshotPath = true :=
    hexists.mpr (.inr ⟨_, List.mem_of_getElem? (i := 1) rfl, by decide, by decide +kernel⟩)
  exact ⟨hopens, haccepts, hcalls, s, hs, houtputs, houtcomes, hload hthere⟩

end Opens

/-- **Where a call is no session.** It first makes the directory of the configuration, which may stand
where the snapshot could have been created. And a snapshot that is accepted may be sealed, or there may
be no room for the next one. Then the call ends without the response that a session gives. -/
theorem run_ne_answer :
    let index : Call := ⟨"index", ["1", "soup"]⟩
    (let config : Config := { snapshotPath := "data/triesearch" }
      let o := run (some "data") {} {} .empty ["--snapshot=data/triesearch", "index", "1", "soup"]
      ({} : Files).exists? config.snapshotPath = false ∧
        (({} : Files).save config.snapshotPath .empty).2.toBool = true ∧
        ((Session.ofSnapshot config {}).toOption.map fun s => (s.answer {} index).1) =
          some (.indexed 1) ∧ o.code = 1 ∧ o.output = "") ∧
    ∀ limits ∈ [{ isSealed := fun _ => true }, { room? := fun _ => some 30 }],
      let config : Config := { snapshotPath := "index.json" }
      let stored := (({} : Files).save "index.json" (Snapshot.render .empty).toUTF8).1
      let files : Files := { stored with limits }
      let o := runOnce .plain config files index.name index.args
      ((Session.ofSnapshot config files).toOption.map fun s => (s.answer files index).1) =
        some (.indexed 1) ∧ o.code = 1 ∧ o.output = "" := by
  refine ⟨⟨?_, ?_, ?_, ?_, ?_⟩, ?_⟩
  · decide +kernel
  · decide +kernel
  · decide +kernel
  · decide +kernel
  · decide +kernel
  · simp only [List.forall_mem_cons]
    refine ⟨⟨?_, ?_, ?_⟩, ⟨?_, ?_, ?_⟩, List.forall_mem_nil _⟩ <;> decide +kernel

end CommandLine

end Concordance
