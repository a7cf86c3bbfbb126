import Concordance.Shell
import Concordance.Proofs.Session.Lines
import Concordance.Proofs.Text.Lines

/-!
# What a conversation comes to

A conversation with the shell handles the lines of its input one after the other. It ends with the
line that is answered with a good-bye, at a line that is no text, or with the input: `Takes` says
which lines are taken, and how it ends after them. What it comes to depends on these lines alone
(`Concludes`, `Concludes.unique`): they are handled as `Session.handleAll` handles them, a prompt
and the response are written for each, and the index is saved at the end, if that is configured and
the end was no fault. Every input has such an end (`exists_takes`), and the conversation comes to
what it says (`run_concludes`).
-/

namespace Concordance

/-- Without colours the text of a response is written as it is. -/
theorem Response.write_plain (r : Response) : r.write .plain = r.text ++ "\n" := by
  rw [write, text]
  cases r.status <;> simp [Medium.look, Medium.reset]

namespace Shell

open Text (CutsInto encodeLine)

/-- How a conversation ends. -/
inductive Ending where
  /-- With the input. -/
  | input
  /-- With a good-bye. -/
  | bye
  /-- At a line that is no text. -/
  | fault
  deriving DecidableEq, Repr, Inhabited

/-- The responses of a session to some lines. -/
def responses (s : Session) (files : Files) (texts : List String) : List (Option Response) :=
  (s.handleAll files texts).1.map Prod.snd

/-- The lines of an input that are taken from it, and how the conversation ends after them. -/
inductive Takes (s : Session) (files : Files) (ls : List (List UInt8)) (texts : List String) :
    Ending → Prop where
  | input (lines : ls = texts.map encodeLine) (goesOn : some .bye ∉ responses s files texts) :
      Takes s files ls texts .input
  | bye {rest : List (List UInt8)} (lines : ls = texts.map encodeLine ++ rest)
      (goesOn : some .bye ∉ (responses s files texts).dropLast)
      (last : (responses s files texts).getLast? = some (some .bye)) : Takes s files ls texts .bye
  | fault {bad : List UInt8} {rest : List (List UInt8)}
      (lines : ls = texts.map encodeLine ++ bad :: rest) (noText : ∀ text, encodeLine text ≠ bad)
      (goesOn : some .bye ∉ responses s files texts) : Takes s files ls texts .fault

/-- What is written after the prompt of a line. -/
def reply : Option Response → String
  | none => ""
  | some r => r.text ++ "\n"

/-- What is written for some lines. -/
def dialogue (transcript : List (String × Option Response)) : String :=
  String.join (transcript.map fun p => prompt ++ reply p.2)

/-- What is written after the last line. -/
def lastWords : Ending → String
  | .input => prompt ++ "\n"
  | .bye => ""
  | .fault => prompt

/-- The error that a conversation ends with, if there is one. -/
def Outcome.result (o : Outcome) : Except SearchError Unit :=
  match o.error with
  | none => .ok ()
  | some e => .error e

theorem Outcome.eq_of_result {o o' : Outcome} (houtput : o.output = o'.output)
    (hsession : o.session = o'.session) (hfiles : o.files = o'.files)
    (hresult : o.result = o'.result) : o = o' := by
  obtain ⟨output, session, files, error⟩ := o
  obtain ⟨output', session', files', error'⟩ := o'
  cases error <;> cases error' <;> simp_all [Outcome.result]

/-- What a conversation over some lines comes to. -/
structure Concludes (s : Session) (files : Files) (texts : List String) (ending : Ending)
    (o : Outcome) : Prop where
  output : o.output = dialogue (s.handleAll files texts).1 ++ lastWords ending
  /-- Only blank lines have no response. -/
  blank : ∀ p ∈ (s.handleAll files texts).1, p.2 = none ↔ Text.fields p.1 = []
  session : o.session = (s.handleAll files texts).2.1
  saved : ending ≠ .fault → s.config.autosaveOnExit = true →
    o.session.save (s.handleAll files texts).2.2 = (o.files, o.result)
  unsaved : ending ≠ .fault → s.config.autosaveOnExit = false →
    o.files = (s.handleAll files texts).2.2 ∧ o.result = .ok ()
  faulty : ending = .fault →
    o.files = (s.handleAll files texts).2.2 ∧ o.result = .error (.file .notUtf8)

variable {s : Session} {files : Files} {ls : List (List UInt8)} {text : String}
  {texts : List String} {ending : Ending}

theorem responses_cons (s : Session) (files : Files) (text : String) (texts : List String) :
    let step := s.handleLine files text
    responses s files (text :: texts) = step.1 :: responses step.2.1 step.2.2 texts :=
  rfl

theorem bye_notMem_responses_cons :
    some .bye ∉ responses s files (text :: texts) ↔ (s.handleLine files text).1 ≠ some .bye ∧
      some .bye ∉ responses (s.handleLine files text).2.1 (s.handleLine files text).2.2 texts := by
  rw [responses_cons, List.mem_cons, not_or, eq_comm]

theorem dialogue_cons (p : String × Option Response) (rest : List (String × Option Response)) :
    dialogue (p :: rest) = prompt ++ reply p.2 ++ dialogue rest := by
  simp [dialogue]

/-! ## The lines that are taken -/

namespace Takes

/-- A line that is not answered with a good-bye is taken with those that are taken after it. -/
theorem cons (hr : (s.handleLine files text).1 ≠ some .bye)
    (h : Takes (s.handleLine files text).2.1 (s.handleLine files text).2.2 ls texts ending) :
    Takes s files (encodeLine text :: ls) (text :: texts) ending := by
  cases h with
  | input lines goesOn =>
    exact .input (by rw [lines, List.map_cons]) (bye_notMem_responses_cons.mpr ⟨hr, goesOn⟩)
  | bye lines goesOn last =>
    have hne : responses (s.handleLine files text).2.1 (s.handleLine files text).2.2 texts ≠
        [] := by
      intro hnil
      rw [hnil] at last
      cases last
    refine .bye (by rw [lines, List.map_cons]; rfl) ?_ ?_
    · rw [responses_cons, List.dropLast_cons_of_ne_nil hne, List.mem_cons, not_or]
      exact ⟨hr.symm, goesOn⟩
    · rw [responses_cons, List.getLast?_cons, last]
      rfl
  | fault lines noText goesOn =>
    exact .fault (by rw [lines, List.map_cons]; rfl) noText
      (bye_notMem_responses_cons.mpr ⟨hr, goesOn⟩)

/-- Lines are taken one by one. -/
theorem of_cons (h : Takes s files ls (text :: texts) ending) :
    ∃ rest, ls = encodeLine text :: rest ∧
      ((s.handleLine files text).1 = some .bye ∧ texts = [] ∧ ending = .bye ∨
        (s.handleLine files text).1 ≠ some .bye ∧
          Takes (s.handleLine files text).2.1 (s.handleLine files text).2.2 rest texts ending) := by
  cases h with
  | input lines goesOn =>
    obtain ⟨hr, hlater⟩ := bye_notMem_responses_cons.mp goesOn
    exact ⟨_, lines, .inr ⟨hr, .input rfl hlater⟩⟩
  | bye lines goesOn last =>
    refine ⟨_, lines, ?_⟩
    cases texts with
    | nil => exact .inl ⟨Option.some.inj last, rfl, rfl⟩
    | cons text' texts =>
      have hne : responses (s.handleLine files text).2.1 (s.handleLine files text).2.2
          (text' :: texts) ≠ [] := by
        simp [responses_cons]
      rw [responses_cons, List.dropLast_cons_of_ne_nil hne, List.mem_cons, not_or] at goesOn
      rw [responses_cons, responses_cons, List.getLast?_cons_cons] at last
      exact .inr ⟨Ne.symm goesOn.1, .bye rfl goesOn.2 last⟩
  | fault lines noText goesOn =>
    obtain ⟨hr, hlater⟩ := bye_notMem_responses_cons.mp goesOn
    exact ⟨_, lines, .inr ⟨hr, .fault rfl noText hlater⟩⟩

end Takes

/-- **Every conversation ends.** -/
theorem exists_takes (s : Session) (files : Files) (ls : List (List UInt8)) :
    ∃ texts ending, Takes s files ls texts ending := by
  induction ls generalizing s files with
  | nil => exact ⟨[], .input, .input rfl List.not_mem_nil⟩
  | cons bytes rest ih =>
    cases hdecode : Text.decodeLine? bytes with
    | none =>
      exact ⟨[], .fault, .fault rfl (Text.decodeLine?_eq_none_iff.mp hdecode) List.not_mem_nil⟩
    | some text =>
      obtain rfl := Text.decodeLine?_eq_some_iff.mp hdecode
      by_cases hr : (s.handleLine files text).1 = some .bye
      · have hresponses : responses s files [text] = [some .bye] := by
          rw [responses_cons, hr]
          rfl
        exact ⟨[text], .bye, .bye rfl (by simp [hresponses]) (by simp [hresponses])⟩
      · obtain ⟨texts, ending, htakes⟩ := ih (s.handleLine files text).2.1
          (s.handleLine files text).2.2
        exact ⟨text :: texts, ending, htakes.cons hr⟩

/-! ## The conversation -/

/-- The outcome of a conversation that has come to its end. -/
def close (output : String) (s : Session) (files : Files) : Ending → Outcome
  | .fault => ⟨output ++ prompt, s, files, some (.file .notUtf8)⟩
  | ending => leave (output ++ lastWords ending) s files

theorem close_of_ne (h : ending ≠ .fault) (output : String) (s : Session) (files : Files) :
    close output s files ending = leave (output ++ lastWords ending) s files := by
  cases ending with
  | input | bye => rfl
  | fault => exact absurd rfl h

theorem after_leave (before output : String) (s : Session) (files : Files) :
    (leave output s files).after before = leave (before ++ output) s files := by
  cases hsave : s.save files with
  | mk files' outcome =>
    cases outcome <;> cases hautosave : s.config.autosaveOnExit <;>
      simp [leave, hsave, hautosave, Outcome.after]

theorem after_close (before output : String) (s : Session) (files : Files) (ending : Ending) :
    (close output s files ending).after before = close (before ++ output) s files ending := by
  cases ending with
  | input | bye => rw [close, close, after_leave, String.append_assoc] <;> decide
  | fault => simp [close, Outcome.after, String.append_assoc]

theorem turn_of_text (s : Session) (files : Files) (text : String) :
    turn .plain s files (encodeLine text) =
      if (s.handleLine files text).1 = some .bye then
        .last (leave (reply (s.handleLine files text).1) (s.handleLine files text).2.1
          (s.handleLine files text).2.2)
      else
        .next (reply (s.handleLine files text).1) (s.handleLine files text).2.1
          (s.handleLine files text).2.2 := by
  rw [turn, Text.decodeLine?_eq_some_iff.mpr rfl]
  cases hline : s.handleLine files text with
  | mk r? after =>
    cases r? with
    | none => simp only [hline]; rfl
    | some r =>
      simp only [hline, reply, Response.write_plain]
      cases r <;> rfl

/-- **A conversation** over lines that are taken from its input. -/
theorem converse_of_takes (h : Takes s files ls texts ending) :
    converse .plain "" s files ls =
      close (dialogue (s.handleAll files texts).1) (s.handleAll files texts).2.1
        (s.handleAll files texts).2.2 ending := by
  induction texts generalizing s files ls with
  | nil =>
    cases h with
    | input lines goesOn =>
      subst lines
      exact after_leave ("" ++ prompt) "\n" s files
    | bye lines goesOn last => cases last
    | @fault bad rest lines noText goesOn =>
      subst lines
      have hturn : turn .plain s files bad = .last ⟨"", s, files, some (.file .notUtf8)⟩ := by
        rw [turn, Text.decodeLine?_eq_none_iff.mpr noText]
      simp only [List.map_nil, List.nil_append, converse, hturn]
      rfl
  | cons text texts ih =>
    obtain ⟨rest, rfl, ⟨hr, rfl, rfl⟩ | ⟨hr, hlater⟩⟩ := h.of_cons
    · have hending : Ending.bye ≠ .fault := by decide
      have hdialogue : dialogue [(text, (s.handleLine files text).1)] =
          "" ++ prompt ++ reply (s.handleLine files text).1 := by
        simp [dialogue]
      rw [converse, turn_of_text, if_pos hr]
      simp only [after_leave]
      show _ = close (dialogue [(text, (s.handleLine files text).1)]) _ _ .bye
      rw [close_of_ne hending, hdialogue, lastWords, String.append_empty]
      rfl
    · rw [converse, turn_of_text, if_neg hr, Session.handleAll_cons, dialogue_cons]
      simp only
      rw [converse_eq_after, ih hlater, after_close, String.empty_append]

theorem blank_of_mem_handleAll {p : String × Option Response}
    (h : p ∈ (s.handleAll files texts).1) : p.2 = none ↔ Text.fields p.1 = [] := by
  induction texts generalizing s files with
  | nil => cases h
  | cons text texts ih =>
    rw [Session.handleAll_cons] at h
    rcases List.mem_cons.mp h with rfl | hlater
    · cases hfields : Text.fields text with
      | nil => simp [Session.handleLine_of_blank hfields]
      | cons name args =>
        cases hparts : Command.ofParts name args with
        | error e => simp [Session.handleLine_of_refused hfields hparts]
        | ok command => simp [Session.handleLine_of_command hfields hparts]
    · exact ih hlater

/-- How a conversation is left, with the snapshot saved or not. -/
theorem leave_eq (output : String) (s : Session) (files : Files) :
    (leave output s files).output = output ∧ (leave output s files).session = s ∧
      (s.config.autosaveOnExit = true →
        s.save files = ((leave output s files).files, (leave output s files).result)) ∧
      (s.config.autosaveOnExit = false →
        (leave output s files).files = files ∧ (leave output s files).result = .ok ()) := by
  cases hsave : s.save files with
  | mk files' outcome =>
    cases outcome <;> cases hautosave : s.config.autosaveOnExit <;>
      simp [leave, hsave, hautosave, Outcome.result]

theorem concludes_close (s : Session) (files : Files) (texts : List String) (ending : Ending) :
    Concludes s files texts ending (close (dialogue (s.handleAll files texts).1)
      (s.handleAll files texts).2.1 (s.handleAll files texts).2.2 ending) := by
  have hconfig := Session.config_handleAll s files texts
  by_cases hending : ending = .fault
  · subst hending
    exact {
      output := rfl
      blank := fun p => blank_of_mem_handleAll
      session := rfl
      saved := fun hne => absurd rfl hne
      unsaved := fun hne => absurd rfl hne
      faulty := fun _ => ⟨rfl, rfl⟩ }
  · rw [close_of_ne hending]
    obtain ⟨houtput, hsession, hsaved, hunsaved⟩ := leave_eq
      (dialogue (s.handleAll files texts).1 ++ lastWords ending) (s.handleAll files texts).2.1
      (s.handleAll files texts).2.2
    exact {
      output := houtput
      blank := fun p => blank_of_mem_handleAll
      session := hsession
      saved := fun _ hautosave => by
        rw [hsession]
        exact hsaved (hconfig ▸ hautosave)
      unsaved := fun _ hautosave => hunsaved (hconfig ▸ hautosave)
      faulty := fun hfault => absurd hfault hending }

/-- **The lines that are taken decide what a conversation comes to.** -/
theorem Concludes.unique {o o' : Outcome} (h : Concludes s files texts ending o)
    (h' : Concludes s files texts ending o') : o = o' := by
  have hend : o.files = o'.files ∧ o.result = o'.result := by
    by_cases hending : ending = .fault
    · obtain ⟨hfiles, hresult⟩ := h.faulty hending
      obtain ⟨hfiles', hresult'⟩ := h'.faulty hending
      exact ⟨hfiles.trans hfiles'.symm, hresult.trans hresult'.symm⟩
    · cases hautosave : s.config.autosaveOnExit with
      | false =>
        obtain ⟨hfiles, hresult⟩ := h.unsaved hending hautosave
        obtain ⟨hfiles', hresult'⟩ := h'.unsaved hending hautosave
        exact ⟨hfiles.trans hfiles'.symm, hresult.trans hresult'.symm⟩
      | true =>
        have hsaved := h.saved hending hautosave
        rw [h.session, ← h'.session, h'.saved hending hautosave] at hsaved
        exact ⟨(congrArg Prod.fst hsaved).symm, (congrArg Prod.snd hsaved).symm⟩
  exact Outcome.eq_of_result (h.output.trans h'.output.symm) (h.session.trans h'.session.symm)
    hend.1 hend.2

/-- **What is saved at the end** is loaded again. -/
theorem Concludes.loadSnapshot {o : Outcome} (h : Concludes s files texts ending o)
    (hindex : s.index.WellFormed) (hautosave : s.config.autosaveOnExit = true)
    (herror : o.error = none) :
    Session.loadSnapshot o.files s.config.snapshotPath = .ok o.session.index := by
  have hresult : o.result = .ok () := by rw [Outcome.result, herror]
  have hending : ending ≠ .fault := by
    intro hfault
    rw [(h.faulty hfault).2] at hresult
    cases hresult
  have hsaved := h.saved hending hautosave
  rw [hresult] at hsaved
  have hwellFormed : o.session.index.WellFormed := by
    rw [h.session]
    exact Session.wellFormed_handleAll hindex files texts
  have hconfig : o.session.config = s.config := by
    rw [h.session]
    exact Session.config_handleAll s files texts
  rw [← hconfig]
  exact Session.loadSnapshot_of_save hwellFormed hsaved

/-- **A conversation is a fold over its lines.** Every input has lines, and from these some are
taken, up to a good-bye, up to a line that is no text, or all of them. The conversation comes to
what handling these lines comes to, whatever else the input holds. If the index is saved at the end
without an error, it is loaded again from the snapshot. -/
theorem run_concludes (s : Session) (files : Files) (input : ByteArray) :
    (∃ ls, CutsInto input.data.toList ls) ∧
      ∀ ls, CutsInto input.data.toList ls →
        (∃ texts ending, Takes s files ls texts ending) ∧
        ∀ texts ending, Takes s files ls texts ending →
          Concludes s files texts ending (run .plain s files input) ∧
          (∀ (input' : ByteArray) (ls' : List (List UInt8)), CutsInto input'.data.toList ls' →
            Takes s files ls' texts ending →
            run .plain s files input' = run .plain s files input) ∧
          (s.index.Reachable → s.config.autosaveOnExit = true →
            (run .plain s files input).error = none →
            Session.loadSnapshot (run .plain s files input).files s.config.snapshotPath =
              .ok (run .plain s files input).session.index) := by
  have hconcludes {input : ByteArray} {ls : List (List UInt8)}
      (hls : CutsInto input.data.toList ls) {texts : List String} {ending : Ending}
      (htakes : Takes s files ls texts ending) :
      Concludes s files texts ending (run .plain s files input) := by
    rw [run, Text.cutsInto_iff.mp hls, converse_of_takes htakes]
    exact concludes_close s files texts ending
  refine ⟨⟨_, Text.cutsInto_iff.mpr rfl⟩, fun ls hls => ⟨exists_takes s files ls, ?_⟩⟩
  intro texts ending htakes
  refine ⟨hconcludes hls htakes, ?_, ?_⟩
  · intro input' ls' hls' htakes'
    exact (hconcludes hls' htakes').unique (hconcludes hls htakes)
  · intro hindex
    exact (hconcludes hls htakes).loadSnapshot hindex.wellFormed

/-- A good-bye in the middle of an input, after a blank line and with lines that end differently. -/
theorem run_concludes_farewell :
    let s : Session := { config := { snapshotPath := "data/index.json", autosaveOnExit := true } }
    let input := "index 4 bread\r\n\nexit\nclear".toUTF8
    let texts := ["index 4 bread", "", "exit"]
    let o := run .plain s {} input
    let ls := (texts ++ ["clear"]).map encodeLine
    CutsInto input.data.toList ls ∧ Takes s {} ls texts .bye ∧ s.index.Reachable ∧
      s.config.autosaveOnExit = true ∧ o.error = none ∧ Concludes s {} texts .bye o ∧
      Session.loadSnapshot o.files "data/index.json" = .ok o.session.index := by
  intro s input texts o ls
  have hls : CutsInto input.data.toList ls := Text.cutsInto_iff.mpr (by decide +kernel)
  have hlines : ls = texts.map encodeLine ++ [encodeLine "clear"] := rfl
  have htakes : Takes s {} ls texts .bye := .bye hlines (by decide +kernel) (by decide +kernel)
  have herror : o.error = none := by
    have hisNone : o.error.isNone = true := by decide +kernel
    exact Option.isNone_iff_eq_none.mp hisNone
  obtain ⟨hconcludes, _, hload⟩ := ((run_concludes s {} input).2 ls hls).2 texts .bye htakes
  exact ⟨hls, htakes, .fresh, rfl, herror, hconcludes, hload .fresh rfl herror⟩

end Shell

end Concordance
