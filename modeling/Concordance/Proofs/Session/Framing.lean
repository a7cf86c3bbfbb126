import Concordance.Proofs.DocId
import Concordance.Proofs.Query.Chunks
import Concordance.Proofs.Session.Conversation
import Concordance.Proofs.Text.OneLine

/-!
# One line for each response

A response repeats texts of its line: a word that is missing, the parts of a query, an argument.
None of them has a line break, since line breaks are blanks and a line is cut at its blanks first;
arguments that are repeated as a list are quoted. `HasOneLine` says this of what any stage gives,
from the line to the answer, and stages one after the other keep it (`HasOneLine.bind`).

So a response is one line, and what is written for it is one line of output; with colours, control
sequences stand before or after its characters, and nothing else does (`Adorned`).
`handleLine_oneLine` has both.
-/

namespace Concordance

open Text

/-! ## Errors -/

/-- The texts that an error repeats as they are. -/
def SearchError.texts : SearchError → List String
  | invalidChunk text | notIndexed text | invalidDocId text | unknownCommand text => [text]
  | invalidClause parts => parts
  | unclosedParenthesis | unexpectedClosing | emptyQuery | tooFewArguments _ | malformed _
  | mislabelled _ | file _ => []

theorem Mislabelling.oneLine_message (m : Mislabelling) : OneLine m.message := by
  cases m with
  | root label => exact .append (.ofList (by decide)) (oneLine_quoteChar label)
  | child key label =>
    have hkey : OneLine ("child under key " ++ quoteChar key) :=
      .append (.ofList (by decide)) (oneLine_quoteChar key)
    cases label with
    | none => exact .append hkey (.ofList (by decide))
    | some label =>
      have hlabel := oneLine_quoteChar label
      exact .append (.append (.append hkey (.ofList (by decide))) hlabel) (.ofList (by decide))

theorem FileError.oneLine_message (cause : FileError) : OneLine cause.message := by
  cases cause <;> exact .ofList (by decide)

theorem Json.Fault.oneLine_message (fault : Fault) : OneLine fault.message := by
  cases fault <;> exact .ofList (by decide)

/-- The message of an error is one line if the texts that it repeats are. -/
theorem SearchError.oneLine_message {e : SearchError} (h : ∀ text ∈ e.texts, OneLine text) :
    OneLine e.message := by
  have hframed {opening text closing : String} (htext : OneLine text) (hopening : OneLine opening)
      (hclosing : OneLine closing) : OneLine (opening ++ text ++ closing) :=
    .append (.append hopening htext) hclosing
  cases e with
  | unclosedParenthesis | unexpectedClosing | emptyQuery => exact .ofList (by decide)
  | invalidChunk text | notIndexed text | invalidDocId text | unknownCommand text =>
    exact hframed (h text List.mem_cons_self) (.ofList (by decide)) (.ofList (by decide))
  | invalidClause parts =>
    have hparts : OneLine (", ".intercalate parts) := .intercalate (.ofList (by decide)) h
    exact hframed hparts (.ofList (by decide)) (.ofList (by decide))
  | tooFewArguments args =>
    exact hframed (oneLine_quoteList args) (.ofList (by decide)) (.ofList (by decide))
  | malformed fault =>
    exact hframed fault.oneLine_message (.ofList (by decide)) (.ofList (by decide))
  | mislabelled m => exact hframed m.oneLine_message (.ofList (by decide)) (.ofList (by decide))
  | file cause =>
    exact hframed cause.oneLine_message (.ofList (by decide)) (.ofList (by decide))

/-! ## What the stages give -/

/-- A result without line breaks: in the texts of the value, or in those that the error repeats. -/
def HasOneLine {α : Type} (texts : α → List String) : Except SearchError α → Prop
  | .ok a => ∀ text ∈ texts a, OneLine text
  | .error e => ∀ text ∈ e.texts, OneLine text

/-- A stage after another one. -/
theorem HasOneLine.bind {α β : Type} {texts : α → List String} {texts' : β → List String}
    {x : Except SearchError α} {f : α → Except SearchError β} (hx : HasOneLine texts x)
    (hf : ∀ a, x = .ok a → (∀ text ∈ texts a, OneLine text) → HasOneLine texts' (f a)) :
    HasOneLine texts' (x >>= f) := by
  cases x with
  | ok a => exact hf a rfl hx
  | error e => exact hx

namespace Query

/-- The words of some tokens. -/
def Token.wordsOf (ts : List Token) : List String :=
  ts.filterMap Token.word?

/-- The words of the operands of a level. -/
def Level.words (level : Level) : List String :=
  level.flatMap fun
    | .operand q => q.words
    | .connective _ => []

theorem Token.eq_word_of_word? {t : Token} {w : String} (h : t.word? = some w) : t = .word w := by
  cases t <;> cases h
  rfl

/-- Chunks are read as words of one line, or repeated. -/
theorem hasOneLine_ofTokens {chunks : List String} (h : ∀ chunk ∈ chunks, OneLine chunk) :
    HasOneLine Token.wordsOf (Token.ofChunks chunks) := by
  cases hchunks : Token.ofChunks chunks with
  | ok ts =>
    obtain ⟨groups, hgroups, -, rfl⟩ := Token.ofChunks_eq_ok_iff.mp hchunks
    intro w hw
    obtain ⟨t, ht, hword⟩ := List.mem_filterMap.mp hw
    obtain rfl := Token.eq_word_of_word? hword
    obtain ⟨group, hgroup, ht⟩ := List.mem_flatten.mp ht
    obtain ⟨-, hletters⟩ := (hgroups group hgroup).words w ht
    exact oneLine_of_isBlank fun c hc => isBlank_of_isAlphanumeric (hletters c hc)
  | error e =>
    obtain ⟨before, chunk, after, rfl, -, -, rfl⟩ := Token.ofChunks_eq_error_iff.mp hchunks
    exact List.forall_mem_singleton.mpr (h chunk (by simp))

theorem oneLine_text {q : Query} (h : ∀ w ∈ q.words, OneLine w) : OneLine q.text := by
  induction q with
  | word w => exact h w List.mem_cons_self
  | join op l r ihl ihr =>
    obtain ⟨hl, hr⟩ := List.forall_mem_append.mp h
    have hsign : OneLine (String.singleton op.sign) := by cases op <;> decide
    have hopened : OneLine ("(" ++ l.text) := .append (.ofList (by decide)) (ihl hl)
    have hjoined : OneLine ("(" ++ l.text ++ " " ++ String.singleton op.sign ++ " ") :=
      .append (.append (.append hopened (.ofList (by decide))) hsign) (.ofList (by decide))
    exact .append (.append hjoined (ihr hr)) (.ofList (by decide))

theorem oneLine_part {level : Level} (h : ∀ w ∈ level.words, OneLine w) :
    ∀ part ∈ level, OneLine part.text := by
  intro part hpart
  cases part with
  | operand q => exact oneLine_text fun w hw => h w (List.mem_flatMap.mpr ⟨_, hpart, hw⟩)
  | connective op => cases op <;> decide

/-- A level amounts to an operand of its words, or its parts are repeated. -/
theorem hasOneLine_close {level : Level} (h : ∀ w ∈ level.words, OneLine w) :
    HasOneLine (fun q? => q?.elim [] words) level.close := by
  unfold Level.close
  split
  · exact List.forall_mem_nil _
  · simpa [Level.words, HasOneLine] using h
  · simpa [Level.words, HasOneLine, words, or_imp, forall_and, and_comm] using h
  · intro text htext
    obtain ⟨part, hpart, rfl⟩ := List.mem_map.mp htext
    exact oneLine_part h part (List.mem_reverse.mp hpart)

theorem Level.words_absorb (level : Level) (q? : Option Query) :
    (level.absorb q?).words = q?.elim [] Query.words ++ level.words := by
  cases q? <;> rfl

/-- Reading a query repeats only its words. -/
theorem hasOneLine_parseFrom {ts : List Token} (hts : ∀ w ∈ Token.wordsOf ts, OneLine w)
    {outer : List Level} (houter : ∀ level ∈ outer, ∀ w ∈ level.words, OneLine w) {level : Level}
    (hlevel : ∀ w ∈ level.words, OneLine w) :
    HasOneLine words (parseFrom outer level ts) := by
  induction ts generalizing outer level with
  | nil =>
    cases outer with
    | cons next outer => exact List.forall_mem_nil _
    | nil =>
      refine (hasOneLine_close hlevel).bind fun q? _ hq => ?_
      cases q? with
      | some q => exact hq
      | none => exact List.forall_mem_nil _
  | cons t ts ih =>
    cases t with
    | opening =>
      exact ih hts (List.forall_mem_cons.mpr ⟨hlevel, houter⟩) (List.forall_mem_nil _)
    | closing =>
      cases outer with
      | nil => exact List.forall_mem_nil _
      | cons next outer =>
        obtain ⟨hnext, houter⟩ := List.forall_mem_cons.mp houter
        refine (hasOneLine_close hlevel).bind fun q? _ hq => ih hts houter ?_
        rw [Level.words_absorb]
        exact List.forall_mem_append.mpr ⟨hq, hnext⟩
    | connective op => exact ih hts houter hlevel
    | word w =>
      obtain ⟨hw, hts⟩ := List.forall_mem_cons.mp hts
      exact ih hts houter (List.forall_mem_cons.mpr ⟨hw, hlevel⟩)

/-- The answer to a query has no texts; if there is none, a word of the query is repeated. -/
theorem hasOneLine_answer (t : Trie) {q : Query} (h : ∀ w ∈ q.words, OneLine w) :
    HasOneLine (fun _ => []) (answer t q) := by
  induction q with
  | word w =>
    rw [answer]
    cases t.lookup? w with
    | some ids => exact List.forall_mem_nil _
    | none => exact h
  | join op l r ihl ihr =>
    obtain ⟨hl, hr⟩ := List.forall_mem_append.mp h
    exact (ihl hl).bind fun _ _ _ => (ihr hr).bind fun _ _ _ => List.forall_mem_nil _

theorem hasOneLine_answerChunks (t : Trie) {chunks : List String}
    (h : ∀ chunk ∈ chunks, OneLine chunk) :
    HasOneLine (fun _ => []) (answerChunks t chunks) := by
  have hquery : HasOneLine words (ofChunks chunks) :=
    (hasOneLine_ofTokens h).bind fun ts _ hts =>
      hasOneLine_parseFrom hts (List.forall_mem_nil _) (List.forall_mem_nil _)
  exact hquery.bind fun q _ hq => hasOneLine_answer t hq

end Query

/-- The texts of a command that a response may repeat. -/
def Command.texts : Command → List String
  | query chunks => chunks
  | index .. | save | load | clear | exit => []

theorem Command.hasOneLine_ofParts {name : String} {args : List String}
    (h : ∀ part ∈ name :: args, OneLine part) : HasOneLine texts (ofParts name args) := by
  obtain ⟨hname, hargs⟩ := List.forall_mem_cons.mp h
  have hindex : HasOneLine texts (indexOfArgs args) := by
    unfold indexOfArgs
    split
    · next raw text rest =>
      split
      · exact List.forall_mem_nil _
      · exact List.forall_mem_singleton.mpr (hargs raw List.mem_cons_self)
    · exact List.forall_mem_nil _
  unfold ofParts
  split
  · exact hindex
  · unfold queryOfArgs
    split
    · exact List.forall_mem_nil _
    · exact hargs
  iterate 5 exact List.forall_mem_nil _
  · exact List.forall_mem_singleton.mpr hname

/-! ## Responses -/

theorem DocId.oneLine_particular (id : DocId) : OneLine (" " ++ id.text) :=
  .append (.ofList (by decide)) (.of_isDigit fun _ => isDigit_of_mem_text)

/-- A response is one line if its message is, in case that it is a failure. -/
theorem Response.oneLine_text {r : Response}
    (h : ∀ message, r = .failure message → OneLine message) : OneLine r.text := by
  have hstatus : OneLine (r.status.getD "") := by
    cases r <;> exact .ofList (by decide)
  refine hstatus.append ?_
  cases r with
  | indexed id => exact id.oneLine_particular
  | results ids =>
    refine .join fun text htext => ?_
    obtain ⟨id, -, rfl⟩ := List.mem_map.mp htext
    exact id.oneLine_particular
  | failure message => exact .append (.ofList (by decide)) (h message rfl)
  | saved | loaded | loadFailed | cleared | bye => exact .ofList (by decide)

namespace Session

/-- A command without line breaks in its texts fails with a message of one line. -/
theorem oneLine_of_execute_eq_failure {s : Session} {files : Files} {command : Command}
    (h : ∀ text ∈ command.texts, OneLine text) {message : String}
    (hr : (s.execute files command).1 = .failure message) : OneLine message := by
  cases command with
  | index | clear | exit => cases hr
  | query chunks =>
    have hanswer : HasOneLine (fun _ => []) (Query.answerChunks s.index chunks) :=
      Query.hasOneLine_answerChunks s.index h
    rw [execute] at hr
    cases hids : Query.answerChunks s.index chunks with
    | ok ids =>
      rw [hids] at hr
      cases hr
    | error e =>
      rw [hids] at hr hanswer
      cases hr
      exact SearchError.oneLine_message hanswer
  | save =>
    rw [execute_save] at hr
    cases hsave : s.save files with
    | mk files' outcome =>
      rw [hsave] at hr
      cases outcome with
      | ok _ => cases hr
      | error e =>
        obtain ⟨cause, rfl, _⟩ := save_eq_error_iff.mp hsave
        cases hr
        exact SearchError.oneLine_message (List.forall_mem_nil _)
  | load =>
    rw [execute, reload] at hr
    cases hload : loadSnapshot files s.config.snapshotPath <;> rw [hload] at hr <;> cases hr

/-- The response to a line is one line, even if the line has line breaks. -/
theorem oneLine_handleLine {s : Session} {files : Files} {line : String} {r : Response}
    (h : (s.handleLine files line).1 = some r) : OneLine r.text := by
  cases hfields : fields line with
  | nil =>
    rw [handleLine_of_blank hfields] at h
    cases h
  | cons name args =>
    have hone : ∀ part ∈ name :: args, OneLine part := fun _ hpart =>
      oneLine_of_mem_fields (hfields ▸ hpart)
    have hcommand := Command.hasOneLine_ofParts hone
    cases hparts : Command.ofParts name args with
    | error e =>
      rw [hparts] at hcommand
      rw [handleLine_of_refused hfields hparts] at h
      cases h
      refine Response.oneLine_text fun message hmessage => ?_
      cases hmessage
      exact SearchError.oneLine_message hcommand
    | ok command =>
      rw [hparts] at hcommand
      rw [handleLine_of_command hfields hparts] at h
      cases h
      exact Response.oneLine_text fun message hmessage =>
        oneLine_of_execute_eq_failure hcommand hmessage

end Session

/-! ## Colours -/

/-- Characters with nothing but control sequences between them: those that select a look, and the
one that goes back to the standard look. -/
inductive Adorned : List Char → List Char → Prop where
  | nil : Adorned [] []
  | char (c : Char) {cs adorned : List Char} (rest : Adorned cs adorned) :
      Adorned (c :: cs) (c :: adorned)
  | look (colour : Colour) (bold : Bool) {cs adorned : List Char} (rest : Adorned cs adorned) :
      Adorned cs ((Medium.ansi.look colour bold).toList ++ adorned)
  | reset {cs adorned : List Char} (rest : Adorned cs adorned) :
      Adorned cs (Medium.ansi.reset.toList ++ adorned)

namespace Adorned

theorem append_left (before : List Char) {cs adorned : List Char} (h : Adorned cs adorned) :
    Adorned (before ++ cs) (before ++ adorned) := by
  induction before with
  | nil => exact h
  | cons c before ih => exact .char c ih

theorem refl (cs : List Char) : Adorned cs cs := by
  simpa using append_left cs .nil

end Adorned

/-- On a terminal a response has control sequences before its status and after it; or before its
line and after it. -/
theorem Response.adorned_write (r : Response) :
    Adorned (r.text ++ "\n").toList (r.write .ansi).toList := by
  rw [write, text]
  cases r.status with
  | none =>
    have hafter : Adorned [] (Medium.ansi.reset.toList ++ []) := .reset .nil
    have hline := Adorned.append_left (r.particulars ++ "\n").toList hafter
    simpa using Adorned.look r.colour false hline
  | some status =>
    have hafter : Adorned (r.particulars ++ "\n").toList
        (Medium.ansi.reset.toList ++ (r.particulars ++ "\n").toList) := .reset (.refl _)
    simpa using Adorned.look r.colour true (hafter.append_left status.toList)

/-! ## Output -/

namespace Session

/-- **One line for each response.** Whatever the line is that a session handles, the text of its
response has no line break. Without colours this text is written with a line feed after it, as one
line of output; on a terminal the same characters are written, with nothing but control sequences
between them. -/
theorem handleLine_oneLine {s : Session} {files : Files} {line : String} {r : Response}
    (h : (s.handleLine files line).1 = some r) :
    OneLine r.text ∧ r.write .plain = r.text ++ "\n" ∧
      CutsInto (encodeLine (r.write .plain)) [encodeLine r.text] ∧
      Adorned (r.write .plain).toList (r.write .ansi).toList := by
  have hone := oneLine_handleLine h
  rw [r.write_plain]
  exact ⟨hone, rfl, hone.cutsInto, r.adorned_write⟩

/-- A line of three lines whose command is not known, and contains a control sequence itself. -/
theorem handleLine_oneLine_unknown :
    let s : Session := { config := {} }
    let line := "\n\x1b[0mdelete\r\n1"
    let r : Response := .failure "COMMAND_NOT_FOUND(\x1b[0mdelete)"
    (s.handleLine {} line).1 = some r ∧ OneLine r.text ∧
      r.write .plain = "index error COMMAND_NOT_FOUND(\x1b[0mdelete)\n" ∧
      CutsInto (encodeLine (r.write .plain)) [encodeLine r.text] ∧
      Adorned (r.write .plain).toList (r.write .ansi).toList := by
  intro s line r
  have hr : (s.handleLine {} line).1 = some r := by decide +kernel
  obtain ⟨hone, hplain, hcuts, hadorned⟩ := handleLine_oneLine hr
  exact ⟨hr, hone, hplain.trans (by decide +kernel), hcuts, hadorned⟩

end Session

end Concordance
