import Concordance.Command
import Concordance.Proofs.Query.Grammar
import Concordance.Proofs.Text.Runs

/-!
# Reading a printed query

The text of a query is read back as the query, also when it is typed as a command line. The way
from the line to the query has three stages:

* the line is cut at its blanks into fields, and each field is a chunk with tokens of its own.
  `Token.ofLine?` reads the same tokens from the uncut line (`Token.ofChunks_fields`);
* the tokens of a printed query are `Query.tokens`, if its words are words (`ofLine?_text`);
* these tokens derive the query as a clause, the outermost parentheses being a group around one
  operand (`clause_tokens`).

`ofLine_text` puts them together.
-/

namespace Concordance

/-- Whether a text is a word: it has characters, and all of them are alphanumeric. -/
def Text.IsWord (w : String) : Prop :=
  w ≠ "" ∧ ∀ c ∈ w.toList, isAlphanumeric c = true

instance (w : String) : Decidable (Text.IsWord w) :=
  -- By the characters of the word; there is an instance that goes through all characters.
  @instDecidableAnd _ _ inferInstance (List.decidableBAll _ w.toList)

namespace Query

open Text

namespace Token

/-! ## The tokens of a line -/

/-- The tokens of a line whose blanks end words, after the characters of an open word, newest
first. -/
def ofLine? (pending : List Char) : List Char → Option (List Token)
  | [] => some (closeWord pending)
  | c :: cs =>
    if isBlank c then (ofLine? [] cs).map (closeWord pending ++ ·)
    else
      match ofSign? c with
      | some t => (ofLine? [] cs).map (closeWord pending ++ t :: ·)
      | none => if isAlphanumeric c then ofLine? (c :: pending) cs else none

/-- What has been read of a chunk: `run` are its characters so far and `pending` those of its open
word, both newest first, and `before` are the tokens before that word. -/
def Scanned (run pending : List Char) (before : List Token) : Prop :=
  ∀ rest, scan? [] (run.reverse ++ rest) = (scan? pending rest).map (before ++ ·)

theorem Scanned.nil : Scanned [] [] [] := by
  intro rest
  simp

/-- A sign ends the open word. -/
theorem Scanned.sign {run pending : List Char} {before : List Token}
    (h : Scanned run pending before) {c : Char} {t : Token} (hc : ofSign? c = some t) :
    Scanned (c :: run) [] (before ++ closeWord pending ++ [t]) := by
  intro rest
  have hnext := h (c :: rest)
  rw [scan?, hc] at hnext
  rw [List.reverse_cons, List.append_assoc, List.singleton_append, hnext, Option.map_map]
  refine congrArg (Option.map · _) (funext fun ts => ?_)
  simp

/-- An alphanumeric character goes on with the open word. -/
theorem Scanned.letter {run pending : List Char} {before : List Token}
    (h : Scanned run pending before) {c : Char} (hsign : ofSign? c = none)
    (hc : isAlphanumeric c = true) : Scanned (c :: run) (c :: pending) before := by
  intro rest
  have hnext := h (c :: rest)
  rw [scan?, hsign] at hnext
  rw [List.reverse_cons, List.append_assoc, List.singleton_append, hnext]
  simp [hc]

/-- At the end of a chunk its tokens are those before the open word and the word. -/
theorem Scanned.ofChunks_closeRun {run pending : List Char} {before : List Token}
    (h : Scanned run pending before) {chunks : List String} {ts : List Token}
    (hchunks : ofChunks chunks = .ok ts) :
    ofChunks ((closeRun run).map String.ofList ++ chunks) =
      .ok (before ++ closeWord pending ++ ts) := by
  have hend : scan? [] run.reverse = some (before ++ closeWord pending) := by
    have hrest := h []
    rwa [List.append_nil, scan?] at hrest
  cases run with
  | nil =>
    -- Nothing has been read, so there is no chunk and there are no tokens.
    have hnone : before ++ closeWord pending = [] := (Option.some.inj hend).symm
    rw [hnone]
    exact hchunks
  | cons c run =>
    have hchunk : ofChunk (String.ofList (c :: run).reverse) = .ok (before ++ closeWord pending) := by
      rw [ofChunk, String.toList_ofList, hend]
    show ofChunks (String.ofList (c :: run).reverse :: chunks) = _
    rw [ofChunks, hchunk, hchunks]
    rfl

/-- The fields of the rest of a line, when part of a field has been read, have the tokens that
the rest of the line has. -/
theorem Scanned.ofChunks_runsFrom {cs run pending : List Char} {before ts : List Token}
    (h : Scanned run pending before) (hts : ofLine? pending cs = some ts) :
    ofChunks ((runsFrom (fun c => !isBlank c) run cs).map String.ofList) = .ok (before ++ ts) := by
  -- On the characters that are left: a blank ends the chunk, any other one goes on with it.
  induction cs generalizing run pending before ts with
  | nil =>
    rw [ofLine?] at hts
    cases hts
    have hclosed := h.ofChunks_closeRun (show ofChunks [] = .ok [] from rfl)
    simpa [runsFrom] using hclosed
  | cons c cs ih =>
    rw [ofLine?] at hts
    rw [runsFrom]
    cases hblank : isBlank c with
    | true =>
      rw [hblank, if_pos rfl] at hts
      obtain ⟨later, hlater, rfl⟩ := Option.map_eq_some_iff.mp hts
      have hclosed := h.ofChunks_closeRun (ih .nil hlater)
      simpa using hclosed
    | false =>
      rw [hblank, if_neg (by decide)] at hts
      rw [if_pos (by decide)]
      cases hsign : ofSign? c with
      | some t =>
        rw [hsign] at hts
        obtain ⟨later, hlater, rfl⟩ := Option.map_eq_some_iff.mp hts
        have hread := ih (h.sign hsign) hlater
        simpa using hread
      | none =>
        rw [hsign] at hts
        cases hletter : isAlphanumeric c with
        | false => simp [hletter] at hts
        | true => exact ih (h.letter hsign hletter) (by simpa [hletter] using hts)

/-- **Chunks and the line.** The fields of a line have the tokens of the line. -/
theorem ofChunks_fields {line : String} {ts : List Token}
    (h : ofLine? [] line.toList = some ts) : ofChunks (fields line) = .ok ts :=
  Scanned.nil.ofChunks_runsFrom h

/-! ## Words and signs -/

/-- No word goes on with the text. -/
def EndsWord : List Char → Prop
  | [] => True
  | c :: _ => isAlphanumeric c = false

theorem ofSign?_of_isAlphanumeric {c : Char} (h : isAlphanumeric c = true) :
    ofSign? c = none := by
  unfold ofSign?
  split
  case h_5 => rfl
  all_goals exact absurd h (by decide)

/-- The characters of a word are collected. -/
theorem ofLine?_letters {w : List Char} (h : ∀ c ∈ w, isAlphanumeric c = true)
    (pending rest : List Char) :
    ofLine? pending (w ++ rest) = ofLine? (w.reverse ++ pending) rest := by
  induction w generalizing pending with
  | nil => rfl
  | cons c w ih =>
    have hc : isAlphanumeric c = true := h c List.mem_cons_self
    rw [List.cons_append, ofLine?, isBlank_of_isAlphanumeric hc, ofSign?_of_isAlphanumeric hc,
      if_neg (by decide)]
    simp only [hc, if_true]
    rw [ih fun c hc => h c (List.mem_cons_of_mem _ hc)]
    simp

/-- An open word ends before a text that does not go on with it. -/
theorem ofLine?_endsWord {rest : List Char} (h : EndsWord rest) (pending : List Char) :
    ofLine? pending rest = (ofLine? [] rest).map (closeWord pending ++ ·) := by
  cases rest with
  | nil => simp [ofLine?, closeWord]
  | cons c cs =>
    have hc : isAlphanumeric c = false := h
    rw [ofLine?, ofLine?]
    cases isBlank c with
    | true => simp [closeWord]
    | false =>
      cases ofSign? c with
      | none => simp [hc]
      | some t =>
        -- Both sides put the open word before the sign.
        show _ = Option.map _ (Option.map _ _)
        rw [Option.map_map]
        rfl

/-- **Words.** A word is one token before a text that does not go on with it. -/
theorem ofLine?_word {w : String} (h : IsWord w) {rest : List Char} (hend : EndsWord rest) :
    ofLine? [] (w.toList ++ rest) = (ofLine? [] rest).map (word w :: ·) := by
  obtain ⟨hne, hletters⟩ := h
  have hclose : closeWord w.toList.reverse = [word w] := by
    cases hrev : w.toList.reverse with
    | nil => exact absurd (by simpa using hrev) hne
    | cons c cs => rw [closeWord, ← hrev, List.reverse_reverse, String.ofList_toList]
  rw [ofLine?_letters hletters, List.append_nil, ofLine?_endsWord hend, hclose]
  rfl

/-- A sign is one token. -/
theorem ofLine?_sign {c : Char} {t : Token} (hblank : isBlank c = false)
    (hsign : ofSign? c = some t) (rest : List Char) :
    ofLine? [] (c :: rest) = (ofLine? [] rest).map (t :: ·) := by
  rw [ofLine?, hblank, if_neg (by decide), hsign]
  rfl

/-- A blank between tokens is nothing. -/
theorem ofLine?_blank {c : Char} (hblank : isBlank c = true) (rest : List Char) :
    ofLine? [] (c :: rest) = ofLine? [] rest := by
  rw [ofLine?, if_pos hblank]
  simp [closeWord]

end Token

/-! ## The tokens of a printed query -/

/-- The tokens of a query, with parentheses around every connective. -/
def tokens : Query → List Token
  | word w => [.word w]
  | join op l r => .opening :: (l.tokens ++ .connective op :: (r.tokens ++ [.closing]))

/-- The text of a query is read as its tokens. -/
theorem ofLine?_text {q : Query} (h : ∀ w ∈ q.words, IsWord w) {rest : List Char}
    (hend : Token.EndsWord rest) :
    Token.ofLine? [] (q.text.toList ++ rest) = (Token.ofLine? [] rest).map (q.tokens ++ ·) := by
  induction q generalizing rest with
  | word w => exact Token.ofLine?_word (h w List.mem_cons_self) hend
  | join op l r ihl ihr =>
    have hl : ∀ w ∈ l.words, IsWord w := fun w hw => h w (List.mem_append_left _ hw)
    have hr : ∀ w ∈ r.words, IsWord w := fun w hw => h w (List.mem_append_right _ hw)
    have htext : (join op l r).text.toList ++ rest =
        '(' :: (l.text.toList ++ ' ' :: op.sign :: ' ' :: (r.text.toList ++ ')' :: rest)) := by
      simp [text]
    have hspace : ∀ cs, Token.ofLine? [] (' ' :: cs) = Token.ofLine? [] cs :=
      Token.ofLine?_blank rfl
    have hsign : ∀ cs, Token.ofLine? [] (op.sign :: cs) =
        (Token.ofLine? [] cs).map (.connective op :: ·) := by
      cases op with
      | and => exact Token.ofLine?_sign (by decide) rfl
      | or => exact Token.ofLine?_sign (by decide) rfl
    have hopen : ∀ cs, Token.ofLine? [] ('(' :: cs) =
        (Token.ofLine? [] cs).map (.opening :: ·) := Token.ofLine?_sign (by decide) rfl
    have hclose : ∀ cs, Token.ofLine? [] (')' :: cs) =
        (Token.ofLine? [] cs).map (.closing :: ·) := Token.ofLine?_sign (by decide) rfl
    have hblank : Token.EndsWord (' ' :: op.sign :: ' ' :: (r.text.toList ++ ')' :: rest)) := by
      show isAlphanumeric ' ' = false
      decide
    have hparen : Token.EndsWord (')' :: rest) := by
      show isAlphanumeric ')' = false
      decide
    rw [htext, hopen, ihl hl hblank, hspace, hsign, hspace, ihr hr hparen, hclose]
    simp only [Option.map_map]
    refine congrArg (Option.map · _) (funext fun ts => ?_)
    simp [tokens]

/-- The tokens of a query are an operand of it: a word, or a group around both of its parts. -/
theorem operand_tokens (q : Query) : Operand q q.tokens := by
  induction q with
  | word w => exact .word w
  | join op l r ihl ihr =>
    have hclause := Clause.join op .nil ihl .nil .nil ihr .nil
    have hgroup := Operand.group hclause
    simpa [tokens] using hgroup

theorem clause_tokens (q : Query) : Clause q q.tokens := by
  have hclause := Clause.single .nil (operand_tokens q) .nil
  simpa using hclause

theorem tokens_ne_nil (q : Query) : q.tokens ≠ [] := by
  cases q <;> simp [tokens]

/-! ## A query on a command line -/

/-- The fields of a command line: the name and those of the rest. -/
theorem fields_query (rest : String) : fields ("query " ++ rest) = "query" :: fields rest := by
  have hline : ("query " ++ rest).toList = "query".toList ++ ' ' :: rest.toList := by
    rw [String.toList_append]
    rfl
  have hname : runsFrom (fun c => !isBlank c) [] "query".toList = ["query".toList] := by decide
  rw [fields, runs, hline, runsFrom_append_cons (by decide), hname]
  rfl

/-- **Printing, then reading.** A query whose words are words is read back from its text: a line
with the name of the command and the text is the command with the chunks of the text, and these
chunks are the query. -/
theorem ofLine_text {q : Query} (h : ∀ w ∈ q.words, IsWord w) :
    ∃ chunks, Command.ofLine ("query " ++ q.text) = .ok (some (.query chunks)) ∧
      ofChunks chunks = .ok q := by
  have htokens : Token.ofChunks (fields q.text) = .ok q.tokens := by
    refine Token.ofChunks_fields ?_
    have hread := ofLine?_text h (show Token.EndsWord [] from trivial)
    simpa [Token.ofLine?, Token.closeWord] using hread
  refine ⟨fields q.text, ?_, ?_⟩
  · -- The text has fields, so the command has the arguments that it needs.
    rw [Command.ofLine, fields_query]
    cases hfields : fields q.text with
    | nil =>
      rw [hfields] at htokens
      exact absurd (Except.ok.inj htokens).symm (tokens_ne_nil q)
    | cons chunk chunks => rfl
  · rw [ofChunks, htokens]
    exact parse_of_clause (clause_tokens q)

/-- A query on three levels, with words that are no ASCII text and one that is a command's name. -/
theorem ofLine_text_nested :
    let q := join .or (join .and (word "größe2") (join .or (word "٣") (word "index"))) (word "a")
    (∀ w ∈ q.words, IsWord w) ∧ q.text = "((größe2 & (٣ | index)) | a)" ∧
      ∃ chunks, Command.ofLine "query ((größe2 & (٣ | index)) | a)" = .ok (some (.query chunks)) ∧
        ofChunks chunks = .ok q := by
  intro q
  have hwords : ∀ w ∈ q.words, IsWord w := by decide +kernel
  have htext : q.text = "((größe2 & (٣ | index)) | a)" := by decide
  have hread := ofLine_text hwords
  rw [htext] at hread
  exact ⟨hwords, htext, hread⟩

end Query

end Concordance
