import Concordance.Proofs.Query.Chunks
import Concordance.Proofs.Session.Lines
import Mathlib.Logic.Relation

/-!
# Blanks in a query

Blanks end words, and for the rest they do not count. `Respacing` is one blank more or one less, at
a place where this neither cuts a word in two nor makes one of two words; `Respaced` is any number
of such changes. The tokens of a query do not see a change (`Respacing.ofLine?_eq`), although the
fields of the line, and so the chunks of the query, may be others. So a query is answered as any
query is that differs from it in such blanks (`handleLine_of_respaced`).
-/

namespace Concordance

open Text

namespace Query

/-- Whether the characters at a place are both alphanumeric: a blank there cuts a word in two. -/
def CutsWord (before after : List Char) : Prop :=
  (∃ c ∈ before.getLast?, isAlphanumeric c = true) ∧ ∃ c ∈ after.head?, isAlphanumeric c = true

instance (before after : List Char) : Decidable (CutsWord before after) :=
  decidable_of_iff
    (before.getLast?.any isAlphanumeric = true ∧ after.head?.any isAlphanumeric = true)
    (by simp [CutsWord, Option.any_eq_true])

/-- One blank more or one less, but not between two alphanumeric characters. -/
inductive Respacing : List Char → List Char → Prop where
  | insert {before after : List Char} {c : Char} (blank : isBlank c = true)
      (harmless : ¬CutsWord before after) : Respacing (before ++ after) (before ++ c :: after)
  | delete {before after : List Char} {c : Char} (blank : isBlank c = true)
      (harmless : ¬CutsWord before after) : Respacing (before ++ c :: after) (before ++ after)

/-- Blanks inserted and deleted one after the other. -/
def Respaced : List Char → List Char → Prop :=
  Relation.ReflTransGen Respacing

namespace Token

theorem endsWord_iff {cs : List Char} :
    EndsWord cs ↔ ¬∃ c ∈ cs.head?, isAlphanumeric c = true := by
  cases cs <;> simp [EndsWord]

/-- Before a text that does not go on with the open word, a line is read in two parts. -/
theorem ofLine?_append {pending before after : List Char}
    (hpending : ∀ c ∈ pending, isAlphanumeric c = true)
    (h : ¬CutsWord (pending.reverse ++ before) after) :
    ofLine? pending (before ++ after) =
      (ofLine? pending before).bind fun ts => (ofLine? [] after).map (ts ++ ·) := by
  induction before generalizing pending with
  | nil =>
    rw [List.nil_append]
    cases pending with
    | nil => simp [ofLine?, closeWord]
    | cons c pending =>
      have hend : EndsWord after := by
        refine endsWord_iff.mpr fun hafter => h ⟨⟨c, ?_, hpending c List.mem_cons_self⟩, hafter⟩
        simp
      rw [ofLine?_endsWord hend]
      rfl
  | cons c before ih =>
    rw [List.cons_append, ofLine?, ofLine?]
    have hclosed : ¬CutsWord before after := by
      rintro ⟨⟨d, hd, hletter⟩, hafter⟩
      refine h ⟨⟨d, ?_, hletter⟩, hafter⟩
      cases before with
      | nil => cases hd
      | cons e before => simpa using hd
    have hrest : ofLine? [] (before ++ after) =
        (ofLine? [] before).bind fun ts => (ofLine? [] after).map (ts ++ ·) :=
      ih (List.forall_mem_nil _) hclosed
    cases isBlank c with
    | true => simp [hrest, Option.map_bind, Option.bind_map, Function.comp_def]
    | false =>
      cases ofSign? c with
      | some t => simp [hrest, Option.map_bind, Option.bind_map, Function.comp_def]
      | none =>
        cases hletter : isAlphanumeric c with
        | false => rfl
        | true =>
          have hopen : ∀ d ∈ c :: pending, isAlphanumeric d = true :=
            List.forall_mem_cons.mpr ⟨hletter, hpending⟩
          have hgoesOn : ¬CutsWord ((c :: pending).reverse ++ before) after := by
            rwa [List.reverse_cons, List.append_assoc]
          simpa using ih hopen hgoesOn

/-- A blank that cuts no word is not seen. -/
theorem ofLine?_insert {before after : List Char} {c : Char} (blank : isBlank c = true)
    (harmless : ¬CutsWord before after) :
    ofLine? [] (before ++ c :: after) = ofLine? [] (before ++ after) := by
  have hletter : isAlphanumeric c = false := by
    rw [← Bool.not_eq_true]
    intro hc
    rw [isBlank_of_isAlphanumeric hc] at blank
    cases blank
  have hblank : ¬CutsWord before (c :: after) := by
    rintro ⟨_, d, hd, hd'⟩
    cases hd
    rw [hletter] at hd'
    cases hd'
  rw [ofLine?_append (List.forall_mem_nil _) hblank, ofLine?_blank blank,
    ofLine?_append (List.forall_mem_nil _) harmless]

/-- A line has tokens if all its characters, except the blanks, may stand in a query. -/
theorem exists_ofLine? {cs : List Char}
    (h : ∀ c ∈ cs, isBlank c = false → isAlphanumeric c = true ∨ c ∈ ['(', ')', '&', '|'])
    (pending : List Char) : ∃ ts, ofLine? pending cs = some ts := by
  induction cs generalizing pending with
  | nil => exact ⟨_, rfl⟩
  | cons c cs ih =>
    obtain ⟨hc, hcs⟩ := List.forall_mem_cons.mp h
    rw [ofLine?]
    cases hblank : isBlank c with
    | true =>
      obtain ⟨ts, hts⟩ := ih hcs []
      simp [hts]
    | false =>
      rcases hc hblank with hletter | hsign
      · obtain ⟨ts, hts⟩ := ih hcs (c :: pending)
        simp [ofSign?_of_isAlphanumeric hletter, hletter, hts]
      · obtain ⟨t, ht, -, -⟩ := exists_ofSign? hsign
        obtain ⟨ts, hts⟩ := ih hcs []
        simp [ht, hts]

end Token

/-! ## Changes of blanks -/

/-- A change of one blank leaves the tokens. -/
theorem Respacing.ofLine?_eq {cs cs' : List Char} (h : Respacing cs cs') :
    Token.ofLine? [] cs' = Token.ofLine? [] cs := by
  cases h with
  | insert blank harmless => exact Token.ofLine?_insert blank harmless
  | delete blank harmless => exact (Token.ofLine?_insert blank harmless).symm

/-- A change of one blank leaves the other characters. -/
theorem Respacing.mem_iff {cs cs' : List Char} (h : Respacing cs cs') {c : Char}
    (hc : isBlank c = false) : c ∈ cs' ↔ c ∈ cs := by
  have hne {d : Char} (blank : isBlank d = true) : c ≠ d := by
    rintro rfl
    rw [hc] at blank
    cases blank
  cases h with
  | insert blank => simp [hne blank]
  | delete blank => simp [hne blank]

/-- **Any change of blanks** leaves the tokens and the other characters. -/
theorem Respaced.ofLine?_eq {cs cs' : List Char} (h : Respaced cs cs') :
    Token.ofLine? [] cs' = Token.ofLine? [] cs ∧
      ∀ c, isBlank c = false → (c ∈ cs' ↔ c ∈ cs) := by
  induction h with
  | refl => exact ⟨rfl, fun _ _ => Iff.rfl⟩
  | tail _ hstep ih =>
    obtain ⟨htokens, hmem⟩ := ih
    exact ⟨hstep.ofLine?_eq.trans htokens, fun c hc => (hstep.mem_iff hc).trans (hmem c hc)⟩

/-- What a query answers is decided by its tokens. -/
theorem answerChunks_of_tokens (t : Trie) {chunks : List String} {ts : List Token}
    (h : Token.ofChunks chunks = .ok ts) : answerChunks t chunks = (parse ts).bind (answer t) := by
  rw [answerChunks, ofChunks, h]
  rfl

end Query

namespace Session

/-- A line that asks for a text with something in it carries out the query of its fields. -/
theorem handleLine_query {text : String} (h : fields text ≠ []) (s : Session) (files : Files) :
    s.handleLine files ("query " ++ text) =
      (some (s.execute files (.query (fields text))).1,
        (s.execute files (.query (fields text))).2) := by
  refine handleLine_of_command (Query.fields_query text) ?_
  obtain ⟨chunk, chunks, hchunks⟩ := List.exists_cons_of_ne_nil h
  rw [hchunks]
  rfl

/-- **Blanks that do not count.** Two lines that ask for texts which differ only in blanks that
neither cut a word in two nor keep two words apart have the same response, whether it is a failure
or not, and leave the session and the files as they are. -/
theorem handleLine_of_respaced {text text' : String}
    (hchars : ∀ c ∈ text.toList, isBlank c = false →
      isAlphanumeric c = true ∨ c ∈ ['(', ')', '&', '|'])
    (hne : ∃ c ∈ text.toList, isBlank c = false)
    (h : Query.Respaced text.toList text'.toList) (s : Session) (files : Files) :
    ∃ r, s.handleLine files ("query " ++ text) = (some r, s, files) ∧
      s.handleLine files ("query " ++ text') = (some r, s, files) := by
  obtain ⟨htokens, hmem⟩ := h.ofLine?_eq
  obtain ⟨ts, hts⟩ := Query.Token.exists_ofLine? hchars []
  have hchunks : Query.Token.ofChunks (fields text) = .ok ts := Query.Token.ofChunks_fields hts
  have hchunks' : Query.Token.ofChunks (fields text') = .ok ts :=
    Query.Token.ofChunks_fields (htokens.trans hts)
  have hne' : ∃ c ∈ text'.toList, isBlank c = false := by
    obtain ⟨c, hc, hblank⟩ := hne
    exact ⟨c, (hmem c hblank).mpr hc, hblank⟩
  have hanswer : Query.answerChunks s.index (fields text') =
      Query.answerChunks s.index (fields text) := by
    rw [Query.answerChunks_of_tokens _ hchunks, Query.answerChunks_of_tokens _ hchunks']
  have hsame : s.execute files (.query (fields text')) =
      s.execute files (.query (fields text)) := by
    simp only [execute, hanswer]
  obtain ⟨r, hr⟩ := s.execute_query (fields text)
  refine ⟨r, ?_, ?_⟩
  · rw [handleLine_query (fields_ne_nil hne), hr]
  · rw [handleLine_query (fields_ne_nil hne'), hsame, hr]

/-- Blanks that come and go around signs and beside other blanks, in a query that is refused with
the parts that it has. -/
theorem handleLine_of_respaced_refused :
    let s : Session := { config := {}, index := Trie.empty.addDocument 1 ["ä", "b"] }
    let r : Response := .failure "SEARCH_QUERY_INVALID_CLAUSE([(ä | b), &, c, d])"
    let text := "(ä|b )&c d"
    let text' := "( ä|b)&c \td"
    (∀ c ∈ text.toList, isBlank c = false →
      isAlphanumeric c = true ∨ c ∈ ['(', ')', '&', '|']) ∧
      (∃ c ∈ text.toList, isBlank c = false) ∧ Query.Respaced text.toList text'.toList ∧
      s.handleLine {} ("query " ++ text) = (some r, s, {}) ∧
      s.handleLine {} ("query " ++ text') = (some r, s, {}) := by
  intro s r text text'
  have hchars : ∀ c ∈ text.toList, isBlank c = false →
      isAlphanumeric c = true ∨ c ∈ ['(', ')', '&', '|'] := by
    have hall : (text.toList.all fun c =>
        isBlank c || (isAlphanumeric c || ['(', ')', '&', '|'].elem c)) = true := by decide +kernel
    intro c hc hblank
    simpa [hblank] using List.all_eq_true.mp hall c hc
  have hspaces : Query.Respaced text.toList text'.toList := by
    have htext : text.toList = ['('] ++ ['ä', '|', 'b', ' ', ')', '&', 'c', ' ', 'd'] := by
      decide +kernel
    have htext' : text'.toList = ['(', ' ', 'ä', '|', 'b', ')', '&', 'c', ' '] ++ ['\t', 'd'] := by
      decide +kernel
    have hopening : Query.Respacing (['('] ++ ['ä', '|', 'b', ' ', ')', '&', 'c', ' ', 'd'])
        (['('] ++ ' ' :: ['ä', '|', 'b', ' ', ')', '&', 'c', ' ', 'd']) :=
      .insert (by decide) (by decide +kernel)
    have hclosing : Query.Respacing
        (['(', ' ', 'ä', '|', 'b'] ++ ' ' :: [')', '&', 'c', ' ', 'd'])
        (['(', ' ', 'ä', '|', 'b'] ++ [')', '&', 'c', ' ', 'd']) :=
      .delete (by decide) (by decide +kernel)
    have htab : Query.Respacing (['(', ' ', 'ä', '|', 'b', ')', '&', 'c', ' '] ++ ['d'])
        (['(', ' ', 'ä', '|', 'b', ')', '&', 'c', ' '] ++ '\t' :: ['d']) :=
      .insert (by decide) (by decide +kernel)
    rw [htext, htext']
    exact .head hopening (.head hclosing (.single htab))
  have hne : ∃ c ∈ text.toList, isBlank c = false := ⟨'(', by decide, by decide⟩
  obtain ⟨r', hfirst, hsecond⟩ := handleLine_of_respaced hchars hne hspaces s {}
  have hr : (s.handleLine {} ("query " ++ text)).1 = some r := by decide +kernel
  rw [hfirst] at hr
  obtain rfl := Option.some.inj hr
  exact ⟨hchars, hne, hspaces, hfirst, hsecond⟩

end Session

end Concordance
