import Concordance.Session
import Concordance.Proofs.Query.Answer
import Concordance.Proofs.Query.Chunks

/-!
# The words of documents and of queries

Documents are cut into words in one place and queries in another, and both must cut in the same way:
a word that a document was indexed with has to be a word that a query can ask for. Where a text has
only characters that a query may have, the two agree on its words (`exists_ofChunks_words`). So a
word is asked for in a query that consists of it (`ofChunks_word`), and the document is among the
results exactly when it has the word (`results_word_iff`).
-/

namespace Concordance

open Text

namespace Query

/-- **The same words.** A text of alphanumeric characters and signs is a chunk of a query, and the
words of the chunk are those of the text. -/
theorem exists_ofChunks_words {text : String}
    (h : ∀ c ∈ text.toList, isAlphanumeric c = true ∨ c ∈ ['(', ')', '&', '|']) :
    ∃ ts, Token.ofChunks [text] = .ok ts ∧ ts.filterMap Token.word? = Text.words text := by
  obtain ⟨ts, hscan, hwords⟩ := Token.exists_scan?_words h []
  refine ⟨ts, ?_, hwords⟩
  rw [Token.ofChunks, Token.ofChunk, hscan, Token.ofChunks]
  simp [bind, Except.bind, pure, Except.pure]

/-- A word is a query of its own. -/
theorem ofChunks_word {w : String} (h : IsWord w) : ofChunks [w] = .ok (word w) := by
  obtain ⟨hne, hletters⟩ := h
  have hfields : fields w = [w] := by
    have hnonempty : w.toList ≠ [] := fun hnil => hne (String.toList_eq_nil_iff.mp hnil)
    have hinside : ∀ c ∈ w.toList, (!isBlank c) = true := by
      intro c hc
      simp [isBlank_of_isAlphanumeric (hletters c hc)]
    have hmaximal : MaximalRuns (fun c => !isBlank c) ([] ++ w.toList ++ []) [w.toList] :=
      .next nofun hnonempty hinside nofun (.none nofun)
    rw [List.nil_append, List.append_nil] at hmaximal
    rw [fields, hmaximal.runs_eq, List.map_singleton, String.ofList_toList]
  have htokens : Token.ofChunks (fields w) = .ok [.word w] := by
    refine Token.ofChunks_fields ?_
    have hread := Token.ofLine?_word ⟨hne, hletters⟩ (show Token.EndsWord [] from trivial)
    simpa [Token.ofLine?, Token.closeWord] using hread
  rw [ofChunks, ← hfields, htokens]
  rfl

/-- What holds of some words is true of one of them. -/
theorem Holds.exists_isTrue {isTrue : String → Prop} {q : Query} (h : q.Holds isTrue) :
    ∃ w, isTrue w := by
  induction q with
  | word w => exact ⟨w, h⟩
  | join op l r ihl ihr =>
    cases op with
    | and => exact ihl h.1
    | or => exact h.elim ihl ihr

/-- A document that no word has is in no answer. -/
theorem not_mem_of_answer {t : Trie} (ht : t.WellFormed) {d : DocId}
    (hd : ∀ w : String, d ∉ t.idsAt w.toList) {q : Query} {ids : List DocId}
    (h : answer t q = .ok ids) : d ∉ ids := by
  rw [answer_eq ht] at h
  split at h
  · cases h
  · cases h
    intro hmem
    obtain ⟨w, hw⟩ := (mem_listing.mp hmem).exists_isTrue
    exact hd w hw

/-- The results of a word are the documents that it has, if there are any. -/
theorem mem_answerChunks_word_iff {t : Trie} {w : String} (hw : IsWord w) {d : DocId} :
    (∃ ids, answerChunks t [w] = .ok ids ∧ d ∈ ids) ↔ d ∈ t.idsAt w.toList := by
  rw [answerChunks, ofChunks_word hw]
  show (∃ ids, answer t (.word w) = .ok ids ∧ d ∈ ids) ↔ _
  rw [answer, Trie.lookup?_eq]
  cases hfound : t.contains w with
  | true => simp
  | false =>
    have hnone : t.idsAt w.toList = [] := by
      rw [Trie.contains] at hfound
      by_contra hne
      rw [Trie.isSome_find?_of_idsAt_ne_nil hne] at hfound
      cases hfound
    simp [hnone]

end Query

/-- After a document has been indexed, a word has it exactly if it is among its words. -/
theorem Trie.mem_idsAt_addDocument {t : Trie} (ht : t.WellFormed) (d : DocId) (ws : List String)
    (w : String) : d ∈ (t.addDocument d ws).idsAt w.toList ↔ w ∈ ws := by
  rw [Trie.idsAt_addDocument d ws ht, List.mem_append, List.mem_filter]
  by_cases hw : w ∈ ws <;> simp [hw]

/-- The words of a text are its maximal alphanumeric runs. -/
theorem Text.words_eq_iff {text : String} {ws : List String} :
    words text = ws ↔ MaximalRuns isAlphanumeric text.toList (ws.map String.toList) := by
  rw [maximalRuns_iff]
  constructor
  · rintro rfl
    simp [words, Function.comp_def]
  · intro hruns
    simp [words, hruns, Function.comp_def]

namespace Session

/-- A query has results when its chunks have an answer. -/
theorem execute_query_eq_results_iff {s : Session} {files : Files} {chunks : List String}
    {ids : List DocId} :
    (s.execute files (.query chunks)).1 = .results ids ↔
      Query.answerChunks s.index chunks = .ok ids := by
  rw [execute]
  cases Query.answerChunks s.index chunks <;> simp [Response.ofError]

/-- **Indexing and asking.** The words of a text are its maximal alphanumeric runs in their order;
where the text could be a chunk of a query, they are the words of that chunk. So after a document
has been indexed with some texts, the query that consists of a word has it among its results
exactly if the word is one of the texts' words. If they have no words, no query has it. -/
theorem results_word_iff :
    (∀ text ws, words text = ws ↔ MaximalRuns isAlphanumeric text.toList (ws.map String.toList)) ∧
      (∀ text : String,
        (∀ c ∈ text.toList, isAlphanumeric c = true ∨ c ∈ ['(', ')', '&', '|']) →
        ∃ ts, Query.Token.ofChunks [text] = .ok ts ∧
          ts.filterMap Query.Token.word? = words text) ∧
      ∀ (s : Session) (files : Files), s.index.Reachable →
        ∀ (raw : String) (d : DocId) (texts : List String), DocId.parse? raw = some d → texts ≠ [] →
        ∃ command, Command.ofParts "index" (raw :: texts) = .ok command ∧
          let after := s.execute files command
          (∀ w, IsWord w → ∃ query, Command.ofParts "query" [w] = .ok query ∧
            ((∃ ids, (after.2.1.execute after.2.2 query).1 = .results ids ∧ d ∈ ids) ↔
              w ∈ wordsOfAll texts)) ∧
          (wordsOfAll texts = [] → ∀ (chunks : List String) (ids : List DocId),
            (after.2.1.execute after.2.2 (.query chunks)).1 = .results ids → d ∉ ids) := by
  refine ⟨fun text ws => words_eq_iff, fun text => Query.exists_ofChunks_words, ?_⟩
  intro s files hs raw d texts hraw hne
  obtain ⟨text, rest, rfl⟩ := List.exists_cons_of_ne_nil hne
  have hmem := Trie.mem_idsAt_addDocument hs.wellFormed d (wordsOfAll (text :: rest))
  refine ⟨.index d (wordsOfAll (text :: rest)), ?_, fun w hw => ⟨.query [w], rfl, ?_⟩, ?_⟩
  · simp only [Command.ofParts, Command.indexOfArgs, hraw]
  · rw [← hmem w, ← Query.mem_answerChunks_word_iff hw]
    exact exists_congr fun ids => and_congr_left' execute_query_eq_results_iff
  · intro hnone chunks ids hresults
    obtain ⟨q, _, hanswer⟩ := exists_of_bind_eq_ok (execute_query_eq_results_iff.mp hresults)
    have habsent : ∀ w : String, d ∉ (s.index.addDocument d (wordsOfAll (text :: rest))).idsAt
        w.toList := by
      intro w
      rw [hmem, hnone]
      exact List.not_mem_nil
    exact Query.not_mem_of_answer (hs.wellFormed.addDocument d _) habsent hanswer

/-- A document that had other words, then words that start with each other, among signs and blanks,
and then none. -/
theorem results_word_iff_replaced :
    let s : Session := { config := {}, index := Trie.empty.addDocument 7 ["tea", "b"] }
    let after := (s.execute {} (.index 7 ["größe", "2", "gr", "größe"])).2.1
    let emptied := (after.execute {} (.index 7 [])).2.1
    s.index.Reachable ∧ DocId.parse? "007" = some 7 ∧
      Command.ofParts "index" ["007", "größe/2", "(gr&größe"] =
        .ok (.index 7 ["größe", "2", "gr", "größe"]) ∧
      (∃ ts, Query.Token.ofChunks ["(gr&größe"] = .ok ts ∧
        ts.filterMap Query.Token.word? = ["gr", "größe"]) ∧
      (∃ ids, (after.execute {} (.query ["gr"])).1 = .results ids ∧ 7 ∈ ids) ∧
      (¬∃ ids, (after.execute {} (.query ["b"])).1 = .results ids ∧ 7 ∈ ids) ∧
      ∀ chunks ids, (emptied.execute {} (.query chunks)).1 = .results ids → 7 ∉ ids := by
  intro s after emptied
  have hs : s.index.Reachable := .edit (.add 7 ["tea", "b"]) .fresh
  have hafter : after.index.Reachable := .edit (.add 7 ["größe", "2", "gr", "größe"]) hs
  have hparts : Command.ofParts "index" ["007", "größe/2", "(gr&größe"] =
      .ok (.index 7 ["größe", "2", "gr", "größe"]) := by decide +kernel
  have hblank : Command.ofParts "index" ["7", "--"] = .ok (.index 7 []) := by decide +kernel
  have hchunk : "(gr&größe".toList.all
      fun c => isAlphanumeric c || ['(', ')', '&', '|'].contains c := by decide +kernel
  obtain ⟨_, hscanned, hsession⟩ := results_word_iff
  obtain ⟨ts, hts, hwords⟩ := hscanned "(gr&größe" fun c hc => by
    simpa using List.all_eq_true.mp hchunk c hc
  obtain ⟨command, hcommand, hresults, _⟩ :=
    hsession s {} hs "007" 7 ["größe/2", "(gr&größe"] (by decide) (by decide)
  obtain rfl := Except.ok.inj (hparts.symm.trans hcommand)
  obtain ⟨_, hgr, hfound⟩ := hresults "gr" (by decide +kernel)
  obtain ⟨_, hb, hgone⟩ := hresults "b" (by decide +kernel)
  cases hgr
  cases hb
  obtain ⟨command, hcommand, _, hnone⟩ :=
    hsession after {} hafter "7" 7 ["--"] (by decide) (by decide)
  obtain rfl := Except.ok.inj (hblank.symm.trans hcommand)
  exact ⟨hs, by decide, hparts, ⟨ts, hts, hwords.trans (by decide +kernel)⟩,
    hfound.mpr (by decide +kernel), fun h => absurd (hgone.mp h) (by decide +kernel),
    hnone (by decide +kernel)⟩

end Session

end Concordance
