import Concordance.Proofs.Query.Printing
import Mathlib.Data.List.Chain

/-!
# Tokens and the chunks that spell them

The tokens of a chunk are the only ones that spell it (`ofChunk_eq_ok_iff`). They are words and
signs, with no two words side by side: between these the chunk would have nothing. So a list of
chunks is read as tokens exactly when it comes from a division of the tokens into such groups, each
of them spelled by one chunk (`ofChunks_eq_ok_iff`). What can go wrong is a character that is
neither alphanumeric nor a sign; the first chunk with one is reported (`ofChunks_eq_error_iff`).
`ofChunks_spelled` has both directions.
-/

namespace Concordance.Query.Token

open Text

/-- The text of some tokens, with nothing between them. -/
def texts (ts : List Token) : String :=
  String.join (ts.map text)

/-- A chunk of which every character may stand in a query: it is alphanumeric or a sign. -/
def Readable (chunk : String) : Prop :=
  ∀ c ∈ chunk.toList, isAlphanumeric c = true ∨ c ∈ ['(', ')', '&', '|']

instance (chunk : String) : Decidable (Readable chunk) :=
  List.decidableBAll _ chunk.toList

/-- The word that a token is, if it is one. -/
def word? : Token → Option String
  | word w => some w
  | _ => none

/-- Two tokens that can be told apart when nothing stands between them: not both are words. -/
def Apart (t u : Token) : Prop :=
  t.word? = none ∨ u.word? = none

instance : DecidableRel Apart :=
  fun t u => inferInstanceAs (Decidable (t.word? = none ∨ u.word? = none))

/-- Tokens that one chunk can hold. -/
structure IsGroup (ts : List Token) : Prop where
  words : ∀ w, word w ∈ ts → IsWord w
  apart : ts.IsChain Apart

/-! ## Signs -/

/-- Signs are single characters that are in no word. -/
theorem exists_ofSign? {c : Char} (h : c ∈ ['(', ')', '&', '|']) :
    ∃ t, ofSign? c = some t ∧ t.word? = none ∧ isAlphanumeric c = false := by
  simp only [List.mem_cons, List.not_mem_nil, or_false] at h
  obtain rfl | rfl | rfl | rfl := h
  · exact ⟨.opening, rfl, rfl, by decide⟩
  · exact ⟨.closing, rfl, rfl, by decide⟩
  · exact ⟨.connective .and, rfl, rfl, by decide⟩
  · exact ⟨.connective .or, rfl, rfl, by decide⟩

theorem mem_signs_of_ofSign? {c : Char} {t : Token} (h : ofSign? c = some t) :
    c ∈ ['(', ')', '&', '|'] := by
  unfold ofSign? at h
  split at h <;> simp_all

theorem toList_text_of_ofSign? {c : Char} {t : Token} (h : ofSign? c = some t) :
    t.text.toList = [c] := by
  unfold ofSign? at h
  split at h <;> cases h <;> rfl

theorem word?_of_ofSign? {c : Char} {t : Token} (h : ofSign? c = some t) : t.word? = none := by
  unfold ofSign? at h
  split at h <;> cases h <;> rfl

/-- A token is a word or a sign. -/
theorem word_or_sign (t : Token) :
    (∃ w, t = word w) ∨ ∃ c, ofSign? c = some t ∧ isBlank c = false ∧ isAlphanumeric c = false := by
  cases t with
  | word w => exact Or.inl ⟨w, rfl⟩
  | opening => exact Or.inr ⟨'(', rfl, by decide, by decide⟩
  | closing => exact Or.inr ⟨')', rfl, by decide, by decide⟩
  | connective op =>
    cases op with
    | and => exact Or.inr ⟨'&', rfl, by decide, by decide⟩
    | or => exact Or.inr ⟨'|', rfl, by decide, by decide⟩

/-! ## One chunk -/

theorem toList_texts (ts : List Token) : (texts ts).toList = ts.flatMap fun t => t.text.toList := by
  rw [texts, String.toList_join, List.flatMap_map]

/-- The characters of words and signs may stand in a query. -/
theorem IsGroup.readable {ts : List Token} (h : IsGroup ts) : Readable (texts ts) := by
  intro c hc
  rw [toList_texts, List.mem_flatMap] at hc
  obtain ⟨t, ht, hc⟩ := hc
  obtain ⟨w, rfl⟩ | ⟨sign, hsign, -, -⟩ := word_or_sign t
  · exact Or.inl ((h.words w ht).2 c hc)
  · rw [toList_text_of_ofSign? hsign, List.mem_singleton] at hc
    exact Or.inr (hc ▸ mem_signs_of_ofSign? hsign)

/-- An open word of alphanumeric characters is a word. -/
theorem isWord_ofList_reverse {c : Char} {pending : List Char}
    (h : ∀ d ∈ c :: pending, isAlphanumeric d = true) :
    IsWord (String.ofList (c :: pending).reverse) := by
  refine ⟨fun hnil => ?_, fun d hd => ?_⟩
  · have hlist := congrArg String.toList hnil
    simp at hlist
  · rw [String.toList_ofList, List.mem_reverse] at hd
    exact h d hd

/-- An open word that is complete is a group of one word, or of nothing. -/
theorem isGroup_closeWord {pending : List Char} (h : ∀ c ∈ pending, isAlphanumeric c = true) :
    IsGroup (closeWord pending) ∧ (texts (closeWord pending)).toList = pending.reverse := by
  cases pending with
  | nil => exact ⟨⟨nofun, .nil⟩, rfl⟩
  | cons c pending =>
    refine ⟨⟨fun w hw => ?_, .singleton _⟩, ?_⟩
    · obtain rfl := word.inj (List.mem_singleton.mp hw)
      exact isWord_ofList_reverse h
    · simp [closeWord, toList_texts, text]

/-- A sign can stand between any two groups. -/
theorem IsGroup.append_sign {before later : List Token} (hbefore : IsGroup before)
    (hlater : IsGroup later) {c : Char} {t : Token} (hsign : ofSign? c = some t) :
    IsGroup (before ++ t :: later) := by
  refine ⟨fun w hw => ?_, ?_⟩
  · rcases List.mem_append.mp hw with hw | hw
    · exact hbefore.words w hw
    rcases List.mem_cons.mp hw with rfl | hw
    · cases word?_of_ofSign? hsign
    · exact hlater.words w hw
  · have hright : (t :: later).IsChain Apart :=
      List.isChain_cons.mpr ⟨fun u _ => Or.inl (word?_of_ofSign? hsign), hlater.apart⟩
    refine List.isChain_append.mpr ⟨hbefore.apart, hright, fun u _ v hv => ?_⟩
    obtain rfl := Option.some.inj hv
    exact Or.inr (word?_of_ofSign? hsign)

/-- The tokens that are read spell the rest of a chunk, after the characters of an open word. -/
theorem isGroup_of_scan? {cs pending : List Char} {ts : List Token}
    (hpending : ∀ c ∈ pending, isAlphanumeric c = true) (h : scan? pending cs = some ts) :
    IsGroup ts ∧ (texts ts).toList = pending.reverse ++ cs := by
  induction cs generalizing pending ts with
  | nil =>
    obtain rfl := Option.some.inj h
    rw [List.append_nil]
    exact isGroup_closeWord hpending
  | cons c cs ih =>
    rw [scan?] at h
    cases hsign : ofSign? c with
    | some t =>
      rw [hsign] at h
      obtain ⟨later, hlater, rfl⟩ := Option.map_eq_some_iff.mp h
      have hnone : ∀ d ∈ ([] : List Char), isAlphanumeric d = true := List.forall_mem_nil _
      obtain ⟨hgroup, htext⟩ := ih hnone hlater
      obtain ⟨hword, hwordText⟩ := isGroup_closeWord hpending
      refine ⟨hword.append_sign hgroup hsign, ?_⟩
      rw [toList_texts] at htext hwordText ⊢
      rw [List.flatMap_append, List.flatMap_cons, htext, hwordText, toList_text_of_ofSign? hsign]
      rfl
    | none =>
      rw [hsign] at h
      cases hletter : isAlphanumeric c with
      | false => simp [hletter] at h
      | true =>
        simp only [hletter, if_true] at h
        have hopen : ∀ d ∈ c :: pending, isAlphanumeric d = true :=
          List.forall_mem_cons.mpr ⟨hletter, hpending⟩
        have hread := ih hopen h
        rwa [List.reverse_cons, List.append_assoc] at hread

/-- A chunk has no blanks, so its tokens are those of the line that it is. -/
theorem ofLine?_eq_scan? {cs : List Char} (h : ∀ c ∈ cs, isBlank c = false)
    (pending : List Char) : ofLine? pending cs = scan? pending cs := by
  induction cs generalizing pending with
  | nil => rfl
  | cons c cs ih =>
    obtain ⟨hc, hcs⟩ := List.forall_mem_cons.mp h
    rw [ofLine?, scan?, hc, if_neg (by decide)]
    cases ofSign? c with
    | some t => simp only [ih hcs]
    | none => simp only [ih hcs]

theorem isBlank_of_readable {chunk : String} (h : Readable chunk) {c : Char}
    (hc : c ∈ chunk.toList) : isBlank c = false := by
  rcases h c hc with hletter | hsign
  · exact isBlank_of_isAlphanumeric hletter
  · simp only [List.mem_cons, List.not_mem_nil, or_false] at hsign
    obtain rfl | rfl | rfl | rfl := hsign <;> decide

/-- The text of a group is read as the group. -/
theorem IsGroup.scan?_texts {ts : List Token} (h : IsGroup ts) :
    scan? [] (texts ts).toList = some ts := by
  rw [← ofLine?_eq_scan? fun c hc => isBlank_of_readable h.readable hc, toList_texts]
  obtain ⟨hwords, hapart⟩ := h
  induction ts with
  | nil => rfl
  | cons t ts ih =>
    obtain ⟨hnext, hlater⟩ := List.isChain_cons.mp hapart
    have hread := ih (fun w hw => hwords w (List.mem_cons_of_mem _ hw)) hlater
    rw [List.flatMap_cons]
    obtain ⟨w, rfl⟩ | ⟨c, hsign, hblank, -⟩ := word_or_sign t
    · -- What follows a word is nothing or a sign, which ends it.
      have hend : EndsWord (ts.flatMap fun t => t.text.toList) := by
        cases ts with
        | nil => trivial
        | cons u ts =>
          obtain ⟨w', rfl⟩ | ⟨c, hsign, -, hletter⟩ := word_or_sign u
          · exact (hnext (word w') rfl).elim nofun nofun
          · rw [List.flatMap_cons, toList_text_of_ofSign? hsign]
            exact hletter
      show ofLine? [] (w.toList ++ _) = _
      rw [ofLine?_word (hwords w List.mem_cons_self) hend, hread]
      rfl
    · rw [toList_text_of_ofSign? hsign, List.singleton_append, ofLine?_sign hblank hsign, hread]
      rfl

/-- **One chunk.** The tokens of a chunk are a group that spells it, and no other group does. -/
theorem ofChunk_eq_ok_iff {chunk : String} {ts : List Token} :
    ofChunk chunk = .ok ts ↔ IsGroup ts ∧ texts ts = chunk := by
  rw [ofChunk]
  constructor
  · intro h
    cases hscan : scan? [] chunk.toList with
    | none => rw [hscan] at h; cases h
    | some ts' =>
      rw [hscan] at h
      cases h
      have hnone : ∀ c ∈ ([] : List Char), isAlphanumeric c = true := List.forall_mem_nil _
      obtain ⟨hgroup, htext⟩ := isGroup_of_scan? hnone hscan
      exact ⟨hgroup, String.toList_inj.mp htext⟩
  · rintro ⟨hgroup, rfl⟩
    rw [hgroup.scan?_texts]

theorem word?_closeWord (pending : List Char) :
    (closeWord pending).filterMap word? = (closeRun pending).map String.ofList := by
  cases pending <;> rfl

/-- The words among the tokens of the rest of a chunk are the runs of the rest, both after the same
open word. -/
theorem exists_scan?_words {cs : List Char}
    (h : ∀ c ∈ cs, isAlphanumeric c = true ∨ c ∈ ['(', ')', '&', '|']) (pending : List Char) :
    ∃ ts, scan? pending cs = some ts ∧
      ts.filterMap word? = (runsFrom isAlphanumeric pending cs).map String.ofList := by
  induction cs generalizing pending with
  | nil => exact ⟨closeWord pending, rfl, word?_closeWord pending⟩
  | cons c cs ih =>
    obtain ⟨hc, hcs⟩ := List.forall_mem_cons.mp h
    rcases hc with hletter | hsign
    · obtain ⟨ts, hscan, hwords⟩ := ih hcs (c :: pending)
      rw [scan?, ofSign?_of_isAlphanumeric hletter, runsFrom, if_pos hletter]
      simp only [hletter, if_true]
      exact ⟨ts, hscan, hwords⟩
    · obtain ⟨t, ht, hnone, hletter⟩ := exists_ofSign? hsign
      obtain ⟨ts, hscan, hwords⟩ := ih hcs []
      have hruns : runsFrom isAlphanumeric pending (c :: cs) =
          closeRun pending ++ runsFrom isAlphanumeric [] cs :=
        runsFrom_append_cons hletter pending [] cs
      rw [scan?, ht, hruns, List.map_append, ← word?_closeWord, ← hwords]
      refine ⟨closeWord pending ++ t :: ts, ?_, ?_⟩
      · simp only [hscan, Option.map_some]
      · rw [List.filterMap_append, List.filterMap_cons_none hnone]

/-- A chunk has tokens when every character of it may stand in a query. -/
theorem exists_ofChunk_iff {chunk : String} : (∃ ts, ofChunk chunk = .ok ts) ↔ Readable chunk := by
  constructor
  · rintro ⟨ts, h⟩
    obtain ⟨hgroup, rfl⟩ := ofChunk_eq_ok_iff.mp h
    exact hgroup.readable
  · intro h
    obtain ⟨ts, hscan, -⟩ := exists_scan?_words h []
    exact ⟨ts, by rw [ofChunk, hscan]⟩

/-- A chunk that is refused is reported as a whole. -/
theorem ofChunk_eq_error_iff {chunk : String} {e : SearchError} :
    ofChunk chunk = .error e ↔ ¬Readable chunk ∧ e = .invalidChunk chunk := by
  rw [← exists_ofChunk_iff, ofChunk]
  cases scan? [] chunk.toList with
  | some ts => simp
  | none => simp [eq_comm]

/-! ## All chunks -/

theorem ofChunks_cons_eq_ok_iff {chunk : String} {chunks : List String} {ts : List Token} :
    ofChunks (chunk :: chunks) = .ok ts ↔
      ∃ group later, ofChunk chunk = .ok group ∧ ofChunks chunks = .ok later ∧
        group ++ later = ts := by
  rw [ofChunks]
  cases ofChunk chunk with
  | error e => simp [bind, Except.bind]
  | ok group => cases ofChunks chunks <;> simp [bind, Except.bind, pure, Except.pure]

theorem ofChunks_cons_eq_error_iff {chunk : String} {chunks : List String} {e : SearchError} :
    ofChunks (chunk :: chunks) = .error e ↔
      ofChunk chunk = .error e ∨
        (∃ group, ofChunk chunk = .ok group) ∧ ofChunks chunks = .error e := by
  rw [ofChunks]
  cases ofChunk chunk with
  | error e' => simp [bind, Except.bind]
  | ok group => cases ofChunks chunks <;> simp [bind, Except.bind, pure, Except.pure]

/-- **All chunks.** Chunks are read as the tokens of which they spell the groups, one chunk for each
group. -/
theorem ofChunks_eq_ok_iff {chunks : List String} {ts : List Token} :
    ofChunks chunks = .ok ts ↔
      ∃ groups : List (List Token), (∀ group ∈ groups, IsGroup group) ∧
        groups.map texts = chunks ∧ groups.flatten = ts := by
  induction chunks generalizing ts with
  | nil =>
    constructor
    · rintro ⟨⟩
      exact ⟨[], List.forall_mem_nil _, rfl, rfl⟩
    · rintro ⟨groups, -, hchunks, rfl⟩
      obtain rfl := List.map_eq_nil_iff.mp hchunks
      rfl
  | cons chunk chunks ih =>
    rw [ofChunks_cons_eq_ok_iff]
    constructor
    · rintro ⟨group, later, hchunk, hlater, rfl⟩
      obtain ⟨hgroup, rfl⟩ := ofChunk_eq_ok_iff.mp hchunk
      obtain ⟨groups, hgroups, rfl, rfl⟩ := ih.mp hlater
      exact ⟨group :: groups, List.forall_mem_cons.mpr ⟨hgroup, hgroups⟩, rfl, rfl⟩
    · rintro ⟨groups, hgroups, hchunks, rfl⟩
      obtain ⟨group, later, rfl, rfl, rfl⟩ := List.map_eq_cons_iff.mp hchunks
      obtain ⟨hgroup, hlater⟩ := List.forall_mem_cons.mp hgroups
      exact ⟨group, later.flatten, ofChunk_eq_ok_iff.mpr ⟨hgroup, rfl⟩,
        ih.mpr ⟨later, hlater, rfl, rfl⟩, rfl⟩

/-- Chunks are read when all of them are. -/
theorem exists_ofChunks_iff {chunks : List String} :
    (∃ ts, ofChunks chunks = .ok ts) ↔ ∀ chunk ∈ chunks, Readable chunk := by
  constructor
  · rintro ⟨ts, h⟩ chunk hchunk
    obtain ⟨groups, hgroups, rfl, -⟩ := ofChunks_eq_ok_iff.mp h
    obtain ⟨group, hgroup, rfl⟩ := List.mem_map.mp hchunk
    exact (hgroups group hgroup).readable
  · intro h
    induction chunks with
    | nil => exact ⟨[], rfl⟩
    | cons chunk chunks ih =>
      obtain ⟨hfirst, hlater⟩ := List.forall_mem_cons.mp h
      obtain ⟨group, hgroup⟩ := exists_ofChunk_iff.mpr hfirst
      obtain ⟨ts, hts⟩ := ih hlater
      exact ⟨group ++ ts, ofChunks_cons_eq_ok_iff.mpr ⟨group, ts, hgroup, hts, rfl⟩⟩

/-- The first chunk that cannot be read is reported. -/
theorem ofChunks_eq_error_iff {chunks : List String} {e : SearchError} :
    ofChunks chunks = .error e ↔
      ∃ before chunk after, chunks = before ++ chunk :: after ∧
        (∀ c ∈ before, Readable c) ∧ ¬Readable chunk ∧ e = .invalidChunk chunk := by
  constructor
  · intro h
    induction chunks with
    | nil => cases h
    | cons chunk chunks ih =>
      rcases ofChunks_cons_eq_error_iff.mp h with hchunk | ⟨hchunk, hlater⟩
      · exact ⟨[], chunk, chunks, rfl, List.forall_mem_nil _, ofChunk_eq_error_iff.mp hchunk⟩
      · obtain ⟨before, bad, after, rfl, hbefore, hbad⟩ := ih hlater
        exact ⟨chunk :: before, bad, after, rfl,
          List.forall_mem_cons.mpr ⟨exists_ofChunk_iff.mp hchunk, hbefore⟩, hbad⟩
  · rintro ⟨before, chunk, after, rfl, hbefore, hbad⟩
    induction before with
    | nil => exact ofChunks_cons_eq_error_iff.mpr (Or.inl (ofChunk_eq_error_iff.mpr hbad))
    | cons first before ih =>
      obtain ⟨hfirst, hlater⟩ := List.forall_mem_cons.mp hbefore
      exact ofChunks_cons_eq_error_iff.mpr (Or.inr ⟨exists_ofChunk_iff.mpr hfirst, ih hlater⟩)

theorem texts_flatten (groups : List (List Token)) :
    texts groups.flatten = String.join (groups.map texts) := by
  induction groups with
  | nil => rfl
  | cons group groups ih =>
    rw [List.map_cons, String.join_cons, ← ih, List.flatten_cons]
    simp [texts]

/-- **Chunks and tokens.** Chunks have tokens exactly when all their characters may stand in a
query; otherwise the first chunk with another character is reported. The tokens of chunks have
words for words, and spell the chunks. Any tokens with words for words come back from chunks that
spell them, if no two words that are neighbours fall into one chunk. -/
theorem ofChunks_spelled :
    (∀ chunks : List String,
      ((∃ ts, ofChunks chunks = .ok ts) ↔ ∀ chunk ∈ chunks, Readable chunk) ∧
      (∀ e, ofChunks chunks = .error e ↔
        ∃ before chunk after, chunks = before ++ chunk :: after ∧
          (∀ c ∈ before, Readable c) ∧ ¬Readable chunk ∧ e = .invalidChunk chunk) ∧
      ∀ ts, ofChunks chunks = .ok ts →
        (∀ w, word w ∈ ts → IsWord w) ∧ texts ts = String.join chunks) ∧
    ∀ (ts : List Token) (groups : List (List Token)), (∀ w, word w ∈ ts → IsWord w) →
      groups.flatten = ts → (∀ group ∈ groups, group.IsChain Apart) →
      ofChunks (groups.map texts) = .ok ts := by
  refine ⟨fun chunks => ⟨exists_ofChunks_iff, fun e => ofChunks_eq_error_iff, fun ts h => ?_⟩, ?_⟩
  · obtain ⟨groups, hgroups, rfl, rfl⟩ := ofChunks_eq_ok_iff.mp h
    refine ⟨fun w hw => ?_, texts_flatten groups⟩
    obtain ⟨group, hgroup, hw⟩ := List.mem_flatten.mp hw
    exact (hgroups group hgroup).words w hw
  · rintro ts groups hwords rfl hapart
    refine ofChunks_eq_ok_iff.mpr ⟨groups, fun group hgroup => ⟨fun w hw => ?_, ?_⟩, rfl, rfl⟩
    · exact hwords w (List.mem_flatten.mpr ⟨group, hgroup, hw⟩)
    · exact hapart group hgroup

/-- Chunks with a word that is no ASCII text, an empty chunk, two words in a row in two chunks; and
a refused chunk whose beginning has been read when its bad character comes. -/
theorem ofChunks_spelled_refused :
    let groups : List (List Token) := [[.opening, .word "größe2"], [.word "b"], [],
      [.closing, .connective .and, .word "٣"]]
    (∀ w, word w ∈ groups.flatten → IsWord w) ∧ (∀ group ∈ groups, group.IsChain Apart) ∧
      groups.map texts = ["(größe2", "b", "", ")&٣"] ∧
      ofChunks ["(größe2", "b", "", ")&٣"] = .ok groups.flatten ∧
      ofChunks ["ok", "a&b-c", "d.e"] = .error (.invalidChunk "a&b-c") := by
  intro groups
  have hwords : ∀ w, word w ∈ groups.flatten → IsWord w := by
    intro w hw
    simp only [groups, List.flatten_cons, List.flatten_nil, List.cons_append, List.nil_append,
      List.mem_cons, List.not_mem_nil, or_false, word.injEq, reduceCtorEq, false_or] at hw
    obtain rfl | rfl | rfl := hw <;> decide +kernel
  have hapart : ∀ group ∈ groups, group.IsChain Apart := by decide
  have htexts : groups.map texts = ["(größe2", "b", "", ")&٣"] := by decide
  obtain ⟨hread, hback⟩ := ofChunks_spelled
  obtain ⟨_, hrefused, _⟩ := hread ["ok", "a&b-c", "d.e"]
  refine ⟨hwords, hapart, htexts, htexts ▸ hback _ groups hwords rfl hapart, ?_⟩
  exact (hrefused _).mpr ⟨["ok"], "a&b-c", ["d.e"], rfl, by decide +kernel, by decide +kernel, rfl⟩

end Concordance.Query.Token
