import Concordance.Proofs.Trie.Contents
import Concordance.Proofs.Trie.Reachable
import Concordance.Query.Answer

/-!
# What a query answers

A query is a boolean formula over its words (`Query.Holds`), and its answer lists the documents
for which the formula is true, where a word is true of the documents that it has. The order of
the list is that of `Query.listing`: a conjunction keeps the order of its left operand, and a
disjunction puts what only the right operand has after the left one.

* `answer_eq`: evaluation either stops at the leftmost word that leads nowhere, or gives the
  listing.
* `mem_listing`, `nodup_listing`: the listing holds exactly the documents of the formula, each
  once.
* `answer_of_reachable`: both for every index, and that mistakes in the query come first.
-/

namespace Concordance.Query

/-- Whether a query holds as a boolean formula, by the words that are true. -/
def Holds (isTrue : String → Prop) : Query → Prop
  | word w => isTrue w
  | join .and l r => l.Holds isTrue ∧ r.Holds isTrue
  | join .or l r => l.Holds isTrue ∨ r.Holds isTrue

/-- The documents of a query in the order of its answer, by the documents of the words. -/
def listing (docs : String → List DocId) : Query → List DocId
  | word w => docs w
  | join .and l r => (l.listing docs).filter (· ∈ r.listing docs)
  | join .or l r => l.listing docs ++ (r.listing docs).filter (· ∉ l.listing docs)

/-- The leftmost word of a query that leads nowhere in an index. -/
def firstMissing? (t : Trie) (q : Query) : Option String :=
  q.words.find? fun w => !t.contains w

/-! ## One connective -/

/-- A conjunction keeps the left operand's documents that the right one has, in their order. -/
theorem combine_and {l : List DocId} (hl : l.Nodup) (r : List DocId) :
    combine .and l r = l.filter (· ∈ r) := by
  have hfilter : l.filter r.contains = l.filter (· ∈ r) := by
    refine List.filter_congr fun d _ => ?_
    rw [List.contains_eq_mem]
  rw [combine, hfilter]
  exact Trie.distinctIds_of_nodup (hl.filter _)

/-- A disjunction puts what only the right operand has after the left one's documents. -/
theorem combine_or {l r : List DocId} (hl : l.Nodup) (hr : r.Nodup) :
    combine .or l r = l ++ r.filter (· ∉ l) := by
  have hleft : l.foldl (fun seen d => Trie.addId d seen) [] = l :=
    Trie.distinctIds_of_nodup hl
  rw [combine, Trie.distinctIds, List.foldl_append, hleft]
  exact Trie.foldl_addId_eq hr

/-! ## The listing -/

/-- No document is listed twice. -/
theorem nodup_listing {docs : String → List DocId} (hdocs : ∀ w, (docs w).Nodup) (q : Query) :
    (q.listing docs).Nodup := by
  induction q with
  | word w => exact hdocs w
  | join op l r ihl ihr =>
    cases op with
    | and => exact ihl.filter _
    | or =>
      -- The right part keeps only what the left one does not list.
      refine List.nodup_append.mpr ⟨ihl, ihr.filter _, ?_⟩
      rintro a ha b hb rfl
      have hnot : a ∉ l.listing docs := by simpa using (List.mem_filter.mp hb).2
      exact hnot ha

/-- The listing holds the documents for which the formula is true. -/
theorem mem_listing {docs : String → List DocId} {q : Query} {d : DocId} :
    d ∈ q.listing docs ↔ q.Holds fun w => d ∈ docs w := by
  induction q with
  | word w => exact Iff.rfl
  | join op l r ihl ihr =>
    cases op with
    | and =>
      rw [listing, Holds, List.mem_filter, ← ihl, ← ihr]
      simp
    | or =>
      rw [listing, Holds, List.mem_append, List.mem_filter, ← ihl, ← ihr]
      by_cases hl : d ∈ l.listing docs <;> simp [hl]

/-! ## Evaluation -/

/-- Evaluation goes through the words from left to right and stops at the first that leads
nowhere; if there is none, it gives the listing. -/
theorem answer_eq {t : Trie} (h : t.WellFormed) (q : Query) :
    answer t q =
      match q.firstMissing? t with
      | some w => .error (.notIndexed w)
      | none => .ok (q.listing fun w => t.idsAt w.toList) := by
  induction q with
  | word w =>
    rw [answer, Trie.lookup?_eq]
    cases hw : t.contains w <;> simp [firstMissing?, words, hw, listing]
  | join op l r ihl ihr =>
    -- The words of the left operand come first, as its evaluation does.
    have hsplit : (join op l r).firstMissing? t = (l.firstMissing? t).or (r.firstMissing? t) := by
      rw [firstMissing?, words, List.find?_append]
      rfl
    rw [answer, ihl, ihr, hsplit]
    cases hl : l.firstMissing? t with
    | some w => rfl
    | none =>
      cases hr : r.firstMissing? t with
      | some w => rfl
      | none =>
        have hnodup := nodup_listing fun w => h.nodup_idsAt w.toList
        cases op with
        | and => exact congrArg Except.ok (combine_and (hnodup l) _)
        | or => exact congrArg Except.ok (combine_or (hnodup l) (hnodup r))

/-- **What a query answers.** A mistake in the query is reported whatever the index holds.
Otherwise, and for every query tree: the leftmost word that leads nowhere is reported; if there
is none, the answer is the listing by the documents of the words, which lists each document at
most once and exactly those for which the formula is true. -/
theorem answer_of_reachable {t : Trie} (ht : t.Reachable) :
    (∀ chunks e, ofChunks chunks = .error e → answerChunks t chunks = .error e) ∧
      (∀ chunks q, ofChunks chunks = .ok q → answerChunks t chunks = answer t q) ∧
      ∀ q : Query,
        (∀ w, q.words.find? (fun w => !t.contains w) = some w →
          answer t q = .error (.notIndexed w)) ∧
        ((∀ w ∈ q.words, t.contains w = true) →
          ∃ docs : String → List DocId, (∀ w ∈ q.words, t.lookup? w = some (docs w)) ∧
            answer t q = .ok (q.listing docs) ∧ (q.listing docs).Nodup ∧
            ∀ d, d ∈ q.listing docs ↔ q.Holds fun w => d ∈ docs w) := by
  refine ⟨fun chunks e he => ?_, fun chunks q hq => ?_, fun q => ⟨fun w hw => ?_, fun hall => ?_⟩⟩
  · rw [answerChunks, he]
    rfl
  · rw [answerChunks, hq]
    rfl
  · have hmissing : q.firstMissing? t = some w := hw
    rw [answer_eq ht.wellFormed, hmissing]
  · have hnone : q.firstMissing? t = none := by
      refine List.find?_eq_none.mpr fun w hw => ?_
      simp [hall w hw]
    refine ⟨fun w => t.idsAt w.toList, fun w hw => ?_, ?_, ?_, fun d => mem_listing⟩
    · rw [Trie.lookup?_eq, if_pos (hall w hw)]
    · rw [answer_eq ht.wellFormed, hnone]
    · exact nodup_listing (fun w => ht.wellFormed.nodup_idsAt w.toList) q

/-- An index after three additions: a mistake in a query comes before a missing word, the
leftmost missing word is reported, and the order of an answer is that of its left operand. -/
theorem answer_of_additions :
    let t := Trie.applyAll [.add 1 ["ab", "c"], .add 3 ["a", "c"], .add 1 ["b", "c"]] .empty
    let q := join .and (join .or (word "b") (word "a")) (word "c")
    t.Reachable ∧ (∀ w ∈ q.words, t.contains w = true) ∧
      answerChunks t ["z", "&", "(b"] = .error .unclosedParenthesis ∧
      answer t (join .or (join .or q (word "z")) (word "y")) = .error (.notIndexed "z") ∧
      answer t q = .ok [1, 3] := by
  intro t q
  have ht : t.Reachable := Trie.Reachable.fresh.applyAll _
  have hall : ∀ w ∈ q.words, t.contains w = true := by decide
  obtain ⟨hmistake, -, hquery⟩ := answer_of_reachable ht
  obtain ⟨docs, hdocs, hanswer, -, -⟩ := (hquery q).2 hall
  refine ⟨ht, hall, hmistake _ _ rfl, (hquery _).1 "z" rfl, ?_⟩
  have hb : docs "b" = [1] := Option.some.inj (hdocs "b" (by decide)).symm
  have ha : docs "a" = [3] := Option.some.inj (hdocs "a" (by decide)).symm
  have hc : docs "c" = [3, 1] := Option.some.inj (hdocs "c" (by decide)).symm
  rw [hanswer]
  simp [q, listing, hb, ha, hc]

end Concordance.Query
