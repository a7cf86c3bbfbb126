import Concordance.Proofs.Arena.Nodes

/-!
# What is listed and counted in the array

The loops over the array list the words and the documents of the index completely, in order, and each
once, and the statistics are the sizes of the sets that are listed. All this is put in terms of single
look-ups in `lists_of_reachable`.
-/

namespace Concordance.Arena

variable {a : Arena} {t : Trie}

/-- What a look-up in the array finds is what one in the trie finds. -/
theorem Represents.lookup?_eq_some_iff (h : a.Represents t) {word : String} {ids : List DocId} :
    a.lookup? word = some (some ids) ↔ t.lookup? word = some ids := by
  rw [h.lookup?_eq, Option.some_inj]

/-- **Lists and counts of an index.** All loops come to an end. The entries are exactly the words that
a look-up finds with documents, with these, in strictly ascending order. The documents are those of the
entries, and they are given in strictly ascending order. The statistics are the numbers of these words,
of the pairs of a word and one of its documents, of the documents that some word has, and of the nodes
that the walk meets, which are as many as the paths that lead to a node. -/
theorem lists_of_reachable (ha : a.Reachable) :
    ∃ entries documents visits statistics, a.entries? = some entries ∧
      a.documents? = some documents ∧ a.walk? = some visits ∧
      Statistics.ofArena? a = some statistics ∧
      (∀ word ids, (word, ids) ∈ entries ↔ a.lookup? word = some (some ids) ∧ ids ≠ []) ∧
      entries.Pairwise (fun e e' => e.1 < e'.1) ∧
      (∀ d, d ∈ documents ↔ ∃ e ∈ entries, d ∈ e.2) ∧
      documents.toList.Pairwise (· < ·) ∧
      statistics.words = {word : String | ∃ ids, a.lookup? word = some (some ids) ∧ ids ≠ []}.ncard ∧
      statistics.postings =
        {p : String × DocId | ∃ ids, a.lookup? p.1 = some (some ids) ∧ p.2 ∈ ids}.ncard ∧
      statistics.documents =
        {d : DocId | ∃ word ids, a.lookup? word = some (some ids) ∧ d ∈ ids}.ncard ∧
      statistics.nodes = visits.length ∧
      visits.length = {cs : List Char | ∃ slot, a.Leads cs slot}.ncard := by
  obtain ⟨t, ht, h⟩ := ha.represents
  have hw := ht.wellFormed
  obtain ⟨documents, hdocuments, htoList⟩ := Option.map_eq_some_iff.mp h.documents?_eq
  simp only [h.lookup?_eq_some_iff, h.exists_leads_iff]
  refine ⟨t.entries, documents, t.outline, .ofTrie t, h.entries?_eq, hdocuments, h.walk?_eq,
    h.statistics_eq, fun word ids => Trie.mem_entries_iff_lookup? hw, Trie.pairwise_entries hw,
    fun d => ?_, ?_, Trie.words_eq_ncard hw, Trie.postings_eq_ncard hw, Trie.documents_eq_ncard hw,
    Trie.nodes_eq_length hw, Trie.length_outline_eq_ncard hw⟩
  · rw [← Std.TreeSet.mem_toList, htoList, Trie.mem_documents_iff]
  · rw [htoList]
    exact Trie.pairwise_documents t

/-- Words that start with each other, and one with a character of two bytes before a branch. -/
theorem lists_of_reachable_branching :
    let a : Arena := {
      nodes := #[⟨none, [], [('a', 1), ('é', 3)], none⟩, ⟨some 'a', [9], [('b', 2)], some 0⟩,
        ⟨some 'b', [9], [], some 1⟩, ⟨some 'é', [], [('a', 5), ('z', 4)], some 0⟩,
        ⟨some 'z', [9], [], some 3⟩, ⟨some 'a', [9], [], some 3⟩]
      free := [] }
    empty.edit? (.add 9 ["ab", "éz", "a", "éa"]) = some a ∧ a.Reachable ∧
      a.entries? = some [("a", [9]), ("ab", [9]), ("éa", [9]), ("éz", [9])] ∧
      {word : String | ∃ ids, a.lookup? word = some (some ids) ∧ ids ≠ []}.ncard = 4 ∧
      {cs : List Char | ∃ slot, a.Leads cs slot}.ncard = 6 := by
  intro a
  have hadd : empty.edit? (.add 9 ["ab", "éz", "a", "éa"]) = some a := by
    rw [edit?, addDocument?, remove?_empty]
    decide +kernel
  have ha : a.Reachable := .edit _ .fresh hadd
  have hentries : a.entries? = some [("a", [9]), ("ab", [9]), ("éa", [9]), ("éz", [9])] := by
    have hdrain : drain a.entriesVisit ([], []) [(root, 0)] =
        some (['é', 'z'], [("a", [9]), ("ab", [9]), ("éa", [9]), ("éz", [9])]) :=
      drain_eq_of_within 6 (by decide +kernel)
    rw [entries?, hdrain]
    rfl
  have hwalk : a.walk? = some [⟨0, none, []⟩, ⟨1, some 'a', [9]⟩, ⟨2, some 'b', [9]⟩,
      ⟨1, some 'é', []⟩, ⟨2, some 'a', [9]⟩, ⟨2, some 'z', [9]⟩] :=
    drain_eq_of_within 6 (by decide +kernel)
  obtain ⟨entries, documents, visits, statistics, hentries', hdocuments, hwalk', hstatistics, -, -, -,
    -, hwords, -, -, -, hvisits⟩ := lists_of_reachable ha
  rw [Statistics.ofArena?, hentries, hdocuments] at hstatistics
  cases hstatistics
  obtain rfl := Option.some.inj (hwalk.symm.trans hwalk')
  exact ⟨hadd, ha, hentries, hwords.symm, hvisits.symm⟩

end Concordance.Arena
