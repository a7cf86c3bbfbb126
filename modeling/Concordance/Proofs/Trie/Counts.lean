import Concordance.Proofs.Trie.Paths
import Concordance.Statistics
import Mathlib.Data.Set.Card

/-!
# What is listed and counted

The lists that an index gives out are complete, and they repeat nothing: the entries are in the
order of their words (`pairwise_entries`), the documents in the order of their numbers
(`pairwise_documents`). So the lengths of these lists are the sizes of the sets that they list
(`ncard_eq_length`), and `Statistics.ofTrie`, which takes the lengths, counts what it says
(`words_eq_ncard`, `postings_eq_ncard`, `documents_eq_ncard`).
-/

namespace Concordance

namespace Trie

variable {t : Trie}

/-! ## The order of the lists -/

theorem entry?_eq_some_iff {cs : List Char} {ids : List DocId} {e : String × List DocId} :
    entry? cs ids = some e ↔ e = (String.ofList cs, ids) ∧ ids ≠ [] := by
  unfold entry?
  cases ids with
  | nil => simp
  | cons d ds => simp [eq_comm]

/-- The entries are listed in the order of their words. -/
theorem pairwise_entries (h : WellFormed t) : t.entries.Pairwise fun e e' => e.1 < e'.1 := by
  rw [entries_eq h]
  refine (pairwise_paths h).filterMap _ fun cs cs' hlt e he e' he' => ?_
  obtain ⟨rfl, _⟩ := entry?_eq_some_iff.mp he
  obtain ⟨rfl, _⟩ := entry?_eq_some_iff.mp he'
  rw [String.lt_iff, String.toList_ofList, String.toList_ofList]
  exact hlt

/-- Taking out the repetitions of numbers that rise leaves numbers that rise strictly. -/
theorem pairwise_eraseRepsLoop {a : DocId} {as acc : List DocId}
    (hacc : (acc.reverse ++ [a]).Pairwise (· < ·)) (has : (a :: as).Pairwise (· ≤ ·)) :
    (List.eraseRepsBy.loop (· == ·) a as acc).Pairwise (· < ·) := by
  induction as generalizing a acc with
  | nil =>
    rw [List.eraseRepsBy.loop, List.reverse_cons]
    exact hacc
  | cons b as ih =>
    obtain ⟨ha, has⟩ := List.pairwise_cons.mp has
    have hle : a ≤ b := ha b List.mem_cons_self
    rw [List.eraseRepsBy.loop]
    cases hab : a == b with
    | true =>
      have hrest : (a :: as).Pairwise (· ≤ ·) :=
        List.pairwise_cons.mpr ⟨fun c hc => ha c (List.mem_cons_of_mem b hc), has.of_cons⟩
      exact ih hacc hrest
    | false =>
      have hlt : a < b := Std.lt_of_le_of_ne hle (by simpa using hab)
      -- What has been kept so far ends with `a`, which is below `b`.
      refine ih ?_ has
      rw [List.reverse_cons, List.pairwise_append]
      refine ⟨hacc, List.pairwise_singleton _ _, fun c hc d hd => ?_⟩
      obtain rfl := List.mem_singleton.mp hd
      rcases List.mem_append.mp hc with hc | hc
      · exact UInt32.lt_trans ((List.pairwise_append.mp hacc).2.2 c hc a (by simp)) hlt
      · rwa [List.mem_singleton.mp hc]

/-- The documents are listed in the order of their numbers, each once. -/
theorem pairwise_documents (t : Trie) : t.documents.Pairwise (· < ·) := by
  have hsorted : (t.gathered.mergeSort fun a b => a ≤ b).Pairwise (· ≤ ·) := by
    have hrises := @List.pairwise_mergeSort _ (fun a b : DocId => decide (a ≤ b))
      (fun a b c hab hbc => by
        simpa using UInt32.le_trans (by simpa using hab) (by simpa using hbc))
      (fun a b => by simpa using UInt32.le_total a b) t.gathered
    exact hrises.imp fun hle => by simpa using hle
  rw [documents]
  cases hlist : t.gathered.mergeSort fun a b => a ≤ b with
  | nil => exact List.Pairwise.nil
  | cons a as =>
    rw [hlist] at hsorted
    exact pairwise_eraseRepsLoop (List.pairwise_singleton _ _) hsorted

/-! ## Sizes -/

/-- A list that repeats nothing is as long as the set that it lists. -/
theorem ncard_eq_length {α : Type} {l : List α} (hl : l.Nodup) {p : α → Prop}
    (h : ∀ a, a ∈ l ↔ p a) : {a | p a}.ncard = l.length := by
  classical
  have hset : {a | p a} = (l.toFinset : Set α) := by
    ext a
    rw [List.coe_toFinset]
    exact (h a).symm
  rw [hset, Set.ncard_coe_finset, List.toFinset_card_of_nodup hl]

/-- The pairs of a word and one of its documents. -/
def postings (t : Trie) : List (String × DocId) :=
  t.entries.flatMap fun e => e.2.map fun d => (e.1, d)

theorem length_postings (t : Trie) : t.postings.length = (Statistics.ofTrie t).postings := by
  rw [postings, Statistics.ofTrie]
  induction t.entries with
  | nil => rfl
  | cons e rest ih => rw [List.flatMap_cons, List.length_append, List.length_map, ih]; rfl

/-- A word has documents when it has an entry. -/
theorem mem_entries_iff_lookup? (h : WellFormed t) {word : String} {ids : List DocId} :
    (word, ids) ∈ t.entries ↔ t.lookup? word = some ids ∧ ids ≠ [] := by
  rw [mem_entries h]
  refine and_congr_left fun hne => ?_
  rw [lookup?_eq, contains]
  constructor
  · intro hids
    rw [if_pos (isSome_find?_of_idsAt_ne_nil (hids ▸ hne)), hids]
  · intro hlook
    split at hlook
    · exact Option.some.inj hlook
    · cases hlook

theorem mem_postings (h : WellFormed t) {p : String × DocId} :
    p ∈ t.postings ↔ ∃ ids, t.lookup? p.1 = some ids ∧ p.2 ∈ ids := by
  obtain ⟨word, d⟩ := p
  simp only [postings, List.mem_flatMap, List.mem_map, Prod.mk.injEq]
  constructor
  · rintro ⟨⟨_, ids⟩, he, _, hd, rfl, rfl⟩
    exact ⟨ids, ((mem_entries_iff_lookup? h).mp he).1, hd⟩
  · rintro ⟨ids, hlook, hd⟩
    have he : (word, ids) ∈ t.entries :=
      (mem_entries_iff_lookup? h).mpr ⟨hlook, List.ne_nil_of_mem hd⟩
    exact ⟨(word, ids), he, d, hd, rfl, rfl⟩

theorem nodup_postings (h : WellFormed t) : t.postings.Nodup := by
  rw [postings, List.Nodup, List.pairwise_flatMap]
  refine ⟨fun e he => ?_, (pairwise_entries h).imp fun {e e'} hlt p hp p' hp' => ?_⟩
  · rw [List.pairwise_map]
    have hids : e.2.Nodup := by
      rw [← ((mem_entries h).mp he).1]
      exact h.nodup_idsAt _
    exact hids.imp fun hne heq => hne (Prod.mk.inj heq).2
  · obtain ⟨_, _, rfl⟩ := List.mem_map.mp hp
    obtain ⟨_, _, rfl⟩ := List.mem_map.mp hp'
    intro heq
    exact String.lt_irrefl _ ((Prod.mk.inj heq).1 ▸ hlt)

/-! ## The counts -/

/-- The words with documents. -/
theorem words_eq_ncard (h : WellFormed t) :
    (Statistics.ofTrie t).words =
      {word : String | ∃ ids, t.lookup? word = some ids ∧ ids ≠ []}.ncard := by
  have hwords : ∀ word, word ∈ t.entries.map Prod.fst ↔
      ∃ ids, t.lookup? word = some ids ∧ ids ≠ [] := by
    intro word
    simp only [List.mem_map, Prod.exists, exists_and_right, exists_eq_right]
    exact exists_congr fun ids => mem_entries_iff_lookup? h
  have hnodup : (t.entries.map Prod.fst).Nodup :=
    List.pairwise_map.mpr ((pairwise_entries h).imp String.ne_of_lt)
  rw [ncard_eq_length hnodup hwords, List.length_map]
  rfl

/-- The pairs of a word and one of its documents. -/
theorem postings_eq_ncard (h : WellFormed t) :
    (Statistics.ofTrie t).postings =
      {p : String × DocId | ∃ ids, t.lookup? p.1 = some ids ∧ p.2 ∈ ids}.ncard := by
  rw [ncard_eq_length (nodup_postings h) fun _ => mem_postings h, length_postings]

/-- The documents of all words. -/
theorem documents_eq_ncard (h : WellFormed t) :
    (Statistics.ofTrie t).documents =
      {d : DocId | ∃ word ids, t.lookup? word = some ids ∧ d ∈ ids}.ncard := by
  have hdocuments : ∀ d, d ∈ t.documents ↔ ∃ word ids, t.lookup? word = some ids ∧ d ∈ ids := by
    intro d
    rw [mem_documents_iff, Prod.exists]
    refine exists_congr fun word => exists_congr fun ids => and_congr_left fun hd => ?_
    rw [mem_entries_iff_lookup? h, and_iff_left (List.ne_nil_of_mem hd)]
  have hnodup : t.documents.Nodup := (pairwise_documents t).imp UInt32.ne_of_lt
  rw [ncard_eq_length hnodup hdocuments]
  rfl

/-- The nodes, which the walk meets once each. -/
theorem nodes_eq_length (h : WellFormed t) : (Statistics.ofTrie t).nodes = t.outline.length := by
  rw [Statistics.ofTrie, outline_eq h, List.length_map, nodeCount_eq]

theorem length_outline_eq_ncard (h : WellFormed t) :
    t.outline.length = {cs : List Char | (t.find? cs).isSome = true}.ncard := by
  rw [ncard_eq_length (nodup_paths h) fun _ => mem_paths h, outline_eq h, List.length_map]

end Trie

end Concordance
