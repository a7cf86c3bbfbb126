import Concordance.Proofs.Trie.History
import Concordance.Proofs.Trie.Paths

/-!
# One index for each content

A pruned trie is the only one with its content: the words that hold documents, with their
documents, decide which nodes there are, and so everything that is read off the nodes. The
history of the index leaves no other trace.

* `Pruned.eq_of_idsAt_eq`: two pruned tries that hold the same documents at every path are equal.
* `idsAt_eq_of_entries_eq`: the entries decide what every path holds.
* `Pruned.remove_addDocument`: adding a document that was not there and removing it again changes
  nothing.

Every edit leaves a pruned trie, so `render_eq_of_entries_eq` needs no more than a last edit.
-/

namespace Concordance

namespace Trie

/-! ## The nodes by the documents -/

/-- A path that holds documents goes through a child. -/
theorem exists_mem_of_idsAt_ne_nil {ids : List DocId} {kids : List (Char × Trie)} {c : Char}
    {cs : List Char} (h : (node ids kids).idsAt (c :: cs) ≠ []) : ∃ t, (c, t) ∈ kids := by
  rw [idsAt_cons] at h
  cases hlook : kids.lookup c with
  | none =>
    rw [hlook] at h
    exact absurd rfl h
  | some t => exact ⟨t, Children.mem_of_lookup hlook⟩

/-- **A pruned trie is the only one with its documents.** -/
theorem Pruned.eq_of_idsAt_eq {t t' : Trie} (hp : Pruned t) (hw : WellFormed t) (hp' : Pruned t')
    (hw' : WellFormed t') (hids : ∀ cs, t.idsAt cs = t'.idsAt cs) : t = t' := by
  induction t using Trie.induction generalizing t' with
  | node ids kids ih =>
    obtain ⟨ids', kids'⟩ := t'
    obtain ⟨_, ha, hwkids⟩ := hw
    obtain ⟨_, ha', hwkids'⟩ := hw'
    obtain ⟨hl, hpkids⟩ := hp
    obtain ⟨hl', hpkids'⟩ := hp'
    have hroot : ids = ids' := by
      have hnil := hids []
      rwa [idsAt_nil, idsAt_nil] at hnil
    have hchild : ∀ c t t', (c, t) ∈ kids → (c, t') ∈ kids' → t = t' := by
      intro c t t' hmem hmem'
      refine ih (c, t) hmem (hpkids _ hmem) (hwkids _ hmem) (hpkids' _ hmem') (hwkids' _ hmem')
        fun cs => ?_
      have hpath := hids (c :: cs)
      rwa [idsAt_of_mem ha hmem, idsAt_of_mem ha' hmem'] at hpath
    -- A child of one trie holds documents somewhere below it, so the other one has it as well.
    have hmem : ∀ e, e ∈ kids ↔ e ∈ kids' := by
      rintro ⟨c, t⟩
      constructor
      · intro he
        obtain ⟨cs, hcs⟩ := (hpkids _ he).exists_idsAt_ne_nil (hl _ he)
        have hpath : (Trie.node ids' kids').idsAt (c :: cs) ≠ [] := by
          rwa [← hids, idsAt_of_mem ha he]
        obtain ⟨t', he'⟩ := exists_mem_of_idsAt_ne_nil hpath
        rwa [hchild c t t' he he']
      · intro he'
        obtain ⟨cs, hcs⟩ := (hpkids' _ he').exists_idsAt_ne_nil (hl' _ he')
        have hpath : (Trie.node ids kids).idsAt (c :: cs) ≠ [] := by
          rwa [hids, idsAt_of_mem ha' he']
        obtain ⟨t₀, he⟩ := exists_mem_of_idsAt_ne_nil hpath
        rwa [← hchild c t₀ t he he']
    rw [hroot, Children.Ascending.eq_of_mem_iff ha ha' hmem]

/-- The entries of a trie decide what every path holds. -/
theorem idsAt_eq_of_entries_eq {t t' : Trie} (h : WellFormed t) (h' : WellFormed t')
    (hentries : t.entries = t'.entries) (cs : List Char) : t.idsAt cs = t'.idsAt cs := by
  have hword : (String.ofList cs).toList = cs := String.toList_ofList
  have hmem : ∀ ids, ids ≠ [] → (t.idsAt cs = ids ↔ t'.idsAt cs = ids) := by
    intro ids hne
    have hentry : (String.ofList cs, ids) ∈ t.entries ↔ (String.ofList cs, ids) ∈ t'.entries := by
      rw [hentries]
    rw [mem_entries h, mem_entries h', hword] at hentry
    simpa [hne] using hentry
  by_cases hne : t.idsAt cs = []
  · -- Documents that only the other trie had would be an entry of this one.
    by_cases hne' : t'.idsAt cs = []
    · rw [hne, hne']
    · exact (hmem _ hne').mpr rfl
  · exact ((hmem _ hne).mp rfl).symm

/-- A pruned trie is the only one with its entries. -/
theorem Pruned.eq_of_entries_eq {t t' : Trie} (hp : Pruned t) (hw : WellFormed t)
    (hp' : Pruned t') (hw' : WellFormed t') (hentries : t.entries = t'.entries) : t = t' :=
  hp.eq_of_idsAt_eq hw hp' hw' (idsAt_eq_of_entries_eq hw hw' hentries)

/-! ## Adding and removing -/

/-- Adding a document that a pruned trie does not hold and removing it again changes nothing. -/
theorem Pruned.remove_addDocument {t : Trie} (hp : Pruned t) (hw : WellFormed t) {d : DocId}
    (hd : d ∉ t.documents) (words : List String) : (t.addDocument d words).remove d = t := by
  have hadded : WellFormed (t.addDocument d words) := hw.addDocument d words
  refine (pruned_remove d _).eq_of_idsAt_eq (hadded.remove d) hp hw fun cs => ?_
  have habsent : d ∉ t.idsAt cs := fun hmem => hd ((mem_documents hw).mpr ⟨cs, hmem⟩)
  have hkept : (t.idsAt cs).filter (· != d) = t.idsAt cs := by
    refine List.filter_eq_self.mpr fun d' hd' => ?_
    have hne : d' ≠ d := fun heq => habsent (heq ▸ hd')
    simpa using hne
  have hword : (String.ofList cs).toList = cs := String.toList_ofList
  have hids := idsAt_addDocument d words hw (String.ofList cs)
  rw [hword, hkept] at hids
  rw [idsAt_remove d hadded, hids, List.filter_append, hkept]
  -- What the addition put at the end of a list, the removal takes away.
  split <;> simp

/-! ## Two histories -/

/-- **The content decides the index.** Take any two histories, snapshots included, each with an
edit at its end. If the two indexes have the same words with the same documents, then their
snapshots are the same text, a walk meets the same nodes in them, and they have the same number
of nodes. Adding a document that such an index does not hold and removing it again gives back its
snapshot. -/
theorem render_eq_of_entries_eq {t t' : Trie} (ht : Reachable t) (ht' : Reachable t')
    (e e' : Edit) :
    ((e.apply t).entries = (e'.apply t').entries →
      Snapshot.render (e.apply t) = Snapshot.render (e'.apply t') ∧
        (e.apply t).outline = (e'.apply t').outline ∧
        (e.apply t).nodeCount = (e'.apply t').nodeCount) ∧
      ∀ (d : DocId) (words : List String), d ∉ (e.apply t).documents →
        Snapshot.render (applyAll [.add d words, .remove d] (e.apply t)) =
          Snapshot.render (e.apply t) := by
  have hw : WellFormed (e.apply t) := ht.wellFormed.apply e
  have hw' : WellFormed (e'.apply t') := ht'.wellFormed.apply e'
  constructor
  · intro hentries
    have heq : e.apply t = e'.apply t' :=
      (pruned_apply e t).eq_of_entries_eq hw (pruned_apply e' t') hw' hentries
    rw [heq]
    exact ⟨rfl, rfl, rfl⟩
  · intro d words hd
    have hback : (Edit.remove d).apply ((Edit.add d words).apply (e.apply t)) = e.apply t :=
      (pruned_apply e t).remove_addDocument hw hd words
    show Snapshot.render ((Edit.remove d).apply ((Edit.add d words).apply (e.apply t))) = _
    rw [hback]

/-- A snapshot with vacant nodes after a removal, and words that were added in another order and
partly taken away: the same text, also after a document has come and gone. -/
theorem render_eq_of_entries_eq_loaded :
    let t : Trie := .node []
      [('a', .node [] [('b', .node [1] [])]), ('b', .node [2, 1] []), ('z', .node [] [])]
    let t' := applyAll [.add 2 ["b"], .add 3 ["abc", "a"], .add 1 ["b", "ab"]] .empty
    Reachable t ∧ Reachable t' ∧ t.nodeCount = 5 ∧ t'.nodeCount = 5 ∧
      ((Edit.remove 7).apply t).entries = ((Edit.remove 3).apply t').entries ∧
      Snapshot.render ((Edit.remove 7).apply t) = Snapshot.render ((Edit.remove 3).apply t') ∧
      7 ∉ ((Edit.remove 7).apply t).documents ∧
      Snapshot.render (applyAll [.add 7 ["abd", "", "c"], .remove 7] ((Edit.remove 7).apply t)) =
        Snapshot.render ((Edit.remove 7).apply t) := by
  intro t t'
  have ht : Reachable t := WellFormed.reachable (by decide)
  have ht' : Reachable t' := Reachable.fresh.applyAll _
  obtain ⟨hsame, hback⟩ := render_eq_of_entries_eq ht ht' (.remove 7) (.remove 3)
  have hentries : ((Edit.remove 7).apply t).entries = ((Edit.remove 3).apply t').entries := by rfl
  have habsent : 7 ∉ ((Edit.remove 7).apply t).documents := by
    rw [documents, mem_eraseReps, List.mem_mergeSort]
    decide
  exact ⟨ht, ht', rfl, rfl, hentries, (hsame hentries).1, habsent, hback 7 _ habsent⟩

end Trie

end Concordance
