import Concordance.Proofs.Trie.History
import Concordance.Proofs.Trie.Paths

/-!
# The nodes of a pruned trie

After an edit a trie is pruned (`pruned_apply`). Then the paths below the root are the non-empty starts
of the words that hold documents (`Pruned.isSome_find?_iff_start`), there is one node for each of them
besides the root (`Pruned.exists_starts`), and the trie is vacant when it has no documents
(`Pruned.isVacant_iff`).
-/

namespace Concordance

namespace Trie

/-! ## Nodes at the end of a path -/

theorem isVacant_eq_false_iff {t : Trie} :
    t.isVacant = false ↔ t.ids ≠ [] ∨ t.children ≠ [] := by
  match t with
  | node [] [] => simp [isVacant, ids, children]
  | node [] (_ :: _) => simp [isVacant, ids, children]
  | node (_ :: _) _ => simp [isVacant, ids, children]

theorem WellFormed.find? {t u : Trie} (h : WellFormed t) {cs : List Char}
    (hu : t.find? cs = some u) : WellFormed u := by
  induction cs generalizing t with
  | nil =>
    rw [find?_nil] at hu
    cases hu
    exact h
  | cons c cs ih =>
    obtain ⟨_, _, hw⟩ := h
    rw [find?_cons] at hu
    obtain ⟨t', hlook, hu⟩ := Option.bind_eq_some_iff.mp hu
    exact ih (hw _ (Children.mem_of_lookup hlook)) hu

/-- In a pruned trie a path of at least one step ends at a node that is not vacant. -/
theorem Pruned.isVacant_find? {t u : Trie} (h : Pruned t) {cs : List Char} (hne : cs ≠ [])
    (hu : t.find? cs = some u) : u.isVacant = false := by
  induction cs generalizing t with
  | nil => exact absurd rfl hne
  | cons c cs ih =>
    obtain ⟨hl, hw⟩ := h
    rw [find?_cons] at hu
    obtain ⟨t', hlook, hu⟩ := Option.bind_eq_some_iff.mp hu
    have hmem := Children.mem_of_lookup hlook
    cases cs with
    | nil =>
      -- The last step leads to the child itself.
      rw [find?_nil] at hu
      cases hu
      exact hl _ hmem
    | cons c' cs' => exact ih (hw _ hmem) (List.cons_ne_nil _ _) hu

/-! ## After an edit -/

/-- The paths below the root of a pruned trie are the non-empty starts of the words that hold
documents. -/
theorem Pruned.isSome_find?_iff_start {t : Trie} (hp : Pruned t) (hw : WellFormed t)
    {cs : List Char} (hne : cs ≠ []) :
    (t.find? cs).isSome = true ↔ ∃ e ∈ t.entries, cs <+: e.1.toList := by
  rw [hp.isSome_find?_iff]
  constructor
  · rintro (rfl | ⟨cs', hpre, hids⟩)
    · exact absurd rfl hne
    · have hword : (String.ofList cs').toList = cs' := String.toList_ofList
      refine ⟨(String.ofList cs', t.idsAt cs'), (mem_entries hw).mpr ⟨?_, hids⟩, ?_⟩
      · rw [hword]
      · rwa [hword]
  · rintro ⟨e, he, hpre⟩
    obtain ⟨hids, hdocs⟩ := (mem_entries hw).mp he
    exact Or.inr ⟨e.1.toList, hpre, hids ▸ hdocs⟩

theorem Pruned.isVacant_iff {t : Trie} (hp : Pruned t) (hw : WellFormed t) :
    t.isVacant = true ↔ t.documents = [] := by
  constructor
  · intro hv
    rw [List.eq_nil_iff_forall_not_mem]
    intro d hd
    obtain ⟨cs, hcs⟩ := (mem_documents hw).mp hd
    rw [eq_empty_of_isVacant hv, idsAt_empty] at hcs
    cases hcs
  · intro hdocs
    cases hv : t.isVacant with
    | true => rfl
    | false =>
      -- Some word holds a document, which then is among the documents of the index.
      obtain ⟨cs, hcs⟩ := hp.exists_idsAt_ne_nil hv
      obtain ⟨d, hd⟩ := List.exists_mem_of_ne_nil _ hcs
      have hmem : d ∈ t.documents := (mem_documents hw).mpr ⟨cs, hd⟩
      rw [hdocs] at hmem
      cases hmem

/-- The nodes below the root of a pruned trie are counted by the non-empty starts of its words. -/
theorem Pruned.exists_starts {t : Trie} (hp : Pruned t) (hw : WellFormed t) :
    ∃ starts : List (List Char), starts.Nodup ∧
      (∀ cs, cs ∈ starts ↔ cs ≠ [] ∧ ∃ e ∈ t.entries, cs <+: e.1.toList) ∧
      t.nodeCount = 1 + starts.length := by
  -- The root is the first path of the walk; the starts are the others.
  obtain ⟨ids, kids⟩ := t
  have hpaths : (Trie.node ids kids).paths = [] :: pathsBelow kids := by rw [paths]
  have hnodup := nodup_paths hw
  rw [hpaths] at hnodup
  obtain ⟨hroot, hbelow⟩ := List.nodup_cons.mp hnodup
  refine ⟨pathsBelow kids, hbelow, fun cs => ?_, ?_⟩
  · have hcs : cs ∈ pathsBelow kids ↔ cs ≠ [] ∧ cs ∈ (Trie.node ids kids).paths := by
      rw [hpaths]
      constructor
      · intro hmem
        have hne : cs ≠ [] := fun heq => hroot (heq ▸ hmem)
        exact ⟨hne, List.mem_cons_of_mem _ hmem⟩
      · rintro ⟨hne, hmem⟩
        exact (List.mem_cons.mp hmem).resolve_left hne
    rw [hcs, mem_paths hw]
    exact and_congr_right fun hne => hp.isSome_find?_iff_start hw hne
  · rw [Trie.nodeCount_eq, hpaths, List.length_cons, Nat.add_comm]

end Trie

end Concordance
