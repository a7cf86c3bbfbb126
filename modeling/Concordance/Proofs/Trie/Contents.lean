import Concordance.Proofs.Trie.WellFormed

/-!
# What the words of a trie hold

`idsAt t cs` is the list of documents that the path `cs` holds in `t`, empty where there is no
such path. Each operation on a trie is known by what it does to this view:

* `idsAt_remove`: a removed document is taken out of every list.
* `idsAt_insert`: an inserted word gets the document at its end, unless it has it.
* `idsAt_addDocument`: replacing a document takes it out everywhere and then puts it at the end
  of the lists of its words.

The other half of the view is which paths there are. In a *pruned* trie, where no node below
the root is vacant, a path is there exactly when it is the start of a word that holds documents
(`Pruned.isSome_find?_iff`); a removal prunes, and insertions keep a trie pruned.
-/

namespace Concordance

namespace Trie

/-- The documents at the end of a path; none if the path is not there. -/
def idsAt (t : Trie) (cs : List Char) : List DocId :=
  ((t.find? cs).map ids).getD []

theorem find?_nil (t : Trie) : t.find? [] = some t := by
  cases t; rfl

theorem find?_cons (ids : List DocId) (kids : List (Char × Trie)) (c : Char) (cs : List Char) :
    (node ids kids).find? (c :: cs) = (kids.lookup c).bind (·.find? cs) := by
  rw [find?]
  cases kids.lookup c <;> rfl

theorem idsAt_nil (t : Trie) : t.idsAt [] = t.ids := by
  rw [idsAt, find?_nil]
  rfl

theorem idsAt_cons (ids : List DocId) (kids : List (Char × Trie)) (c : Char) (cs : List Char) :
    (node ids kids).idsAt (c :: cs) = ((kids.lookup c).map (·.idsAt cs)).getD [] := by
  rw [idsAt, find?_cons]
  cases kids.lookup c <;> rfl

/-- The look-up of a word finds the documents at the end of its path, if the path is there. -/
theorem lookup?_eq (t : Trie) (word : String) :
    t.lookup? word = if t.contains word then some (t.idsAt word.toList) else none := by
  rw [lookup?, contains, idsAt]
  cases t.find? word.toList <;> rfl

theorem idsAt_empty (cs : List Char) : Trie.empty.idsAt cs = [] := by
  cases cs with
  | nil => rfl
  | cons c cs => rw [empty, idsAt_cons]; rfl

theorem eq_empty_of_isVacant {t : Trie} (h : t.isVacant = true) : t = empty := by
  match t with
  | node [] [] => rfl
  | node (_ :: _) _ => cases h
  | node [] (_ :: _) => cases h

theorem WellFormed.nodup_idsAt {t : Trie} (h : WellFormed t) (cs : List Char) :
    (t.idsAt cs).Nodup := by
  induction cs generalizing t with
  | nil => rw [idsAt_nil]; exact h.nodup_ids
  | cons c cs ih =>
    obtain ⟨_, _, hw⟩ := h
    rw [idsAt_cons]
    cases hfound : List.lookup c _ with
    | none => exact List.nodup_nil
    | some t => exact ih (hw _ (Children.mem_of_lookup hfound))

/-! ## Removing a document -/

theorem lookup_removeBelow {kids : List (Char × Trie)} (h : Children.Ascending kids) (d : DocId)
    (c : Char) :
    (removeBelow d kids).lookup c =
      ((kids.lookup c).map (remove d)).filter fun t => !t.isVacant := by
  rw [removeBelow_eq]
  exact Children.lookup_map_filter h (remove d) (fun t => !t.isVacant) c

/-- Removing a document takes it out of every list and leaves the order of the rest. -/
theorem idsAt_remove (d : DocId) {t : Trie} (h : WellFormed t) (cs : List Char) :
    (t.remove d).idsAt cs = (t.idsAt cs).filter (· != d) := by
  induction cs generalizing t with
  | nil => cases t; rfl
  | cons c cs ih =>
    obtain ⟨_, ha, hw⟩ := h
    rw [remove, idsAt_cons, idsAt_cons, lookup_removeBelow ha]
    cases hfound : List.lookup c _ with
    | none => rfl
    | some t =>
      have hchild : (t.remove d).idsAt cs = (t.idsAt cs).filter (· != d) :=
        ih (hw _ (Children.mem_of_lookup hfound))
      cases hv : (t.remove d).isVacant with
      | false => simpa [Option.filter, hv] using hchild
      | true =>
        -- The child is dropped; it was vacant, so its lists were empty anyway.
        rw [eq_empty_of_isVacant hv, idsAt_empty] at hchild
        simpa [Option.filter, hv] using hchild

/-! ## Putting in a word -/

/-- A word that is put in gets the document at its end; the lists of all other words are as
before. -/
theorem idsAt_insert (d : DocId) (ws : List Char) {t : Trie} (h : WellFormed t)
    (cs : List Char) :
    (t.insert d ws).idsAt cs = if cs = ws then addId d (t.idsAt cs) else t.idsAt cs := by
  -- On the word that is put in, which the path `cs` follows as long as they agree.
  induction ws generalizing t cs with
  | nil =>
    obtain ⟨_, _, _⟩ := h
    cases cs with
    | nil => rw [insert, idsAt_nil, idsAt_nil, if_pos rfl]; rfl
    | cons c cs => rw [insert, idsAt_cons, idsAt_cons, if_neg (List.cons_ne_nil _ _)]
  | cons w ws ih =>
    obtain ⟨_, ha, hw⟩ := h
    cases cs with
    | nil => rw [insert, idsAt_nil, idsAt_nil, if_neg (List.cons_ne_nil _ _).symm]; rfl
    | cons c cs =>
      rw [insert, idsAt_cons, idsAt_cons]
      by_cases hc : c = w
      · subst hc
        rw [Children.lookup_upsert_self ha]
        cases hfound : List.lookup c _ with
        | none => simpa [idsAt_empty] using ih .empty cs
        | some t => simpa using ih (hw _ (Children.mem_of_lookup hfound)) cs
      · rw [Children.lookup_upsert_of_ne hc, if_neg (by simp [hc])]

theorem addId_idem (d : DocId) (ids : List DocId) : addId d (addId d ids) = addId d ids := by
  have hmem : d ∈ addId d ids := mem_addId.mpr (Or.inr rfl)
  generalize addId d ids = l at hmem
  simp [addId, hmem]

/-- Putting in one word after the other gives the document to each of them once. -/
theorem idsAt_insertAll (d : DocId) (words : List String) {t : Trie} (h : WellFormed t)
    (word : String) :
    (words.foldl (fun t w => t.insert d w.toList) t).idsAt word.toList =
      if word ∈ words then addId d (t.idsAt word.toList) else t.idsAt word.toList := by
  induction words generalizing t with
  | nil => rfl
  | cons w words ih =>
    rw [List.foldl_cons, ih (h.insert d w.toList), idsAt_insert d w.toList h]
    simp only [String.toList_inj, List.mem_cons]
    by_cases hw : word = w <;> by_cases hws : word ∈ words <;> simp [hw, hws, addId_idem]

/-- Replacing a document takes it out of every list, and puts it at the end of the lists of its
words. -/
theorem idsAt_addDocument (d : DocId) (words : List String) {t : Trie} (h : WellFormed t)
    (word : String) :
    (t.addDocument d words).idsAt word.toList =
      (t.idsAt word.toList).filter (· != d) ++ if word ∈ words then [d] else [] := by
  rw [addDocument, idsAt_insertAll d words (h.remove d), idsAt_remove d h]
  split
  · simp [addId]
  · simp

/-! ## Which paths there are -/

/-- No node below the root is vacant. -/
inductive Pruned : Trie → Prop where
  | node {ids : List DocId} {kids : List (Char × Trie)}
      (live : ∀ e ∈ kids, e.2.isVacant = false)
      (within : ∀ e ∈ kids, Pruned e.2) :
      Pruned (.node ids kids)

theorem Pruned.empty : Pruned Trie.empty :=
  .node (by simp) (by simp)

/-- A removal drops every vacant node below the root, also those that were vacant before. -/
theorem pruned_remove (d : DocId) (t : Trie) : Pruned (t.remove d) := by
  induction t using Trie.induction with
  | node ids kids ih =>
    refine .node (fun e he => (mem_removeBelow he).1) fun e he => ?_
    obtain ⟨_, e', hmem, rfl⟩ := mem_removeBelow he
    exact ih e' hmem

/-- A trie that a word was put into is not vacant: the word's document is in it. -/
theorem isVacant_insert (d : DocId) (cs : List Char) (t : Trie) :
    (t.insert d cs).isVacant = false := by
  cases t with
  | node ids kids =>
    cases cs with
    | nil =>
      have hmem : d ∈ addId d ids := mem_addId.mpr (Or.inr rfl)
      rw [insert]
      cases hids : addId d ids with
      | nil => rw [hids] at hmem; cases hmem
      | cons _ _ => rfl
    | cons c cs =>
      rw [insert]
      cases ids with
      | cons _ _ => rfl
      | nil =>
        cases kids with
        | nil => rfl
        | cons head rest => simp only [Children.upsert]; split <;> (try split) <;> rfl

theorem Pruned.insert (d : DocId) (cs : List Char) {t : Trie} (h : Pruned t) :
    Pruned (t.insert d cs) := by
  induction cs generalizing t with
  | nil =>
    obtain ⟨hl, hw⟩ := h
    exact .node hl hw
  | cons c cs ih =>
    obtain ⟨hl, hw⟩ := h
    refine .node (fun e he => ?_) fun e he => ?_
    · -- A child that the word leads through is not vacant, whether it was there or is new.
      rcases Children.mem_upsert he with he | rfl | ⟨a, _, rfl⟩
      · exact hl e he
      · exact isVacant_insert d cs _
      · exact isVacant_insert d cs _
    · rcases Children.mem_upsert he with he | rfl | ⟨a, hmem, rfl⟩
      · exact hw e he
      · exact ih .empty
      · exact ih (hw _ hmem)

/-- Replacing a document prunes, whatever the trie was. -/
theorem pruned_addDocument (d : DocId) (words : List String) (t : Trie) :
    Pruned (t.addDocument d words) := by
  -- The removal prunes, also when no word follows; each word keeps the trie pruned.
  rw [addDocument]
  generalize ht : t.remove d = t'
  have hp : Pruned t' := ht ▸ pruned_remove d t
  clear ht
  induction words generalizing t' with
  | nil => exact hp
  | cons w words ih => exact ih _ (hp.insert d w.toList)

/-- In a pruned trie that is not vacant some word holds documents. -/
theorem Pruned.exists_idsAt_ne_nil {t : Trie} (h : Pruned t) (hv : t.isVacant = false) :
    ∃ cs, t.idsAt cs ≠ [] := by
  induction t using Trie.induction with
  | node ids kids ih =>
    cases ids with
    | cons d ids => exact ⟨[], by rw [idsAt_nil]; exact List.cons_ne_nil _ _⟩
    | nil =>
      cases kids with
      | nil => cases hv
      | cons head rest =>
        obtain ⟨c, t⟩ := head
        obtain ⟨hl, hw⟩ := h
        -- The first child is not vacant either, and so on down to a node with documents.
        have hhead : (c, t) ∈ (c, t) :: rest := List.mem_cons_self
        obtain ⟨cs, hcs⟩ := ih _ hhead (hw _ hhead) (hl _ hhead)
        refine ⟨c :: cs, ?_⟩
        rw [idsAt_cons, List.lookup_cons_self]
        exact hcs

theorem isSome_find?_of_idsAt_ne_nil {t : Trie} {cs : List Char} (h : t.idsAt cs ≠ []) :
    (t.find? cs).isSome = true := by
  cases hfound : t.find? cs with
  | some _ => rfl
  | none =>
    rw [idsAt, hfound] at h
    exact absurd rfl h

/-- The paths of a trie are closed under prefixes. -/
theorem isSome_find?_of_prefix {t : Trie} {cs cs' : List Char} (hpre : cs <+: cs')
    (h : (t.find? cs').isSome = true) : (t.find? cs).isSome = true := by
  induction cs generalizing t cs' with
  | nil => rw [find?_nil]; rfl
  | cons c cs ih =>
    obtain ⟨ids, kids⟩ := t
    obtain ⟨rest, rfl⟩ := hpre
    rw [List.cons_append, find?_cons] at h
    rw [find?_cons]
    cases hfound : List.lookup c kids with
    | none => rw [hfound] at h; cases h
    | some t =>
      rw [hfound] at h
      exact ih (List.prefix_append cs rest) h

/-- In a pruned trie a path is there exactly when it is empty or the start of a word that holds
documents. -/
theorem Pruned.isSome_find?_iff {t : Trie} (h : Pruned t) (cs : List Char) :
    (t.find? cs).isSome = true ↔ cs = [] ∨ ∃ cs', cs <+: cs' ∧ t.idsAt cs' ≠ [] := by
  constructor
  · intro hfound
    -- Below the root the path ends at a node that is not vacant; the word is found from there.
    induction cs generalizing t with
    | nil => exact Or.inl rfl
    | cons c cs ih =>
      obtain ⟨hl, hw⟩ := h
      rw [find?_cons] at hfound
      cases hlook : List.lookup c _ with
      | none => rw [hlook] at hfound; cases hfound
      | some t =>
        rw [hlook] at hfound
        have hmem := Children.mem_of_lookup hlook
        have hsub : ∃ cs', cs <+: cs' ∧ t.idsAt cs' ≠ [] := by
          rcases ih (hw _ hmem) hfound with rfl | hsub
          · obtain ⟨cs', hne⟩ := (hw _ hmem).exists_idsAt_ne_nil (hl _ hmem)
            exact ⟨cs', List.nil_prefix, hne⟩
          · exact hsub
        obtain ⟨cs', hpre, hne⟩ := hsub
        refine Or.inr ⟨c :: cs', List.cons_prefix_cons.mpr ⟨rfl, hpre⟩, ?_⟩
        rw [idsAt_cons, hlook]
        exact hne
  · rintro (rfl | ⟨cs', hpre, hne⟩)
    · rw [find?_nil]; rfl
    · exact isSome_find?_of_prefix hpre (isSome_find?_of_idsAt_ne_nil hne)

end Trie

end Concordance
