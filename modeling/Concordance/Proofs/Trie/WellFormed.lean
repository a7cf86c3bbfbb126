import Concordance.Proofs.Children
import Concordance.Trie

/-!
# Well-formed tries

A trie is *well-formed* when at every node the labels of the children rise strictly and no
document is listed twice. The look-up laws of `Children` need the first part, and the second
makes the documents of a word a set in the order of arrival.

* `Trie.induction`: a property of all tries, one node at a time.
* `WellFormed.insert`, `WellFormed.remove`, `WellFormed.addDocument`: every operation keeps
  well-formedness.
* `isWellFormed_iff`: it is decided by going through the nodes once.
-/

namespace Concordance

namespace Trie

/-- What every node inherits from its children holds of every trie. Stated over the members of
the list of children, so that no proof about tries needs a second induction over that list. -/
theorem induction {motive : Trie → Prop}
    (node : ∀ ids kids, (∀ e ∈ kids, motive e.2) → motive (.node ids kids)) :
    ∀ t, motive t
  | .node ids kids => node ids kids fun e _ => induction node e.2
termination_by t => sizeOf t
decreasing_by
  have hlt := List.sizeOf_lt_of_mem ‹_›
  have hpair : sizeOf e = 1 + sizeOf e.1 + sizeOf e.2 := by cases e; rfl
  simp only [Trie.node.sizeOf_spec]
  omega

/-! ## The documents of a node -/

theorem mem_addId {d e : DocId} {ids : List DocId} : e ∈ addId d ids ↔ e ∈ ids ∨ e = d := by
  unfold addId
  split
  · next h =>
    have hd : d ∈ ids := by simpa using h
    constructor
    · exact Or.inl
    · rintro (he | rfl)
      · exact he
      · exact hd
  · simp

theorem nodup_addId {ids : List DocId} (h : ids.Nodup) (d : DocId) : (addId d ids).Nodup := by
  unfold addId
  split
  · exact h
  · next hd =>
    have hd : d ∉ ids := by simpa using hd
    refine List.nodup_append.mpr ⟨h, by simp, fun a ha b hb => ?_⟩
    rw [List.mem_singleton] at hb
    rintro rfl
    exact hd (hb ▸ ha)

theorem nodup_foldl_addId (l : List DocId) {seen : List DocId} (h : seen.Nodup) :
    (l.foldl (fun seen d => addId d seen) seen).Nodup := by
  induction l generalizing seen with
  | nil => exact h
  | cons d l ih => exact ih (nodup_addId h d)

theorem nodup_distinctIds (l : List DocId) : (distinctIds l).Nodup :=
  nodup_foldl_addId l List.nodup_nil

/-- Numbers that come after some that have been seen: those that were seen drop out, and of the
others the first occurrences are added. -/
theorem foldl_addId (l seen : List DocId) :
    l.foldl (fun seen d => addId d seen) seen = seen ++ (l.filter (· ∉ seen)).eraseDups := by
  induction l generalizing seen with
  | nil => simp
  | cons d l ih =>
    rw [List.foldl_cons, ih]
    by_cases hseen : d ∈ seen
    · have hadd : addId d seen = seen := by simp [addId, hseen]
      rw [hadd, List.filter_cons_of_neg (by simpa using hseen)]
    · have hadd : addId d seen = seen ++ [d] := by simp [addId, hseen]
      have hrest : l.filter (· ∉ seen ++ [d]) =
          (l.filter (· ∉ seen)).filter fun b => !b == d := by
        rw [List.filter_filter]
        refine List.filter_congr fun e _ => ?_
        simp [Bool.beq_eq_decide_eq, and_comm]
      rw [hadd, hrest, List.filter_cons_of_pos (by simpa using hseen), List.eraseDups_cons,
        List.append_assoc]
      rfl

theorem distinctIds_eq_eraseDups (l : List DocId) : distinctIds l = l.eraseDups := by
  have hall : l.filter (· ∉ ([] : List DocId)) = l := by simp
  rw [distinctIds, foldl_addId, hall, List.nil_append]

theorem eraseDups_of_nodup {l : List DocId} (h : l.Nodup) : l.eraseDups = l := by
  induction l with
  | nil => rfl
  | cons d l ih =>
    obtain ⟨hd, hl⟩ := List.nodup_cons.mp h
    have hrest : (l.filter fun b => !b == d) = l := by
      refine List.filter_eq_self.mpr fun e he => ?_
      have hne : e ≠ d := fun heq => hd (heq ▸ he)
      simpa using hne
    rw [List.eraseDups_cons, hrest, ih hl]

theorem foldl_addId_eq {seen l : List DocId} (hl : l.Nodup) :
    l.foldl (fun seen d => addId d seen) seen = seen ++ l.filter (· ∉ seen) := by
  rw [foldl_addId, eraseDups_of_nodup (hl.filter _)]

theorem distinctIds_of_nodup {l : List DocId} (h : l.Nodup) : distinctIds l = l := by
  rw [distinctIds_eq_eraseDups, eraseDups_of_nodup h]

/-! ## Well-formedness -/

/-- Labels rise strictly, and no document is listed twice, at every node. -/
inductive WellFormed : Trie → Prop where
  | node {ids : List DocId} {kids : List (Char × Trie)}
      (nodup : ids.Nodup)
      (ascending : Children.Ascending kids)
      (within : ∀ e ∈ kids, WellFormed e.2) :
      WellFormed (.node ids kids)

theorem WellFormed.empty : WellFormed Trie.empty :=
  .node List.nodup_nil List.Pairwise.nil (by simp)

theorem WellFormed.nodup_ids {t : Trie} (h : WellFormed t) : t.ids.Nodup := by
  obtain ⟨hn, _, _⟩ := h
  exact hn

theorem WellFormed.insert (d : DocId) (cs : List Char) {t : Trie} (h : WellFormed t) :
    WellFormed (t.insert d cs) := by
  induction cs generalizing t with
  | nil =>
    obtain ⟨hn, ha, hw⟩ := h
    exact .node (nodup_addId hn d) ha hw
  | cons c cs ih =>
    obtain ⟨hn, ha, hw⟩ := h
    refine .node hn (ha.upsert _ c) fun e he => ?_
    -- A child that was there, a new one for the rest of the word, or one that takes the rest.
    rcases Children.mem_upsert he with he | rfl | ⟨a, hmem, rfl⟩
    · exact hw e he
    · exact ih .empty
    · exact ih (hw _ hmem)

/-- Below a node, a document is taken out of every child, and the vacant ones are dropped. -/
theorem removeBelow_eq (d : DocId) (kids : List (Char × Trie)) :
    removeBelow d kids =
      (kids.map fun e => (e.1, remove d e.2)).filter fun e => !e.2.isVacant := by
  induction kids with
  | nil => rfl
  | cons head rest ih =>
    obtain ⟨c, t⟩ := head
    rw [removeBelow, List.map_cons, ih]
    cases hv : (remove d t).isVacant <;> simp [hv]

/-- What remains below a node after a removal is not vacant and comes from a child. -/
theorem mem_removeBelow {d : DocId} {kids : List (Char × Trie)} {e : Char × Trie}
    (he : e ∈ removeBelow d kids) :
    e.2.isVacant = false ∧ ∃ e' ∈ kids, e = (e'.1, remove d e'.2) := by
  rw [removeBelow_eq, List.mem_filter, List.mem_map] at he
  obtain ⟨⟨e', hmem, rfl⟩, hlive⟩ := he
  exact ⟨by simpa using hlive, e', hmem, rfl⟩

theorem WellFormed.remove (d : DocId) {t : Trie} (h : WellFormed t) :
    WellFormed (t.remove d) := by
  induction t using Trie.induction with
  | node ids kids ih =>
    obtain ⟨hn, ha, hw⟩ := h
    have hasc : Children.Ascending (removeBelow d kids) := by
      rw [removeBelow_eq]
      exact (ha.map _).filter _
    refine .node (hn.filter _) hasc fun e he => ?_
    obtain ⟨_, e', hmem, rfl⟩ := mem_removeBelow he
    exact ih e' hmem (hw e' hmem)

theorem WellFormed.insertAll (d : DocId) (words : List String) {t : Trie} (h : WellFormed t) :
    WellFormed (words.foldl (fun t w => t.insert d w.toList) t) := by
  induction words generalizing t with
  | nil => exact h
  | cons w words ih => exact ih (h.insert d w.toList)

theorem WellFormed.addDocument (d : DocId) (words : List String) {t : Trie} (h : WellFormed t) :
    WellFormed (t.addDocument d words) :=
  (h.remove d).insertAll d words

/-! ## Deciding well-formedness -/

instance (kids : List (Char × Trie)) : Decidable (Children.Ascending kids) :=
  inferInstanceAs (Decidable (kids.Pairwise fun a b => a.1 < b.1))

mutual

def isWellFormed : Trie → Bool
  | node ids kids => decide (ids.Nodup ∧ Children.Ascending kids) && areWellFormed kids

def areWellFormed : List (Char × Trie) → Bool
  | [] => true
  | (_, t) :: rest => isWellFormed t && areWellFormed rest

end

theorem areWellFormed_eq (kids : List (Char × Trie)) :
    areWellFormed kids = kids.all fun e => e.2.isWellFormed := by
  induction kids with
  | nil => rfl
  | cons head rest ih => rw [areWellFormed, ih, List.all_cons]

theorem isWellFormed_iff {t : Trie} : t.isWellFormed = true ↔ WellFormed t := by
  induction t using Trie.induction with
  | node ids kids ih =>
    have hwithin : areWellFormed kids = true ↔ ∀ e ∈ kids, WellFormed e.2 := by
      rw [areWellFormed_eq, List.all_eq_true]
      exact forall₂_congr ih
    rw [isWellFormed, Bool.and_eq_true, decide_eq_true_iff, hwithin]
    constructor
    · rintro ⟨⟨hn, ha⟩, hw⟩
      exact .node hn ha hw
    · rintro ⟨hn, ha, hw⟩
      exact ⟨⟨hn, ha⟩, hw⟩

instance (t : Trie) : Decidable (WellFormed t) :=
  decidable_of_iff (t.isWellFormed = true) isWellFormed_iff

end Trie

end Concordance
