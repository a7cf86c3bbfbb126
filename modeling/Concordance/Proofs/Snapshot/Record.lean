import Concordance.Proofs.Trie.WellFormed
import Concordance.Snapshot

/-!
# Records and tries

The records below a record stand in ascending order of their keys (`Ordered`); a record that
is built any other way cannot be read or made. Between ordered records and well-formed tries:

* `Ordered.wellFormed_strip`: an ordered record describes a well-formed trie.
* `ordered_ofTrie`: the record of a well-formed trie is ordered.
* `mislabelledBelow?_ofTrie`, `strip_ofTrie`, `ofRecord_toRecord`: no character is misplaced in
  the record of a trie, and the trie comes back from it unchanged.
-/

namespace Concordance.Snapshot

namespace Record

/-- What every record inherits from the records below it holds of every record. -/
theorem induction {motive : Record → Prop}
    (node : ∀ label ids kids, (∀ e ∈ kids, motive e.2) → motive (.node label ids kids)) :
    ∀ r, motive r
  | .node label ids kids => node label ids kids fun e _ => induction node e.2
termination_by r => sizeOf r
decreasing_by
  have hlt := List.sizeOf_lt_of_mem ‹_›
  have hpair : sizeOf e = 1 + sizeOf e.1 + sizeOf e.2 := by cases e; rfl
  simp only [Record.node.sizeOf_spec]
  omega

/-- The keys below a record rise strictly, at every record. -/
inductive Ordered : Record → Prop where
  | node {label : Option Char} {ids : List DocId} {kids : List (Char × Record)}
      (ascending : Children.Ascending kids)
      (within : ∀ e ∈ kids, Ordered e.2) :
      Ordered (.node label ids kids)

/-! ## From records to tries -/

theorem stripAll_eq (kids : List (Char × Record)) :
    stripAll kids = kids.map fun e => (e.1, strip e.2) := by
  induction kids with
  | nil => rfl
  | cons head rest ih => rw [stripAll, ih]; rfl

theorem Ordered.wellFormed_strip {r : Record} (h : Ordered r) : r.strip.WellFormed := by
  induction r using Record.induction with
  | node label ids kids ih =>
    obtain ⟨ha, hw⟩ := h
    have hasc : Children.Ascending (stripAll kids) := by
      rw [stripAll_eq]
      exact ha.map _
    -- Documents that a record repeats are dropped on the way, so no order of them is asked for.
    refine .node (Trie.nodup_distinctIds ids) hasc fun e he => ?_
    rw [stripAll_eq, List.mem_map] at he
    obtain ⟨e', hmem, rfl⟩ := he
    exact ih e' hmem (hw e' hmem)

theorem mislabelled?_eq_none_iff {kids : List (Char × Record)} :
    mislabelled? kids = none ↔ ∀ e ∈ kids, e.2.label = some e.1 := by
  induction kids with
  | nil => simp [mislabelled?]
  | cons head rest ih =>
    obtain ⟨c, r⟩ := head
    rw [mislabelled?, List.forall_mem_cons, ← ih]
    by_cases hlabel : r.label = some c <;> simp [hlabel]

theorem mislabelledWithin?_eq_none_iff {kids : List (Char × Record)} :
    mislabelledWithin? kids = none ↔ ∀ e ∈ kids, mislabelledBelow? e.2 = none := by
  induction kids with
  | nil => simp [mislabelledWithin?]
  | cons head rest ih =>
    obtain ⟨c, r⟩ := head
    rw [mislabelledWithin?, Option.orElse_eq_orElse, Option.orElse_eq_or, Option.or_eq_none_iff,
      List.forall_mem_cons, ← ih, and_comm]

/-- No character is misplaced below a record when each child has that of its key and none is
misplaced below a child. -/
theorem mislabelledBelow?_eq_none_iff {label : Option Char} {ids : List DocId}
    {kids : List (Char × Record)} :
    mislabelledBelow? (.node label ids kids) = none ↔
      ∀ e ∈ kids, e.2.label = some e.1 ∧ mislabelledBelow? e.2 = none := by
  rw [mislabelledBelow?, Option.orElse_eq_orElse, Option.orElse_eq_or, Option.or_eq_none_iff,
    mislabelled?_eq_none_iff, mislabelledWithin?_eq_none_iff]
  constructor
  · intro ⟨hlabels, hbelow⟩ e he
    exact ⟨hlabels e he, hbelow e he⟩
  · intro h
    exact ⟨fun e he => (h e he).1, fun e he => (h e he).2⟩

/-- A record is accepted when no character is misplaced, and describes its strip then. -/
theorem toTrie_eq_ok_iff {r : Record} {t : Trie} :
    r.toTrie = .ok t ↔ r.label = none ∧ mislabelledBelow? r = none ∧ t = r.strip := by
  rw [toTrie]
  cases r.label with
  | some c => simp
  | none => cases mislabelledBelow? r <;> simp [eq_comm]

/-! ## From tries to records and back -/

theorem ofChildren_eq (kids : List (Char × Trie)) :
    ofChildren kids = kids.map fun e => (e.1, ofTrie (some e.1) e.2) := by
  induction kids with
  | nil => rfl
  | cons head rest ih => rw [ofChildren, ih]; rfl

theorem label_ofTrie (label : Option Char) (t : Trie) : (ofTrie label t).label = label := by
  cases t; rfl

theorem ordered_ofTrie (label : Option Char) {t : Trie} (h : t.WellFormed) :
    (ofTrie label t).Ordered := by
  induction t using Trie.induction generalizing label with
  | node ids kids ih =>
    obtain ⟨_, ha, hw⟩ := h
    have hasc : Children.Ascending (ofChildren kids) := by
      rw [ofChildren_eq]
      exact ha.map fun e => ofTrie (some e.1) e.2
    refine .node hasc fun e he => ?_
    rw [ofChildren_eq, List.mem_map] at he
    obtain ⟨e', hmem, rfl⟩ := he
    exact ih e' hmem _ (hw e' hmem)

theorem mislabelledBelow?_ofTrie (label : Option Char) (t : Trie) :
    mislabelledBelow? (ofTrie label t) = none := by
  induction t using Trie.induction generalizing label with
  | node ids kids ih =>
    rw [ofTrie, mislabelledBelow?_eq_none_iff]
    intro e he
    rw [ofChildren_eq, List.mem_map] at he
    obtain ⟨e', hmem, rfl⟩ := he
    exact ⟨label_ofTrie _ _, ih e' hmem _⟩

/-- The trie of a trie's record is the trie itself. -/
theorem strip_ofTrie (label : Option Char) {t : Trie} (h : t.WellFormed) :
    (ofTrie label t).strip = t := by
  induction t using Trie.induction generalizing label with
  | node ids kids ih =>
    obtain ⟨hn, _, hw⟩ := h
    have hkids : kids.map (fun e => (e.1, strip (ofTrie (some e.1) e.2))) = kids := by
      refine (List.map_congr_left fun e he => ?_).trans (List.map_id' kids)
      rw [ih e he _ (hw e he)]
    -- Only where no document repeats does the strip keep the documents as they are.
    rw [ofTrie, strip, Trie.distinctIds_of_nodup hn, stripAll_eq, ofChildren_eq, List.map_map]
    exact congrArg (Trie.node ids) hkids

/-- The record of a trie is accepted, and describes the trie. -/
theorem toTrie_ofTrie {t : Trie} (h : t.WellFormed) : (ofTrie none t).toTrie = .ok t :=
  toTrie_eq_ok_iff.mpr ⟨label_ofTrie none t, mislabelledBelow?_ofTrie none t,
    (strip_ofTrie none h).symm⟩

end Record

/-- An index that a record describes is well-formed. -/
theorem wellFormed_ofRecord {r : Record} {t : Trie} (hr : r.Ordered) (h : ofRecord r = .ok t) :
    t.WellFormed := by
  rw [ofRecord] at h
  cases htrie : r.toTrie with
  | error m => rw [htrie] at h; cases h
  | ok t' =>
    rw [htrie] at h
    cases h
    obtain ⟨_, _, rfl⟩ := Record.toTrie_eq_ok_iff.mp htrie
    exact hr.wellFormed_strip

/-- The record of a well-formed trie is accepted, and the trie comes back. -/
theorem ofRecord_toRecord {t : Trie} (h : t.WellFormed) : ofRecord (toRecord t) = .ok t := by
  rw [ofRecord, toRecord, Record.toTrie_ofTrie h]

end Concordance.Snapshot
