import Concordance.Proofs.Arena.Listing
import Concordance.Proofs.Arena.Rebuild
import Concordance.Proofs.Arena.Records
import Concordance.Proofs.Arena.Writer

/-!
# The arrays that can come about

`Reachable` holds of every array that comes about from the empty index by edits and accepted
snapshots. `Reachable.represents` is the refinement: such an array represents an index that can come
about, and by `exists_reachable` each of these has an array. What is found, listed, written and read in
the array is then what is found, listed, written and read in the index (`Represents.lookup?_eq`,
`Represents.walk?_eq`, `Represents.entries?_eq`, `Represents.documents?_eq`,
`Represents.nodeCount_eq`, `Represents.toRecord?_eq`, `Represents.render?_eq`, `agrees_ofRecord`), and
an edit is the edit (`Represents.edit`).
-/

namespace Concordance.Arena

open Snapshot

/-- The arrays that come about from the empty index by edits and accepted snapshots. -/
inductive Reachable : Arena → Prop where
  | fresh : Reachable empty
  | ofText {text : String} {a : Arena} (h : ofText? text = some (.ok a)) : Reachable a
  | ofJson {v : Json} {a : Arena} (h : ofJson? v = some (.ok a)) : Reachable a
  | ofRecord {r : Record} {a : Arena} (hr : r.Ordered) (h : ofRecord? r = some (.ok a)) :
      Reachable a
  | rebuild {a a' : Arena} {r : Record} (ha : Reachable a) (hr : a.toRecord? = some r)
      (h : ofRecord? r = some (.ok a')) : Reachable a'
  | edit {a a' : Arena} (e : Trie.Edit) (ha : Reachable a) (h : a.edit? e = some a') : Reachable a'

theorem ordered_of_toRecord? {a : Arena} {t : Trie} (ha : a.Represents t) (ht : t.Reachable)
    {r : Record} (hr : a.toRecord? = some r) : r.Ordered := by
  rw [ha.toRecord?_eq ht.wellFormed] at hr
  cases hr
  exact Record.ordered_ofTrie none ht.wellFormed

/-- An array that comes from a record holds an index that can come about. -/
theorem exists_of_ofRecord? {r : Record} (hr : r.Ordered) {a : Arena}
    (h : ofRecord? r = some (.ok a)) : ∃ t : Trie, t.Reachable ∧ a.Represents t := by
  obtain ⟨t, heq, ha⟩ := (agrees_ofRecord hr).exists_of_eq_ok (by rw [h]; rfl)
  exact ⟨t, .ofRecord hr heq, ha⟩

/-- **Refinement.** Every array that can come about holds an index that can come about. -/
theorem Reachable.represents {a : Arena} (h : a.Reachable) :
    ∃ t : Trie, t.Reachable ∧ a.Represents t := by
  induction h with
  | fresh => exact ⟨.empty, .fresh, represents_empty⟩
  | ofText h =>
    obtain ⟨t, heq, ha⟩ := (agrees_ofText _).exists_of_eq_ok h
    exact ⟨t, .ofText heq, ha⟩
  | ofJson h =>
    obtain ⟨t, heq, ha⟩ := (agrees_ofJson _).exists_of_eq_ok h
    exact ⟨t, .ofJson heq, ha⟩
  | ofRecord hr h => exact exists_of_ofRecord? hr h
  | rebuild _ hr h ih =>
    obtain ⟨t, ht, ha⟩ := ih
    exact exists_of_ofRecord? (ordered_of_toRecord? ha ht hr) h
  | edit e _ h ih =>
    obtain ⟨t, ht, ha⟩ := ih
    obtain ⟨a', heq, ha'⟩ := ha.edit ht.wellFormed e
    rw [h] at heq
    cases heq
    exact ⟨e.apply t, ht.edit e, ha'⟩

/-- Every index that can come about is held by an array that can come about. -/
theorem exists_reachable {t : Trie} (h : t.Reachable) : ∃ a : Arena, a.Reachable ∧ a.Represents t := by
  have hr := Record.ordered_ofTrie none h.wellFormed
  have hagrees := agrees_toTrie hr
  rw [Record.toTrie_ofTrie h.wellFormed] at hagrees
  obtain ⟨a, heq, ha⟩ := hagrees
  exact ⟨a, .ofRecord hr heq, ha⟩

/-- An edit of an array that can come about comes to an end. -/
theorem Reachable.exists_edit? {a : Arena} (h : a.Reachable) (e : Trie.Edit) :
    ∃ a', a.edit? e = some a' ∧ a'.Reachable := by
  obtain ⟨t, ht, ha⟩ := h.represents
  obtain ⟨a', heq, -⟩ := ha.edit ht.wellFormed e
  exact ⟨a', heq, h.edit e heq⟩

end Concordance.Arena
