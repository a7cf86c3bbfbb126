import Concordance.Proofs.Snapshot.Reader

/-!
# The indexes that can come about

An index starts empty or from a snapshot that is accepted, and goes on by edits. `Reachable`
holds of every index of such a history, with any number of snapshots read on the way, from
texts, from JSON values or from records, its own record included. All of them are well-formed
(`Reachable.wellFormed`), and every well-formed index can come about (`WellFormed.reachable`).
-/

namespace Concordance

namespace Trie

/-- A change of the index. -/
inductive Edit where
  /-- A document with exactly these words takes the place of the one with its number. -/
  | add (d : DocId) (words : List String)
  | remove (d : DocId)
  | clear
  deriving DecidableEq, Repr, Inhabited

/-- The index after a change. -/
def Edit.apply : Edit → Trie → Trie
  | add d words, t => t.addDocument d words
  | remove d, t => t.remove d
  | clear, _ => empty

/-- The index after some changes, the first one first. -/
def applyAll (edits : List Edit) (t : Trie) : Trie :=
  edits.foldl (fun t e => e.apply t) t

/-- The indexes that come about from the empty one by edits and accepted snapshots. -/
inductive Reachable : Trie → Prop where
  | fresh : Reachable empty
  | ofText {text : String} {t : Trie} (h : Snapshot.ofText text = .ok t) : Reachable t
  | ofJson {v : Json} {t : Trie} (h : Snapshot.ofJson v = .ok t) : Reachable t
  | ofRecord {r : Snapshot.Record} {t : Trie} (hr : r.Ordered)
      (h : Snapshot.ofRecord r = .ok t) : Reachable t
  | rebuild {t t' : Trie} (ht : Reachable t)
      (h : Snapshot.ofRecord (Snapshot.toRecord t) = .ok t') : Reachable t'
  | edit {t : Trie} (e : Edit) (ht : Reachable t) : Reachable (e.apply t)

theorem Reachable.applyAll {t : Trie} (h : Reachable t) (edits : List Edit) :
    Reachable (applyAll edits t) := by
  induction edits generalizing t with
  | nil => exact h
  | cons e edits ih => exact ih (h.edit e)

theorem WellFormed.apply {t : Trie} (h : WellFormed t) (e : Edit) : WellFormed (e.apply t) := by
  cases e with
  | add d words => exact h.addDocument d words
  | remove d => exact h.remove d
  | clear => exact .empty

theorem Reachable.wellFormed {t : Trie} (h : Reachable t) : WellFormed t := by
  induction h with
  | fresh => exact .empty
  | ofText h => exact Snapshot.wellFormed_ofText h
  | ofJson h => exact Snapshot.wellFormed_ofJson h
  | ofRecord hr h => exact Snapshot.wellFormed_ofRecord hr h
  | rebuild _ h ih =>
    exact Snapshot.wellFormed_ofRecord (Snapshot.Record.ordered_ofTrie none ih) h
  | edit e _ ih => exact ih.apply e

/-- Every well-formed index can come about: its own record is accepted. -/
theorem WellFormed.reachable {t : Trie} (h : WellFormed t) : Reachable t :=
  .ofRecord (Snapshot.Record.ordered_ofTrie none h) (Snapshot.ofRecord_toRecord h)

end Trie

end Concordance
