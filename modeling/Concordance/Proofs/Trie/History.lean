import Concordance.Proofs.Trie.Contents
import Concordance.Proofs.Trie.Reachable
import Concordance.Query.Answer

/-!
# The index as its history

What an index holds after some edits can be read off the edits, without any trie. An edit
*overrides* a document when it settles anew what the document holds: an edit that names it, and
a clearing, which overrides all. After edits the documents of a word are

* the *survivors*: those it had before that no edit overrides, in their old order, and then
* the *arrivals*: for each edit in turn the document that it adds with the word, unless a later
  edit overrides it, so that only the last addition of a document counts.

`idsAt_applyAll` is the step from one edit to all of them. `answer_applyAll` adds which paths
there are after at least one edit: the starts of words that hold documents, and no others,
whatever vacant nodes the index came with.
-/

namespace Concordance

namespace Trie

/-- Whether an edit settles anew what a document holds. -/
def Edit.overrides (d : DocId) : Edit → Bool
  | add d' _ => d' == d
  | remove d' => d' == d
  | clear => true

/-- The document that an edit adds with a word, if it does. -/
def Edit.brings (word : String) : Edit → List DocId
  | add d words => if word ∈ words then [d] else []
  | remove _ => []
  | clear => []

/-- The documents that none of the edits overrides, in their order. -/
def survivors (edits : List Edit) (docs : List DocId) : List DocId :=
  docs.filter fun d => ∀ e ∈ edits, e.overrides d = false

/-- The documents whose last addition comes after their last removal and the last clearing and
has the word, in the order of these additions: those that an edit adds with the word and that no
later edit overrides. -/
def arrivals (word : String) : List Edit → List DocId
  | [] => []
  | .add d words :: later =>
    if word ∈ words ∧ ∀ e ∈ later, e.overrides d = false then d :: arrivals word later
    else arrivals word later
  | .remove _ :: later => arrivals word later
  | .clear :: later => arrivals word later

/-- The documents of a word after some edits of an index. -/
def documentsAfter (edits : List Edit) (t : Trie) (word : String) : List DocId :=
  survivors edits ((t.lookup? word).getD []) ++ arrivals word edits

/-- Whether a word is empty or the start of a word that holds documents. -/
def IsStart (docs : String → List DocId) (word : String) : Prop :=
  word = "" ∨ ∃ longer : String, word.toList <+: longer.toList ∧ docs longer ≠ []

/-! ## Survivors and arrivals -/

theorem survivors_cons (e : Edit) (edits : List Edit) (docs : List DocId) :
    survivors (e :: edits) docs = survivors edits (docs.filter fun d => !e.overrides d) := by
  rw [survivors, survivors, List.filter_filter]
  refine List.filter_congr fun d _ => ?_
  cases h : e.overrides d <;> simp [h]

theorem survivors_append (edits : List Edit) (docs docs' : List DocId) :
    survivors edits (docs ++ docs') = survivors edits docs ++ survivors edits docs' :=
  List.filter_append docs docs'

/-- What the first edit brings stays as far as the later ones leave it. -/
theorem arrivals_cons (word : String) (e : Edit) (later : List Edit) :
    arrivals word (e :: later) = survivors later (e.brings word) ++ arrivals word later := by
  cases e with
  | remove d => rfl
  | clear => rfl
  | add d words =>
    rw [arrivals, Edit.brings]
    by_cases hw : word ∈ words
    · by_cases hd : ∀ e ∈ later, e.overrides d = false
      · rw [if_pos ⟨hw, hd⟩, if_pos hw, survivors, List.filter_cons_of_pos (by simpa using hd)]
        rfl
      · rw [if_neg fun h => hd h.2, if_pos hw, survivors,
          List.filter_cons_of_neg (by simpa using hd)]
        rfl
    · rw [if_neg fun h => hw h.1, if_neg hw]
      rfl

/-! ## From one edit to all of them -/

/-- **One edit.** It takes out the documents that it overrides and adds those that it brings. -/
theorem idsAt_apply {t : Trie} (h : WellFormed t) (e : Edit) (word : String) :
    (e.apply t).idsAt word.toList =
      (t.idsAt word.toList).filter (fun d => !e.overrides d) ++ e.brings word := by
  cases e with
  | add d words =>
    rw [Edit.apply, idsAt_addDocument d words h, Edit.brings]
    congr 1
    refine List.filter_congr fun d' _ => ?_
    rw [Edit.overrides, bne, BEq.comm]
  | remove d =>
    rw [Edit.apply, idsAt_remove d h, Edit.brings, List.append_nil]
    refine List.filter_congr fun d' _ => ?_
    rw [Edit.overrides, bne, BEq.comm]
  | clear => simp [Edit.apply, idsAt_empty, Edit.overrides, Edit.brings]

/-- **All edits.** The survivors of the old documents come first, the arrivals after them. -/
theorem idsAt_applyAll {t : Trie} (h : WellFormed t) (edits : List Edit) (word : String) :
    (applyAll edits t).idsAt word.toList =
      survivors edits (t.idsAt word.toList) ++ arrivals word edits := by
  -- On the edits, for any index: what the first one leaves and brings is what the rest start from.
  induction edits generalizing t with
  | nil =>
    rw [arrivals, List.append_nil]
    exact (List.filter_eq_self.mpr fun _ _ => by simp).symm
  | cons e edits ih =>
    have hrest : (applyAll edits (e.apply t)).idsAt word.toList =
        survivors edits ((e.apply t).idsAt word.toList) ++ arrivals word edits := ih (h.apply e)
    rw [applyAll, List.foldl_cons, ← applyAll, hrest, idsAt_apply h, survivors_append,
      survivors_cons, arrivals_cons, List.append_assoc]

/-- Every edit prunes, also one that names no document of the index. -/
theorem pruned_apply (e : Edit) (t : Trie) : Pruned (e.apply t) := by
  cases e with
  | add d words => exact pruned_addDocument d words t
  | remove d => exact pruned_remove d t
  | clear => exact .empty

theorem pruned_applyAll {edits : List Edit} (hne : edits ≠ []) (t : Trie) :
    Pruned (applyAll edits t) := by
  obtain ⟨e, edits, rfl⟩ := List.exists_cons_of_ne_nil hne
  have hfirst : Pruned (e.apply t) := pruned_apply e t
  rw [applyAll, List.foldl_cons]
  -- The first edit prunes whatever was loaded; the rest go on from there.
  generalize e.apply t = t' at hfirst
  induction edits generalizing t' with
  | nil => exact hfirst
  | cons e edits ih => exact ih (List.cons_ne_nil _ _) _ (pruned_apply e t')

/-- **The history decides the index.** After at least one edit of any index, fresh or loaded, a
word is found exactly when it is the start of a word that holds documents by the history, and
then with the documents of the history, each once. -/
theorem answer_applyAll {t : Trie} (ht : Reachable t) {edits : List Edit} (hne : edits ≠ [])
    (word : String) :
    let docs := documentsAfter edits t
    (IsStart docs word → Query.answer (applyAll edits t) (.word word) = .ok (docs word)) ∧
      (¬IsStart docs word →
        Query.answer (applyAll edits t) (.word word) = .error (.notIndexed word)) ∧
      ((applyAll edits t).contains word = true ↔ IsStart docs word) ∧
      (docs word).Nodup := by
  intro docs
  have hdocs : ∀ w : String, (applyAll edits t).idsAt w.toList = docs w :=
    fun w => idsAt_applyAll ht.wellFormed edits w
  have hcontains : (applyAll edits t).contains word = true ↔ IsStart docs word := by
    rw [contains, (pruned_applyAll hne t).isSome_find?_iff, IsStart]
    -- Paths are lists of characters here, and words are texts; they are the same in both ways.
    refine or_congr (by simp) ⟨?_, ?_⟩
    · rintro ⟨cs, hpre, hcs⟩
      refine ⟨String.ofList cs, ?_, ?_⟩
      · rwa [String.toList_ofList]
      · rwa [← hdocs, String.toList_ofList]
    · rintro ⟨longer, hpre, hlonger⟩
      exact ⟨longer.toList, hpre, by rwa [hdocs]⟩
  refine ⟨fun h => ?_, fun h => ?_, hcontains, ?_⟩
  · rw [Query.answer, lookup?_eq, if_pos (hcontains.mpr h), hdocs]
  · rw [Query.answer, lookup?_eq, if_neg (mt hcontains.mp h)]
  · rw [← hdocs]
    exact (ht.applyAll edits).wellFormed.nodup_idsAt word.toList

/-- A loaded index whose node at `a` is vacant: the first edit drops it, and each word has its
documents in the order of their last additions. -/
theorem answer_applyAll_loaded :
    let t : Trie := .node [] [('a', .node [] []), ('b', .node [2, 1] [])]
    let edits : List Edit := [.add 3 ["b", "bc"], .remove 2, .add 1 ["bc"]]
    Reachable t ∧ edits ≠ [] ∧ Query.answer (applyAll edits t) (.word "bc") = .ok [3, 1] ∧
      Query.answer (applyAll edits t) (.word "a") = .error (.notIndexed "a") := by
  intro t edits
  have hkids : ∀ e ∈ [('a', Snapshot.Record.node (some 'a') [] []),
      ('b', Snapshot.Record.node (some 'b') [2, 1] [])], e.2.Ordered := by
    intro e he
    rcases List.mem_cons.mp he with rfl | he
    · exact .node .nil (by simp)
    · rw [List.mem_singleton.mp he]
      exact .node .nil (by simp)
  have ht : Reachable t :=
    .ofRecord (r := .node none [] _) (.node (by simp [Children.Ascending]) hkids) rfl
  have hne : edits ≠ [] := List.cons_ne_nil _ _
  have hbc : IsStart (documentsAfter edits t) "bc" :=
    Or.inr ⟨"bc", List.prefix_rfl, by decide⟩
  have ha : ¬IsStart (documentsAfter edits t) "a" := by
    rintro (h | ⟨longer, ⟨cs, hcs⟩, hdocs⟩)
    · exact absurd h (by decide)
    · have hlonger : longer = String.ofList ('a' :: cs) := by
        rw [← String.toList_inj, String.toList_ofList]
        exact hcs.symm
      subst hlonger
      -- Whatever follows, the path ends at the vacant node or is not there.
      refine hdocs ?_
      cases cs <;> simp [documentsAfter, lookup?, find?, t, edits, arrivals, survivors,
        ← String.toList_inj, ids]
  refine ⟨ht, hne, ?_, (answer_applyAll ht hne "a").2.1 ha⟩
  rw [(answer_applyAll ht hne "bc").1 hbc]
  rfl

end Trie

end Concordance
