import Concordance.Proofs.Json.Document
import Concordance.Proofs.Snapshot.Writer
import Concordance.Proofs.Trie.Reachable

/-!
# Saving and loading

A snapshot that was written is read back as the index that it was written from. The way there
has four stages, each with a statement of its own:

* the text of an index is that of its record's JSON value (`writeTrie_eq`);
* the document of the text is that value (`Json.Document.ofText_write`);
* the record that is read from the value is the record that made it (`readRecord_toJson`);
* the index that the record describes is the one that it came from (`ofRecord_toRecord`).

`ofText_render` puts them together for every well-formed trie.
-/

namespace Concordance

open Json

namespace Snapshot

open Record

/-! ## The parts of a record -/

theorem readLabel_labelJson (label : Option Char) :
    readLabel (Draft.ofJson (labelJson label)) = .ok label := by
  cases label with
  | none => rw [labelJson, Draft.ofJson, readLabel]
  | some c => rw [labelJson, Draft.ofJson, String.toList_singleton, readLabel]

theorem readId_idJson (id : DocId) : readId (Draft.ofJson (idJson id)) = .ok id := by
  rw [idJson, Draft.ofJson, readId, String.ofList_toList, DocId.parse?_text]

theorem mapM_readId (ids : List DocId) :
    (Draft.ofItems (ids.map idJson)).mapM readId = .ok ids := by
  induction ids with
  | nil => rfl
  | cons id ids ih =>
    rw [List.map_cons, Draft.ofItems, List.mapM_cons, readId_idJson, ih]
    rfl

theorem readIds_idsJson (ids : List DocId) :
    readIds (Draft.ofJson (.array (ids.map idJson))) = .ok ids := by
  rw [Draft.ofJson, readIds, mapM_readId]
  rfl

/-! ## The members of a record -/

theorem readFields_char {f : Fields} (hf : f.label = none) {d : Draft} {label : Option Char}
    (hd : readLabel d = .ok label) (rest : List (Option (List Char) × Draft)) :
    readFields f ((some "char".toList, d) :: rest) =
      readFields { f with label := some label } rest := by
  rw [readFields, if_pos rfl, hf, if_neg (by decide), hd]
  rfl

theorem readFields_ids {f : Fields} (hf : f.ids = none) {d : Draft} {ids : List DocId}
    (hd : readIds d = .ok ids) (rest : List (Option (List Char) × Draft)) :
    readFields f ((some "doc_ids".toList, d) :: rest) =
      readFields { f with ids := some ids } rest := by
  rw [readFields, if_neg (by decide), if_pos rfl, hf, if_neg (by decide), hd]
  rfl

theorem readFields_children {f : Fields} (hf : f.children = none) {d : Draft}
    {kids : List (Char × Record)} (hd : readChildren d = .ok kids)
    (rest : List (Option (List Char) × Draft)) :
    readFields f ((some "children".toList, d) :: rest) =
      readFields { f with children := some kids } rest := by
  rw [readFields, if_neg (by decide), if_neg (by decide), if_pos rfl, hf, if_neg (by decide), hd]
  rfl

/-- Records that are read back one by one are read back together. -/
theorem readBelow_childrenJson {kids : List (Char × Record)}
    (hread : ∀ e ∈ kids, readRecord (Draft.ofJson e.2.toJson) = .ok e.2)
    {before : List (Char × Record)} (hasc : Children.Ascending (before ++ kids)) :
    readBelow before (Draft.ofMembers (childrenJson kids)) = .ok (before ++ kids) := by
  -- On the records that are left; `before` are those that have been read.
  induction kids generalizing before with
  | nil => rw [childrenJson, Draft.ofMembers, readBelow, List.append_nil]
  | cons head rest ih =>
    obtain ⟨c, r⟩ := head
    have hlast : ∀ e ∈ before, e.1 < c :=
      fun e he => (List.pairwise_append.mp hasc).2.2 e he (c, r) List.mem_cons_self
    have hkey : readKey (some (String.singleton c).toList) = .ok c := by
      rw [String.toList_singleton, readKey]
    have hshift : before ++ (c, r) :: rest = (before ++ [(c, r)]) ++ rest := by simp
    rw [childrenJson, Draft.ofMembers, readBelow, hkey, hread (c, r) List.mem_cons_self]
    -- The keys rise, so the record that has been read comes after all before it.
    show readBelow (Children.upsert (fun _ => r) c before) _ = _
    rw [Children.upsert_last hlast, hshift]
    exact ih (fun e he => hread e (List.mem_cons_of_mem _ he)) (hshift ▸ hasc)

/-- **From a record to its value and back.** -/
theorem readRecord_toJson {r : Record} (h : r.Ordered) :
    readRecord (Draft.ofJson r.toJson) = .ok r := by
  induction r using Record.induction with
  | node label ids kids ih =>
    obtain ⟨ha, hw⟩ := h
    have hlabel := readLabel_labelJson label
    have hids := readIds_idsJson ids
    have hkids : readChildren (Draft.ofJson (.object (childrenJson kids))) = .ok kids := by
      have hasc : Children.Ascending ([] ++ kids) := ha
      rw [Draft.ofJson, readChildren, readBelow_childrenJson (fun e he => ih e he (hw e he)) hasc]
      rfl
    -- A record without children is written without that member.
    cases kids with
    | nil =>
      rw [toJson, Draft.ofJson, readRecord, Draft.ofMembers, Draft.ofMembers, Draft.ofMembers,
        readFields_char rfl hlabel, readFields_ids rfl hids, readFields]
      rfl
    | cons head rest =>
      rw [toJson, Draft.ofJson, readRecord, Draft.ofMembers, Draft.ofMembers, Draft.ofMembers,
        Draft.ofMembers, readFields_char rfl hlabel, readFields_ids rfl hids,
        readFields_children rfl hkids, readFields]
      rfl

/-! ## The whole way -/

/-- The text of an index, and of its record. -/
theorem toList_render (t : Trie) : (render t).toList = (toRecord t).toJson.write [] := by
  rw [render, String.toList_ofList, writeTrie_eq, toRecord]

/-- **Loading what was saved.** Every well-formed index is read back from its own text. -/
theorem ofText_render {t : Trie} (h : t.WellFormed) : ofText (render t) = .ok t := by
  have hdoc : Document.ofText (render t).toList = ⟨Draft.ofJson (toRecord t).toJson, false⟩ := by
    rw [toList_render]
    exact Document.ofText_write (wellFormed_toJson _) fun _ _ => trivial
  have hread : readRecord (Draft.ofJson (toRecord t).toJson) = .ok (toRecord t) :=
    readRecord_toJson (ordered_ofTrie none h)
  have hall : (Document.ofText (render t).toList).read readRecord = .ok (toRecord t) := by
    rw [hdoc, Document.read, hread]
    rfl
  rw [ofText, hall]
  exact ofRecord_toRecord h

/-- **Snapshots lose nothing.** Every index that can come about is read back from its snapshot
as the very same tree, vacant nodes and the order of the documents included, so that whatever is
done with it next goes the same way. What any accepted text is saved as is therefore saved the
same once it has been loaded. -/
theorem ofText_render_of_reachable :
    (∀ t : Trie, t.Reachable → ofText (render t) = .ok t) ∧
      ∀ (text : String) (t : Trie), ofText text = .ok t →
        ∃ t', ofText (render t) = .ok t' ∧ render t' = render t := by
  refine ⟨fun t ht => ofText_render ht.wellFormed, fun text t h => ⟨t, ?_, rfl⟩⟩
  exact ofText_render (wellFormed_ofText h)

/-- An index with a vacant node, and with edges that are written as escapes. -/
theorem ofText_render_escaped :
    let t : Trie := .node [] [('\x01', .node [] []), ('"', .node [4294967295, 0] [])]
    t.Reachable ∧ ofText (render t) = .ok t ∧
      ∃ t', ofText (render t) = .ok t' ∧ render t' = render t := by
  intro t
  have hkids : ∀ e ∈ [('\x01', Record.node (some '\x01') [] []),
      ('"', Record.node (some '"') [4294967295, 0] [])], e.2.Ordered := by
    intro e he
    rcases List.mem_cons.mp he with rfl | he
    · exact .node .nil (by simp)
    · rw [List.mem_singleton.mp he]
      exact .node .nil (by simp)
  have ht : t.Reachable :=
    .ofRecord (r := .node none [] _) (.node (by simp [Children.Ascending]) hkids) rfl
  have hload : ofText (render t) = .ok t := ofText_render_of_reachable.1 t ht
  exact ⟨ht, hload, ofText_render_of_reachable.2 (render t) t hload⟩

end Snapshot

end Concordance
