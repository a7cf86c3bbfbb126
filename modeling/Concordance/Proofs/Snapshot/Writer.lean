import Concordance.Proofs.DocId
import Concordance.Proofs.Snapshot.Record

/-!
# Writing snapshots

Going through the index writes the same text as making its record first and writing the JSON
value of that (`writeTrie_eq`). All numbers in that value are number literals
(`wellFormed_toJson`).
-/

namespace Concordance.Snapshot

open Json Record

/-! ## The parts of a record -/

theorem writeLabel_eq (label : Option Char) (rest : List Char) :
    writeLabel label rest = (labelJson label).write rest := by
  cases label with
  | none => rw [writeLabel, labelJson, Json.write]
  | some c => rw [writeLabel, labelJson, Json.write]

theorem writeMoreIds_eq (ids : List DocId) (rest : List Char) :
    writeMoreIds ids rest = Json.writeItems (ids.map idJson) rest := by
  induction ids with
  | nil => rfl
  | cons id ids ih => rw [writeMoreIds, ih, List.map_cons, Json.writeItems, idJson, Json.write]

theorem writeIds_eq (ids : List DocId) (rest : List Char) :
    writeIds ids rest = (Json.array (ids.map idJson)).write rest := by
  cases ids with
  | nil => rw [writeIds, List.map_nil, Json.write]
  | cons id ids =>
    rw [writeIds, writeMoreIds_eq, List.map_cons, Json.write, idJson, Json.write]

/-! ## The whole record -/

theorem openRecord_eq (rest : List Char) :
    "\x7b\"char\":".toList ++ rest = '\x7b' :: writeText "char" (':' :: rest) := by
  simp [writeText, escaped]

theorem idsKey_eq (rest : List Char) :
    ",\"doc_ids\":".toList ++ rest = ',' :: writeText "doc_ids" (':' :: rest) := by
  simp [writeText, escaped]

theorem childrenKey_eq (rest : List Char) :
    ",\"children\":\x7b".toList ++ rest = ',' :: writeText "children" (':' :: '\x7b' :: rest) := by
  simp [writeText, escaped]

-- The equations of `writeTrie` are stated by hand: those that `rw [writeTrie]` would make take
-- the texts of the keys apart.

theorem writeTrie_leaf (label : Option Char) (ids : List DocId) (rest : List Char) :
    writeTrie label (.node ids []) rest =
      "\x7b\"char\":".toList ++ writeLabel label
        (",\"doc_ids\":".toList ++ writeIds ids ('\x7d' :: rest)) :=
  rfl

theorem writeTrie_inner (label : Option Char) (ids : List DocId) (c : Char) (t : Trie)
    (kids : List (Char × Trie)) (rest : List Char) :
    writeTrie label (.node ids ((c, t) :: kids)) rest =
      "\x7b\"char\":".toList ++ writeLabel label
        (",\"doc_ids\":".toList ++ writeIds ids
          (",\"children\":\x7b".toList ++ writeText (String.singleton c)
            (':' :: writeTrie (some c) t (writeMoreChildren kids ('\x7d' :: '\x7d' :: rest))))) :=
  rfl

theorem writeMoreChildren_cons (c : Char) (t : Trie) (kids : List (Char × Trie))
    (rest : List Char) :
    writeMoreChildren ((c, t) :: kids) rest =
      ',' :: writeText (String.singleton c)
        (':' :: writeTrie (some c) t (writeMoreChildren kids rest)) :=
  rfl

mutual

/-- **The two ways to write an index** give the same text: going through it, and writing the JSON
value of its record. -/
theorem writeTrie_eq : (t : Trie) → (label : Option Char) → (rest : List Char) →
    writeTrie label t rest = (ofTrie label t).toJson.write rest
  | .node ids [], label, rest => by
    rw [writeTrie_leaf, openRecord_eq, writeLabel_eq, idsKey_eq, writeIds_eq, ofTrie, ofChildren,
      toJson, Json.write, Json.writeMembers, Json.writeMembers]
  | .node ids ((c, t) :: kids), label, rest => by
    rw [writeTrie_inner, openRecord_eq, writeLabel_eq, idsKey_eq, writeIds_eq, childrenKey_eq,
      writeTrie_eq t, writeMoreChildren_eq kids, ofTrie, ofChildren, toJson, Json.write,
      Json.writeMembers, Json.writeMembers, Json.writeMembers, childrenJson, Json.write]

theorem writeMoreChildren_eq : (kids : List (Char × Trie)) → (rest : List Char) →
    writeMoreChildren kids rest = Json.writeMembers (childrenJson (ofChildren kids)) rest
  | [], rest => rfl
  | (c, t) :: kids, rest => by
    rw [writeMoreChildren_cons, writeTrie_eq t, writeMoreChildren_eq kids, ofChildren,
      childrenJson, Json.writeMembers]

end

/-! ## The value of a record -/

theorem childrenJson_eq (kids : List (Char × Record)) :
    childrenJson kids = kids.map fun e => (String.singleton e.1, toJson e.2) := by
  induction kids with
  | nil => rfl
  | cons head rest ih => rw [childrenJson, ih]; rfl

/-- The value of a record is made of null, texts and document numbers, so what arrays and objects
take over from what they hold is shown for these alone. -/
theorem toJson_induction {motive : Json → Prop} (null : motive .null)
    (text : ∀ s, motive (.text s)) (number : ∀ id : DocId, motive (.number id.text))
    (array : ∀ items, (∀ v ∈ items, motive v) → motive (.array items))
    (object : ∀ members, (∀ m ∈ members, motive m.2) → motive (.object members)) (r : Record) :
    motive r.toJson := by
  induction r using Record.induction with
  | node label ids kids ih =>
    have hlabel : motive (labelJson label) := by
      cases label with
      | none => exact null
      | some c => exact text _
    have hids : motive (.array (ids.map idJson)) := by
      refine array _ fun v hv => ?_
      obtain ⟨id, _, rfl⟩ := List.mem_map.mp hv
      exact number id
    have hkids : motive (.object (childrenJson kids)) := by
      refine object _ fun m hm => ?_
      rw [childrenJson_eq] at hm
      obtain ⟨e, he, rfl⟩ := List.mem_map.mp hm
      exact ih e he
    have hparts : ∀ m ∈ [("char", labelJson label), ("doc_ids", .array (ids.map idJson)),
        ("children", .object (childrenJson kids))], motive m.2 := by
      simp [hlabel, hids, hkids]
    cases kids with
    | nil =>
      rw [toJson]
      refine object _ fun m hm => hparts m ?_
      exact List.mem_append_left [_] hm
    | cons head rest =>
      rw [toJson]
      exact object _ hparts

/-- All numbers in the value of a record are number literals. -/
theorem wellFormed_toJson (r : Record) : r.toJson.WellFormed :=
  toJson_induction .null .text (fun id => .number (DocId.isNumber_text id)) (fun _ => .array)
    (fun _ => .object) r

end Concordance.Snapshot
