import Concordance.Proofs.Arena.Reachable
import Concordance.Proofs.Snapshot.RoundTrip

/-!
# The layout of a snapshot

A snapshot is written from the array in one go (`render?`), and it is meant to be the compact JSON text
of the index's record, which is put together from a list (`toRecord?`). `Layout` says of a JSON value,
without records, that it is laid out like a node in the array: the members `char`, `doc_ids` and
`children` in this order, the last one exactly where there are children, and these in the order of
their characters.

`render_of_reachable` joins the three: the snapshot is the text of the record's value, and that value is
laid out like the index. A value with this layout is the only one (`Holds.eq_of_layout`).
-/

namespace Concordance.Arena

open Plot Snapshot Snapshot.Record

/-- The JSON values of the nodes in the array. -/
inductive Layout (a : Arena) : Slot → Json → Prop where
  | leaf {slot : Slot} {node : Node} (here : a.node? slot = some node)
      (hnone : node.children = []) :
      a.Layout slot
        (.object [("char", labelJson node.label), ("doc_ids", .array (node.ids.map idJson))])
  | inner {slot : Slot} {node : Node} {value : Char × Slot → Json}
      (here : a.node? slot = some node) (hsome : node.children ≠ [])
      (ascending : Children.Ascending node.children)
      (within : ∀ e ∈ node.children, a.Layout e.2 (value e)) :
      a.Layout slot
        (.object [("char", labelJson node.label), ("doc_ids", .array (node.ids.map idJson)),
          ("children", .object (node.children.map fun e => (String.singleton e.1, value e)))])

variable {a : Arena} {label : Option Char} {parent : Option Slot} {p : Plot}

theorem toJson_ofTrie_leaf (label : Option Char) (ids : List DocId) :
    (ofTrie label (.node ids [])).toJson =
      .object [("char", labelJson label), ("doc_ids", .array (ids.map idJson))] := by
  rw [ofTrie, ofChildren, toJson]

theorem toJson_ofTrie_inner (label : Option Char) (ids : List DocId)
    {kids : List (Char × Plot)} (hne : kids ≠ []) :
    (ofTrie label (.node ids (triesBelow kids))).toJson =
      .object [("char", labelJson label), ("doc_ids", .array (ids.map idJson)),
        ("children", .object
          (kids.map fun e => (String.singleton e.1, (ofTrie (some e.1) e.2.trie).toJson)))] := by
  have hkids : childrenJson (ofChildren (triesBelow kids)) =
      kids.map fun e => (String.singleton e.1, (ofTrie (some e.1) e.2.trie).toJson) := by
    rw [childrenJson_eq, ofChildren_eq, triesBelow_eq, List.map_map, List.map_map]
    rfl
  rw [← hkids]
  obtain ⟨⟨c, t⟩, rest, rfl⟩ := List.exists_cons_of_ne_nil hne
  rw [triesBelow, ofTrie, ofChildren, toJson]

/-- A value that is laid out like a plot is that of its record. -/
theorem Holds.eq_of_layout (h : a.Holds label parent p) {v : Json} (hv : a.Layout p.slot v) :
    v = (ofTrie label p.trie).toJson := by
  induction h generalizing v with
  | @node label parent slot ids kids here within ih =>
    rw [Plot.slot] at hv
    rw [trie]
    cases hv with
    | leaf here' hnone =>
      rw [here] at here'
      cases here'
      obtain rfl := List.map_eq_nil_iff.mp hnone
      rw [triesBelow, toJson_ofTrie_leaf]
    | @inner _ _ value here' hsome _ hwithin =>
      rw [here] at here'
      cases here'
      have hne : kids ≠ [] := fun heq => hsome (by rw [heq]; rfl)
      have hvalues : (links kids).map (fun e => (String.singleton e.1, value e)) =
          kids.map fun e => (String.singleton e.1, (ofTrie (some e.1) e.2.trie).toJson) := by
        rw [links, List.map_map]
        refine List.map_congr_left fun e he => ?_
        rw [Function.comp_apply, ih e he (hwithin _ (List.mem_map_of_mem he))]
      rw [toJson_ofTrie_inner label ids hne, ← hvalues]

/-- The value of the record that belongs to a slot and the character before it. -/
def valueAt (a : Arena) (e : Char × Slot) : Json :=
  match a.trieFrom? e.2 with
  | some t => (ofTrie (some e.1) t).toJson
  | none => .null

/-- The value of the record of a plot is laid out like the plot. -/
theorem Holds.layout (h : a.Holds label parent p) (hw : p.trie.WellFormed) :
    a.Layout p.slot (ofTrie label p.trie).toJson := by
  induction h with
  | @node label parent slot ids kids here within ih =>
    rw [trie] at hw
    obtain ⟨_, hasc, hwithin⟩ := hw
    rw [Plot.slot, trie]
    by_cases hne : kids = []
    · subst hne
      rw [triesBelow, toJson_ofTrie_leaf]
      exact .leaf here rfl
    · have hvalue : ∀ e ∈ kids,
          a.valueAt (e.1, e.2.slot) = (ofTrie (some e.1) e.2.trie).toJson := by
        intro e he
        rw [valueAt, (within e he).trieFrom?_eq]
      have hvalues : (links kids).map (fun e => (String.singleton e.1, a.valueAt e)) =
          kids.map fun e => (String.singleton e.1, (ofTrie (some e.1) e.2.trie).toJson) := by
        rw [links, List.map_map]
        exact List.map_congr_left fun e he => by rw [Function.comp_apply, hvalue e he]
      rw [toJson_ofTrie_inner label ids hne, ← hvalues]
      have hasc' : Children.Ascending (links kids) := (ascending_triesBelow.mp hasc).map _
      refine .inner here (by simpa [links] using hne) hasc' fun e he => ?_
      obtain ⟨e', he', rfl⟩ := List.mem_map.mp he
      rw [hvalue e' he']
      exact ih e' he' (hwithin (e'.1, e'.2.trie) (by
        rw [triesBelow_eq]
        exact List.mem_map_of_mem he'))

/-- **Writing a snapshot in one go.** For every array that can come about, the record and the text come
about, and the text is that of the record's JSON value, character for character; and this value, and no
other, is laid out like the index. -/
theorem render_of_reachable (ha : a.Reachable) :
    ∃ r text, a.toRecord? = some r ∧ a.render? = some text ∧ text = r.toJson.render ∧
      ∀ v : Json, a.Layout root v ↔ v = r.toJson := by
  obtain ⟨t, ht, h⟩ := ha.represents
  have hw := ht.wellFormed
  refine ⟨_, _, h.toRecord?_eq hw, h.render?_eq, ?_, fun v => ?_⟩
  · rw [← String.toList_inj, toList_render, Json.render, String.toList_ofList]
  · obtain ⟨p, ⟨hfits, hroot⟩, rfl⟩ := h
    rw [← hroot]
    constructor
    · exact hfits.holds.eq_of_layout
    · rintro rfl
      exact hfits.holds.layout hw

/-- An index with children on two levels, and a character that is escaped. The slot of `c` was that of
another node before. -/
theorem render_of_reachable_nested :
    let a : Arena := {
      nodes := #[⟨none, [], [('"', 2), ('c', 1)], none⟩, ⟨some 'c', [7], [], some 0⟩,
        ⟨some '"', [7], [('a', 3), ('b', 4)], some 0⟩, ⟨some 'a', [7], [], some 2⟩,
        ⟨some 'b', [7], [], some 2⟩]
      free := [] }
    let text := "\x7b\"char\":null,\"doc_ids\":[],\"children\":\x7b" ++
      "\"\\\"\":\x7b\"char\":\"\\\"\",\"doc_ids\":[7],\"children\":\x7b" ++
      "\"a\":\x7b\"char\":\"a\",\"doc_ids\":[7]\x7d," ++
      "\"b\":\x7b\"char\":\"b\",\"doc_ids\":[7]\x7d\x7d\x7d," ++
      "\"c\":\x7b\"char\":\"c\",\"doc_ids\":[7]\x7d\x7d\x7d"
    a.Reachable ∧ ∃ r, a.toRecord? = some r ∧ r.toJson.render = text ∧ a.render? = some text ∧
      a.Layout root r.toJson := by
  intro a text
  let before : Arena := {
    nodes := #[⟨none, [], [('x', 1)], none⟩, ⟨some 'x', [7], [], some 0⟩]
    free := [] }
  let between : Arena := { nodes := #[{}, {}], free := [1] }
  have hfirst : empty.edit? (.add 7 ["x"]) = some before := by
    rw [edit?, addDocument?, remove?_empty]
    decide +kernel
  have hbefore : before.remove? 7 = some between := drain_eq_of_within 4 (by decide +kernel)
  have hsecond : before.edit? (.add 7 ["c", "\"a", "\"b", "\""]) = some a := by
    rw [edit?, addDocument?, hbefore]
    decide +kernel
  have ha : a.Reachable := .edit _ (.edit _ .fresh hfirst) hsecond
  have htext : a.render? = some text := by
    have hdrain : drain a.writeVisit [] [.node root] = some text.toList :=
      drain_eq_of_within 20 (by decide +kernel)
    rw [render?, hdrain]
    exact congrArg some String.ofList_toList
  obtain ⟨r, text', hr, htext', heq, hlayout⟩ := render_of_reachable ha
  obtain rfl := Option.some.inj (htext.symm.trans htext')
  exact ⟨ha, r, hr, heq.symm, htext, (hlayout _).mpr rfl⟩

end Concordance.Arena
