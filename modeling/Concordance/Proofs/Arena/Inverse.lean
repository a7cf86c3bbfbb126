import Concordance.Proofs.Arena.Nodes
import Concordance.Proofs.Snapshot.Inverse

/-!
# Records and the array, there and back

From an array to its record and back the index stays what it is, though its nodes may get other slots;
and the record has one node for each node in the array. From a record to its array and back only
repeated documents are lost. `records_of_reachable` has both directions.
-/

namespace Concordance.Arena

open Snapshot Snapshot.Record

variable {a : Arena} {t : Trie}

/-- The nodes of the record are those in the array. -/
theorem Represents.mem_nodes_iff (h : a.Represents t) (hw : t.WellFormed) (n : Snapshot.Node) :
    n ∈ (Snapshot.toRecord t).nodes ↔ ∃ slot node, a.Leads n.path slot ∧ a.node? slot = some node ∧
      n.label = node.label ∧ n.ids = node.ids := by
  rw [Snapshot.toRecord, nodes_ofTrie hw, List.mem_map]
  constructor
  · rintro ⟨cs, hcs, rfl⟩
    obtain ⟨slot, hleads⟩ := h.exists_leads_iff.mpr ((Trie.mem_paths hw).mp hcs)
    obtain ⟨parent, p, hp, rfl, htrie⟩ := h.exists_of_leads hleads
    obtain ⟨node, hnode, hlabel, -, hids⟩ := hp.node?_slot
    refine ⟨p.slot, node, hleads, hnode, ?_, ?_⟩
    · rw [hlabel, Option.or_none]
    · rw [hids, Trie.idsAt, htrie]
      rfl
  · obtain ⟨path, label, ids⟩ := n
    rintro ⟨slot, node, hleads, hnode, rfl, rfl⟩
    obtain ⟨u, hu, hlabel, hids, -⟩ := h.exists_node hleads hnode
    refine ⟨path, (Trie.mem_paths hw).mpr (by rw [hu]; rfl), ?_⟩
    rw [Option.or_none, Trie.idsAt, hu, hlabel, hids]
    rfl

/-- A record whose characters are all in their places comes back from the array with the first
occurrences of its documents. -/
theorem exists_ofRecord?_of_labelled {r : Record} (hr : r.Ordered) (hlabelled : r.Labelled none) :
    ∃ a, ofRecord? r = some (.ok a) ∧ a.toRecord? = some r.reduced := by
  have htrie : r.toTrie = .ok r.strip :=
    toTrie_eq_ok_iff.mpr ⟨hlabelled.label_eq, hlabelled.mislabelledBelow?_eq_none, rfl⟩
  have hagrees := agrees_toTrie hr
  rw [htrie] at hagrees
  obtain ⟨a, heq, ha⟩ := hagrees
  exact ⟨a, heq, by
    rw [ha.toRecord?_eq hr.wellFormed_strip, Snapshot.toRecord, hlabelled.ofTrie_strip]⟩

/-- **Records and the array, there and back.** The record of an array that can come about has one node
for each node that a path leads to, at the same path, with the same character and the same documents,
and it makes an array with the same trie. A record whose characters are all in their places is
accepted, and comes back from its array with the first occurrences of its documents. -/
theorem records_of_reachable :
    (∀ a : Arena, a.Reachable →
      ∃ r t, a.toRecord? = some r ∧ a.trie? = some t ∧ (r.nodes.map Node.path).Nodup ∧
        (∀ n : Snapshot.Node, n ∈ r.nodes ↔
          ∃ slot node, a.Leads n.path slot ∧ a.node? slot = some node ∧ n.label = node.label ∧
            n.ids = node.ids) ∧
        ∃ a', ofRecord? r = some (.ok a') ∧ a'.trie? = some t) ∧
      ∀ r : Record, r.Ordered → r.Labelled none →
        ∃ a, ofRecord? r = some (.ok a) ∧ a.toRecord? = some r.reduced := by
  refine ⟨fun a ha => ?_, fun r hr hlabelled => exists_ofRecord?_of_labelled hr hlabelled⟩
  obtain ⟨t, ht, h⟩ := ha.represents
  have hw := ht.wellFormed
  refine ⟨_, t, h.toRecord?_eq hw, h.trie?_eq, ?_, h.mem_nodes_iff hw, ?_⟩
  · have hpaths : (Snapshot.toRecord t).nodes.map Node.path = t.paths := by
      rw [Snapshot.toRecord, nodes_ofTrie hw, List.map_map]
      exact List.map_id' t.paths
    rw [hpaths]
    exact Trie.nodup_paths hw
  · have hagrees := agrees_toTrie (ordered_ofTrie none hw)
    rw [toTrie_ofTrie hw] at hagrees
    obtain ⟨a', heq, ha'⟩ := hagrees
    exact ⟨a', heq, ha'.trie?_eq⟩

/-- An array in which a slot became free and was used again, and a record on three levels that lists
documents twice. -/
theorem records_of_reachable_repeated :
    let a : Arena := {
      nodes := #[⟨none, [], [('b', 1)], none⟩, ⟨some 'b', [4], [('ß', 2)], some 0⟩,
        ⟨some 'ß', [4], [], some 1⟩]
      free := [] }
    let r : Record := .node none [3, 3]
      [('a', .node (some 'a') [] [('b', .node (some 'b') [2, 1, 2] [])])]
    let r' : Record := .node none [3]
      [('a', .node (some 'a') [] [('b', .node (some 'b') [2, 1] [])])]
    a.Reachable ∧ (∃ s, a.toRecord? = some s ∧ ⟨['b', 'ß'], some 'ß', [4]⟩ ∈ s.nodes ∧
      ∃ a', ofRecord? s = some (.ok a') ∧ a'.trie? = a.trie?) ∧
      r.Labelled none ∧ ∃ a', ofRecord? r = some (.ok a') ∧ a'.toRecord? = some r' := by
  intro a r r'
  let before : Arena := {
    nodes := #[⟨none, [], [('x', 1)], none⟩, ⟨some 'x', [4], [], some 0⟩]
    free := [] }
  let between : Arena := { nodes := #[{}, {}], free := [1] }
  have hfirst : empty.edit? (.add 4 ["x"]) = some before := by
    rw [edit?, addDocument?, remove?_empty]
    decide +kernel
  have hbefore : before.remove? 4 = some between := drain_eq_of_within 4 (by decide +kernel)
  have hsecond : before.edit? (.add 4 ["b", "bß"]) = some a := by
    rw [edit?, addDocument?, hbefore]
    decide +kernel
  have ha : a.Reachable := .edit _ (.edit _ .fresh hfirst) hsecond
  have hleads : a.Leads ['b', 'ß'] 2 := by
    rw [Leads]
    decide +kernel
  have hordered : r.Ordered := by
    refine .node (by simp [Children.Ascending]) fun e he => ?_
    obtain rfl := List.mem_singleton.mp he
    refine .node (by simp [Children.Ascending]) fun e he => ?_
    obtain rfl := List.mem_singleton.mp he
    exact .node .nil (List.forall_mem_nil _)
  have hr : r.Labelled none := by
    refine .node none [3, 3] fun e he => ?_
    obtain rfl := List.mem_singleton.mp he
    refine .node (some 'a') [] fun e he => ?_
    obtain rfl := List.mem_singleton.mp he
    exact .node (some 'b') [2, 1, 2] (List.forall_mem_nil _)
  obtain ⟨harray, hrecord⟩ := records_of_reachable
  obtain ⟨s, t, hs, ht, -, hnodes, a', ha', htrie⟩ := harray a ha
  exact ⟨ha, ⟨s, hs, (hnodes _).mpr ⟨2, _, hleads, rfl, rfl, rfl⟩, a', ha', htrie.trans ht.symm⟩, hr,
    hrecord r hordered hr⟩

end Concordance.Arena
