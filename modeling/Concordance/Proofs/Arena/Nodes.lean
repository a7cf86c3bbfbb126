import Concordance.Proofs.Arena.Reachable
import Concordance.Proofs.Trie.Nodes

/-!
# The nodes in the array

Two properties of the nodes, as structures whose fields are their parts.

`Sound a` holds of every array that can come about. A path from the root always has an answer. The
documents of a node differ from each other; a child has the character that it hangs under, and knows
its parent. The slots that are not free are as many as the nodes which the walk meets, and the walk
meets the node at every path once.

`Tidy a` holds after every edit, also after one that names no document of the index, and whatever
vacant nodes the index had before: only nodes with documents or children are left below the root. So
the paths below the root are the non-empty starts of the words that hold documents, and they can be
counted there.

`nodes_of_reachable` is the theorem. Before an edit an index that was loaded may not be tidy.
-/

namespace Concordance.Arena

open Plot

/-- A path leads from the root to a slot. -/
def Leads (a : Arena) (cs : List Char) (slot : Slot) : Prop :=
  a.find? cs = some (some slot)

/-- What is so of the nodes of every index. -/
structure Sound (a : Arena) : Prop where
  exists_find? : ∀ cs, ∃ slot?, a.find? cs = some slot?
  nodup_ids : ∀ cs slot node, a.Leads cs slot → a.node? slot = some node → node.ids.Nodup
  /-- A child has the character of its key, and the slot of its parent. -/
  label_eq : ∀ cs slot node c kid, a.Leads cs slot → a.node? slot = some node →
    (c, kid) ∈ node.children →
    ∃ child, a.node? kid = some child ∧ child.label = some c ∧ child.parent = some slot
  label_root : ∃ node, a.node? root = some node ∧ node.label = none ∧ node.parent = none
  /-- The walk meets the node at each path, in some order of the paths, and no other. -/
  walk_eq : ∃ visits, a.walk? = some visits ∧ a.nodeCount = visits.length ∧
    ∃ paths : List (List Char), paths.Nodup ∧ (∀ cs, cs ∈ paths ↔ ∃ slot, a.Leads cs slot) ∧
      List.Forall₂ (fun cs visit => ∃ slot node, a.Leads cs slot ∧ a.node? slot = some node ∧
        visit = ⟨cs.length, node.label, node.ids⟩) paths visits

/-- What is so of the nodes directly after an edit. -/
structure Tidy (a : Arena) : Prop where
  occupied : ∀ cs slot node, cs ≠ [] → a.Leads cs slot → a.node? slot = some node →
    node.ids ≠ [] ∨ node.children ≠ []
  /-- The paths below the root are the starts of the words, and there are as many nodes. -/
  starts_eq : ∃ entries, a.entries? = some entries ∧
    (∀ cs, cs ≠ [] → ((∃ slot, a.Leads cs slot) ↔ ∃ e ∈ entries, cs <+: e.1.toList)) ∧
    ∃ starts : List (List Char), starts.Nodup ∧
      (∀ cs, cs ∈ starts ↔ cs ≠ [] ∧ ∃ e ∈ entries, cs <+: e.1.toList) ∧
      a.nodeCount = 1 + starts.length
  isVacant_iff : ∃ vacant documents, a.isVacant? = some vacant ∧ a.documents? = some documents ∧
    (vacant = true ↔ documents.toList = [])

variable {a : Arena} {t : Trie}

/-! ## Nodes at the end of a path -/

/-- The node at a path, and the trie below it. -/
theorem Represents.exists_of_leads (h : a.Represents t) {cs : List Char} {slot : Slot}
    (hleads : a.Leads cs slot) :
    ∃ parent p, a.Holds cs.getLast? parent p ∧ p.slot = slot ∧ t.find? cs = some p.trie := by
  obtain ⟨hnone, -⟩ | ⟨parent, p, hp, hfind, htrie⟩ := h.find? cs
  · rw [Leads, hnone] at hleads
    cases hleads
  · rw [Leads, hfind] at hleads
    cases hleads
    exact ⟨parent, p, hp, rfl, htrie⟩

/-- A path that leads to a node leads to one in the trie. -/
theorem Represents.exists_leads_iff (h : a.Represents t) {cs : List Char} :
    (∃ slot, a.Leads cs slot) ↔ (t.find? cs).isSome = true := by
  obtain ⟨hnone, htrie⟩ | ⟨parent, p, hp, hfind, htrie⟩ := h.find? cs
  · simp [Leads, hnone, htrie]
  · simp [Leads, hfind, htrie]

/-- The documents at a path are those of the trie there, and a node without children is one there. -/
theorem Represents.exists_node (h : a.Represents t) {cs : List Char} {slot : Slot} {node : Node}
    (hleads : a.Leads cs slot) (hnode : a.node? slot = some node) :
    ∃ u, t.find? cs = some u ∧ node.label = cs.getLast? ∧ node.ids = u.ids ∧
      (node.children = [] ↔ u.children = []) := by
  obtain ⟨parent, p, ⟨here, within⟩, rfl, htrie⟩ := h.exists_of_leads hleads
  rename_i slot ids kids
  obtain rfl := Option.some.inj (here.symm.trans hnode)
  refine ⟨_, htrie, rfl, rfl, ?_⟩
  rw [trie, Trie.children, triesBelow_eq, links, List.map_eq_nil_iff, List.map_eq_nil_iff]

/-! ## Every index -/

theorem Represents.sound (h : a.Represents t) (hw : t.WellFormed) : Sound a where
  exists_find? cs := by
    obtain ⟨hnone, -⟩ | ⟨_, p, -, hfind, -⟩ := h.find? cs
    · exact ⟨none, hnone⟩
    · exact ⟨some p.slot, hfind⟩
  nodup_ids cs slot node hleads hnode := by
    obtain ⟨u, hu, -, hids, -⟩ := h.exists_node hleads hnode
    rw [hids]
    exact (hw.find? hu).nodup_ids
  label_eq cs slot node c kid hleads hnode hmem := by
    obtain ⟨parent, p, ⟨here, within⟩, rfl, -⟩ := h.exists_of_leads hleads
    obtain rfl := Option.some.inj (here.symm.trans hnode)
    obtain ⟨e, he, heq⟩ := List.mem_map.mp hmem
    cases heq
    obtain ⟨child, hchild, hlabel, hparent, -⟩ := (within e he).node?_slot
    exact ⟨child, hchild, hlabel, hparent⟩
  label_root := by
    obtain ⟨p, ⟨hfits, hroot⟩, -⟩ := h
    obtain ⟨node, hnode, hlabel, hparent, -⟩ := hfits.holds.node?_slot
    exact ⟨node, hroot ▸ hnode, hlabel, hparent⟩
  walk_eq := by
    refine ⟨t.outline, h.walk?_eq, ?_, t.paths, Trie.nodup_paths hw, fun cs => ?_, ?_⟩
    · rw [h.nodeCount_eq, Trie.outline_eq hw, List.length_map, Trie.nodeCount_eq]
    · rw [Trie.mem_paths hw, h.exists_leads_iff]
    · rw [Trie.outline_eq hw, List.forall₂_map_right_iff, List.forall₂_same]
      intro cs hcs
      obtain ⟨slot, hleads⟩ := h.exists_leads_iff.mpr ((Trie.mem_paths hw).mp hcs)
      obtain ⟨parent, p, hp, rfl, htrie⟩ := h.exists_of_leads hleads
      obtain ⟨node, hnode, hlabel, -, hids⟩ := hp.node?_slot
      exact ⟨p.slot, node, hleads, hnode, by rw [hlabel, hids, Trie.idsAt, htrie]; rfl⟩

/-! ## After an edit -/

theorem Represents.tidy (h : a.Represents t) (hw : t.WellFormed) (hp : t.Pruned) : Tidy a where
  occupied cs slot node hne hleads hnode := by
    obtain ⟨u, hu, -, hids, hchildren⟩ := h.exists_node hleads hnode
    rw [hids, Ne, Ne, hchildren]
    exact Trie.isVacant_eq_false_iff.mp (hp.isVacant_find? hne hu)
  starts_eq := by
    refine ⟨t.entries, h.entries?_eq, fun cs hne => ?_, ?_⟩
    · rw [h.exists_leads_iff, hp.isSome_find?_iff_start hw hne]
    · rw [h.nodeCount_eq]
      exact hp.exists_starts hw
  isVacant_iff := by
    obtain ⟨documents, hdocuments, htoList⟩ := Option.map_eq_some_iff.mp h.documents?_eq
    exact ⟨t.isVacant, documents, h.isVacant?_eq, hdocuments, by
      rw [htoList, hp.isVacant_iff hw]⟩

/-- **The nodes of an index.** They are sound in every array that can come about. Every edit of it
comes to an end, and directly afterwards they are sound again, and tidy as well. -/
theorem nodes_of_reachable (ha : a.Reachable) :
    Sound a ∧ ∀ e : Trie.Edit, ∃ a', a.edit? e = some a' ∧ Sound a' ∧ Tidy a' := by
  obtain ⟨t, ht, hrepresents⟩ := ha.represents
  have hw := ht.wellFormed
  refine ⟨hrepresents.sound hw, fun e => ?_⟩
  obtain ⟨a', heq, hrepresents'⟩ := hrepresents.edit hw e
  exact ⟨a', heq, hrepresents'.sound (hw.apply e),
    hrepresents'.tidy (hw.apply e) (Trie.pruned_apply e t)⟩

/-- An index with two vacant nodes, one below the other. Removing a document that it does not hold
takes both out, and leaves the node on the way to a word. -/
theorem nodes_of_reachable_vacant :
    let r : Snapshot.Record := .node none []
      [('a', .node (some 'a') [] [('b', .node (some 'b') [] [])]),
        ('c', .node (some 'c') [] [('d', .node (some 'd') [1] [])])]
    let a : Arena := {
      nodes := #[⟨none, [], [('a', 1), ('c', 2)], none⟩, ⟨some 'a', [], [('b', 4)], some 0⟩,
        ⟨some 'c', [], [('d', 3)], some 0⟩, ⟨some 'd', [1], [], some 2⟩, ⟨some 'b', [], [], some 1⟩]
      free := [] }
    let a' : Arena := {
      nodes := #[⟨none, [], [('c', 2)], none⟩, {}, ⟨some 'c', [], [('d', 3)], some 0⟩,
        ⟨some 'd', [1], [], some 2⟩, {}]
      free := [1, 4] }
    ofRecord? r = some (.ok a) ∧ a.Reachable ∧ Sound a ∧ a.edit? (.remove 7) = some a' ∧ Sound a' ∧
      Tidy a' ∧ a'.nodeCount = 3 := by
  intro r a a'
  have hgrow : ofRecord? r = some (.ok a) := by
    rw [ofRecord?]
    exact grow?_eq_of_within 5 rfl
  have hremove : a.edit? (.remove 7) = some a' := drain_eq_of_within 10 (by decide +kernel)
  have ht : Trie.WellFormed (.node []
      [('a', .node [] [('b', .node [] [])]), ('c', .node [] [('d', .node [1] [])])]) := by decide
  have hr : r.Ordered := Snapshot.Record.ordered_ofTrie none ht
  have ha : a.Reachable := .ofRecord hr hgrow
  obtain ⟨hsound, hedit⟩ := nodes_of_reachable ha
  obtain ⟨a'', heq, hsound', htidy⟩ := hedit (.remove 7)
  obtain rfl := Option.some.inj (hremove.symm.trans heq)
  exact ⟨hgrow, ha, hsound, hremove, hsound', htidy, rfl⟩

end Concordance.Arena
