import Concordance.Proofs.Trie.Paths
import Concordance.Proofs.Trie.Reachable

/-!
# Records and tries, there and back

The record of a trie holds the trie: node by node the same documents, at the same place, under
the same character (`nodes_ofTrie`), and nothing else. In the other direction a record may hold
more than a trie does, since it can list a document twice. `Labelled` says which records are
accepted, and `reduced` what of them remains (`Labelled.ofTrie_strip`).
-/

namespace Concordance.Snapshot

/-- A node of a snapshot as it is met from the root: the keys that lead to it, and what it holds. -/
structure Node where
  path : List Char
  label : Option Char
  ids : List DocId
  deriving DecidableEq, Repr, Inhabited

namespace Record

mutual

/-- The nodes of a snapshot, each before those below it. -/
def nodes : Record → List Node
  | node label ids kids => ⟨[], label, ids⟩ :: nodesBelow kids

def nodesBelow : List (Char × Record) → List Node
  | [] => []
  | (c, r) :: rest => (nodes r).map (fun n => { n with path := c :: n.path }) ++ nodesBelow rest

end

mutual

/-- The record with only the first occurrence of each document of a node. -/
def reduced : Record → Record
  | node label ids kids => node label ids.eraseDups (reducedAll kids)

def reducedAll : List (Char × Record) → List (Char × Record)
  | [] => []
  | (c, r) :: rest => (c, reduced r) :: reducedAll rest

end

/-- A record with a character, below which every record has the character of its key. -/
inductive Labelled : Option Char → Record → Prop where
  | node (label : Option Char) (ids : List DocId) {kids : List (Char × Record)}
      (within : ∀ e ∈ kids, Labelled (some e.1) e.2) : Labelled label (.node label ids kids)

/-! ## From an index to its record -/

theorem nodesBelow_eq (kids : List (Char × Record)) :
    nodesBelow kids =
      kids.flatMap fun e => (nodes e.2).map fun n => { n with path := e.1 :: n.path } := by
  induction kids with
  | nil => rfl
  | cons head rest ih => rw [nodesBelow, ih, List.flatMap_cons]

/-- The record of an index has a node for each path, under the last character of the path. -/
theorem nodes_ofTrie {t : Trie} (h : t.WellFormed) (label : Option Char) :
    (ofTrie label t).nodes = t.paths.map fun cs => ⟨cs, cs.getLast?.or label, t.idsAt cs⟩ := by
  induction t using Trie.induction generalizing label with
  | node ids kids ih =>
    obtain ⟨_, ha, hw⟩ := h
    have hchild : ∀ e ∈ kids,
        ((ofTrie (some e.1) e.2).nodes.map fun n => { n with path := e.1 :: n.path }) =
          (e.2.paths.map (e.1 :: ·)).map
            fun cs => ⟨cs, cs.getLast?.or label, (Trie.node ids kids).idsAt cs⟩ := by
      intro e he
      rw [ih e he (hw e he), List.map_map, List.map_map]
      refine List.map_congr_left fun cs _ => ?_
      -- The key of the child is the last character of its own path, and in front of the others.
      cases hlast : cs.getLast? <;>
        simp [Trie.idsAt_of_mem ha he, List.getLast?_cons, hlast]
    have hbelow : nodesBelow (ofChildren kids) = (Trie.pathsBelow kids).map
        fun cs => ⟨cs, cs.getLast?.or label, (Trie.node ids kids).idsAt cs⟩ := by
      rw [nodesBelow_eq, ofChildren_eq, Trie.pathsBelow_eq, List.flatMap_map, List.map_flatMap]
      exact List.flatMap_congr hchild
    rw [ofTrie, nodes, hbelow, Trie.paths, List.map_cons, Trie.idsAt_nil]
    rfl

/-! ## From a record to its index -/

theorem reducedAll_eq (kids : List (Char × Record)) :
    reducedAll kids = kids.map fun e => (e.1, reduced e.2) := by
  induction kids with
  | nil => rfl
  | cons head rest ih => rw [reducedAll, ih]; rfl

theorem Labelled.label_eq {label : Option Char} {r : Record} (h : Labelled label r) :
    r.label = label := by
  cases h
  rfl

/-- A record with all its characters in their places has none that is misplaced. -/
theorem Labelled.mislabelledBelow?_eq_none {label : Option Char} {r : Record}
    (h : Labelled label r) : mislabelledBelow? r = none := by
  induction h with
  | node label ids within ih =>
    exact mislabelledBelow?_eq_none_iff.mpr fun e he => ⟨(within e he).label_eq, ih e he⟩

/-- Of a record that is made into an index and back only repeated documents are lost. -/
theorem Labelled.ofTrie_strip {label : Option Char} {r : Record} (h : Labelled label r) :
    ofTrie label r.strip = r.reduced := by
  induction h with
  | @node label ids kids within ih =>
    have hkids : ofChildren (stripAll kids) = reducedAll kids := by
      rw [ofChildren_eq, stripAll_eq, reducedAll_eq, List.map_map]
      exact List.map_congr_left fun e he => by rw [Function.comp_apply, ih e he]
    rw [strip, ofTrie, reduced, hkids, Trie.distinctIds_eq_eraseDups]

end Record

end Concordance.Snapshot
