import Concordance.Trie

/-!
# What an index holds

Views of the whole trie, all in the order of the characters: `outline` names every node,
`entries` every word that has documents, `documents` every document once, in ascending order.
-/

namespace Concordance.Trie

/-- A node as it is met on the way through the trie: its distance from the root, the character
that leads to it, and its documents. -/
structure Visit where
  depth : Nat
  label : Option Char
  ids : List DocId
  deriving DecidableEq, Repr, Inhabited

mutual

/-- The nodes of a trie that hangs at a depth under a character, each before its children. -/
def outlineFrom (depth : Nat) (label : Option Char) : Trie → List Visit
  | node ids kids => ⟨depth, label, ids⟩ :: outlineBelow (depth + 1) kids

def outlineBelow (depth : Nat) : List (Char × Trie) → List Visit
  | [] => []
  | (c, t) :: rest => outlineFrom depth (some c) t ++ outlineBelow depth rest

end

def outline (t : Trie) : List Visit :=
  outlineFrom 0 none t

mutual

/-- The words with documents of a trie under a path, which is given last character first. -/
def entriesFrom (path : List Char) : Trie → List (String × List DocId)
  | node [] kids => entriesBelow path kids
  | node (d :: ds) kids => (String.ofList path.reverse, d :: ds) :: entriesBelow path kids

def entriesBelow (path : List Char) : List (Char × Trie) → List (String × List DocId)
  | [] => []
  | (c, t) :: rest => entriesFrom (c :: path) t ++ entriesBelow path rest

end

/-- The words that have documents, in lexicographic order, with their documents. -/
def entries (t : Trie) : List (String × List DocId) :=
  entriesFrom [] t

mutual

/-- The number of nodes, the root included. -/
def nodeCount : Trie → Nat
  | node _ kids => 1 + nodeCountBelow kids

def nodeCountBelow : List (Char × Trie) → Nat
  | [] => 0
  | (_, t) :: rest => nodeCount t + nodeCountBelow rest

end

mutual

/-- The documents of all nodes, as they are met on the way. -/
def gathered : Trie → List DocId
  | node ids kids => ids ++ gatheredBelow kids

def gatheredBelow : List (Char × Trie) → List DocId
  | [] => []
  | (_, t) :: rest => gathered t ++ gatheredBelow rest

end

/-- The documents of the index in ascending order, each once. -/
def documents (t : Trie) : List DocId :=
  (t.gathered.mergeSort fun a b => a ≤ b).eraseReps

end Concordance.Trie
