import Concordance.Children
import Concordance.DocId

/-!
# The index

The index maps words to the documents that hold them. It is a trie: the characters of a word
lead from the root to a node, and the node holds the numbers of the word's documents in the
order in which they came. A node is a list of document numbers and its children; the
character that leads to it belongs to the edge.

* `insert` and `remove` put one word of a document in and take a whole document out;
  `addDocument` replaces a document.
* `find?` follows a word; `lookup?` gives its documents.

Removing a document also drops every node below the root that has neither documents nor
children, whether or not the document had been there.
-/

namespace Concordance

/-- A trie: the documents of the word that ends here, and what goes on from here. -/
inductive Trie where
  | node (ids : List DocId) (children : List (Char × Trie))
  deriving Inhabited

namespace Trie

def empty : Trie :=
  node [] []

def ids : Trie → List DocId
  | node ids _ => ids

def children : Trie → Children Trie
  | node _ kids => kids

def isVacant : Trie → Bool
  | node [] [] => true
  | _ => false

/-- Document numbers with one more at their end, unless it is among them. -/
def addId (d : DocId) (ids : List DocId) : List DocId :=
  if ids.contains d then ids else ids ++ [d]

/-- Document numbers with only the first occurrence of each. -/
def distinctIds (ids : List DocId) : List DocId :=
  ids.foldl (fun seen d => addId d seen) []

def find? : Trie → List Char → Option Trie
  | t, [] => some t
  | node _ kids, c :: cs =>
    match kids.lookup c with
    | some t => find? t cs
    | none => none

/-- The trie with a word of a document. Nodes that are missing on the way are made. -/
def insert (d : DocId) : List Char → Trie → Trie
  | [], node ids kids => node (addId d ids) kids
  | c :: cs, node ids kids =>
    node ids (Children.upsert (fun t? => insert d cs (t?.getD empty)) c kids)

mutual

/-- The trie without a document, and without the nodes that are vacant then. -/
def remove (d : DocId) : Trie → Trie
  | node ids kids => node (ids.filter (· != d)) (removeBelow d kids)

def removeBelow (d : DocId) : List (Char × Trie) → List (Char × Trie)
  | [] => []
  | (c, t) :: rest =>
    let t' := remove d t
    -- A child that is vacant is dropped, whether or not the document had been there.
    if t'.isVacant then removeBelow d rest else (c, t') :: removeBelow d rest

end

/-- The trie with a document that holds exactly the given words, in place of the one that had
its number. -/
def addDocument (d : DocId) (words : List String) (t : Trie) : Trie :=
  words.foldl (fun t w => insert d w.toList t) (remove d t)

def contains (t : Trie) (word : String) : Bool :=
  (t.find? word.toList).isSome

/-- The documents of a word, if the word leads to a node. There are none at a node on the way
to longer words only. -/
def lookup? (t : Trie) (word : String) : Option (List DocId) :=
  (t.find? word.toList).map ids

end Trie

end Concordance
