import Concordance.Arena
import Concordance.Statistics
import Std.Data.TreeSet

/-!
# Lists of the index in the array

Each list is made by a loop over a stack. `walk?` meets every node. `entries?` spells the words in
one buffer, which it cuts back to the length of the parent's word before each node: the stack holds
the slots with these lengths in bytes. `documents?` gathers the documents of all nodes.
-/

namespace Concordance

namespace Arena

/-! ## The walk -/

def walkVisit (a : Arena) (visits : List Trie.Visit) :
    Slot × Nat → Option (List Trie.Visit × List (Slot × Nat))
  | (slot, depth) => do
    let node ← a.node? slot
    return (visits ++ [⟨depth, node.label, node.ids⟩],
      node.children.reverse.map fun e => (e.2, depth + 1))

/-- All nodes, each before its children, and these in the order of their characters. -/
def walk? (a : Arena) : Option (List Trie.Visit) :=
  drain a.walkVisit [] [(root, 0)]

/-! ## Words -/

/-- The length of a text in bytes. -/
def byteLength : List Char → Nat
  | [] => 0
  | c :: cs => c.utf8Size + byteLength cs

/-- The characters that the first bytes of a text make up. There is no result where the cut falls
inside a character; a text that is not longer stays as it is. -/
def truncate? : Nat → List Char → Option (List Char)
  | 0, _ => some []
  | _ + 1, [] => some []
  | n + 1, c :: cs =>
    if c.utf8Size ≤ n + 1 then do return c :: (← truncate? (n + 1 - c.utf8Size) cs) else none

/-- One step of listing the words: the buffer is cut back to the word of the parent, and the
character of the node goes to its end. -/
def entriesVisit (a : Arena) (state : List Char × List (String × List DocId)) :
    Slot × Nat → Option ((List Char × List (String × List DocId)) × List (Slot × Nat))
  | (slot, length) => do
    let (buffer, entries) := state
    let node ← a.node? slot
    let buffer ← truncate? length buffer
    let buffer := buffer ++ node.label.toList
    let entries := if node.ids.isEmpty then entries else entries ++ [(String.ofList buffer, node.ids)]
    return ((buffer, entries), node.children.reverse.map fun e => (e.2, byteLength buffer))

/-- The words that have documents, with these. -/
def entries? (a : Arena) : Option (List (String × List DocId)) := do
  return (← drain a.entriesVisit ([], []) [(root, 0)]).2

/-! ## Documents -/

def documentsVisit (a : Arena) (documents : Std.TreeSet DocId) (slot : Slot) :
    Option (Std.TreeSet DocId × List Slot) := do
  let node ← a.node? slot
  return (documents.insertMany node.ids, node.children.map Prod.snd)

/-- The documents of all nodes. -/
def documents? (a : Arena) : Option (Std.TreeSet DocId) :=
  drain a.documentsVisit ∅ [root]

end Arena

def Statistics.ofArena? (a : Arena) : Option Statistics := do
  let entries ← a.entries?
  let documents ← a.documents?
  return {
    nodes := a.nodeCount
    words := entries.length
    documents := documents.size
    postings := entries.foldr (fun e n => e.2.length + n) 0 }

end Concordance
