import Concordance.Stack
import Concordance.Trie

/-!
# The index in an array

`Trie` says what an index is. It is kept in an array of nodes, which refer to each other by their
places in it, the *slots*. The root has slot 0. A node has the character that leads to it and the
slot of its parent, which is used only to take the node out again. Slots of nodes that were taken
out are kept on a list, and the next nodes go there before the array grows.

* `allocate?` makes a node below another, and `detach?` takes one out.
* `insertFrom?` follows a word from a slot, and makes the nodes that are missing on the way.
* `remove?` goes through the tree with a stack, and comes to a node a second time when all that is
  below it is done; the children that are vacant then are gathered first and taken out afterwards.

A slot beyond the end of the array ends an operation without a result.
-/

namespace Concordance

/-- A place in the array of nodes. -/
abbrev Slot := Nat

namespace Arena

/-- A node in the array: the character that leads to it, its documents, the slots of its children
and that of its parent. -/
structure Node where
  label : Option Char := none
  ids : List DocId := []
  children : Children Slot := []
  parent : Option Slot := none
  deriving DecidableEq, Repr, Inhabited

def Node.isVacant (node : Node) : Bool :=
  node.ids.isEmpty && node.children.isEmpty

end Arena

structure Arena where
  nodes : Array Arena.Node
  /-- The slots of nodes that were taken out, the last one first. -/
  free : List Slot
  deriving DecidableEq, Repr, Inhabited

namespace Arena

def root : Slot :=
  0

/-- The index with no node but the root. -/
def empty : Arena where
  nodes := #[{}]
  free := []

/-! ## Single nodes -/

def node? (a : Arena) (slot : Slot) : Option Node :=
  a.nodes[slot]?

/-- The array with the node at a slot changed. -/
def modify? (a : Arena) (slot : Slot) (f : Node → Node) : Option Arena :=
  if slot < a.nodes.size then some { a with nodes := a.nodes.modify slot f } else none

/-- A node is put into the slot that became free last, or at the end of the array. -/
def place? (a : Arena) (node : Node) : Option (Arena × Slot) :=
  match a.free with
  | slot :: free => do
    let a ← { a with free }.modify? slot fun _ => node
    return (a, slot)
  | [] => some ({ a with nodes := a.nodes.push node }, a.nodes.size)

/-- A new node below another, under a character. -/
def allocate? (a : Arena) (parent : Slot) (c : Char) : Option (Arena × Slot) := do
  let (a, slot) ← a.place? { label := some c, parent := some parent }
  let a ← a.modify? parent fun node => { node with children := node.children.put c slot }
  return (a, slot)

/-- A node is taken out, and its slot is free. -/
def detach? (a : Arena) (slot : Slot) : Option Arena := do
  let node ← a.node? slot
  let a ← a.modify? slot fun _ => {}
  let a ← match node.parent, node.label with
    | some parent, some c =>
      a.modify? parent fun node => { node with children := node.children.erase c }
    | _, _ => some a
  return { a with free := slot :: a.free }

/-! ## Edits -/

/-- A word of a document, which is followed from a slot on. -/
def insertFrom? (d : DocId) (slot : Slot) : List Char → Arena → Option Arena
  | [], a => a.modify? slot fun node => { node with ids := Trie.addId d node.ids }
  | c :: cs, a => do
    let node ← a.node? slot
    match node.children.lookup c with
    | some child => insertFrom? d child cs a
    | none =>
      let (a, child) ← a.allocate? slot c
      insertFrom? d child cs a

def insert? (d : DocId) (word : String) (a : Arena) : Option Arena :=
  insertFrom? d root word.toList a

/-- Those of some slots whose nodes are vacant. -/
def vacantAmong? (a : Arena) : List Slot → Option (List Slot)
  | [] => some []
  | slot :: slots => do
    let node ← a.node? slot
    let vacant ← a.vacantAmong? slots
    return if node.isVacant then slot :: vacant else vacant

/-- One step of removing a document. The document leaves the node, and the node is pushed again
below its children. When it comes up for the second time its vacant children are taken out. -/
def removeVisit (d : DocId) (a : Arena) : Slot × Bool → Option (Arena × List (Slot × Bool))
  | (slot, false) => do
    let a ← a.modify? slot fun node => { node with ids := node.ids.filter (· != d) }
    let node ← a.node? slot
    return (a, (slot, true) :: node.children.map fun e => (e.2, false))
  | (slot, true) => do
    let node ← a.node? slot
    let vacant ← a.vacantAmong? (node.children.map Prod.snd)
    let a ← vacant.foldlM detach? a
    return (a, [])

def remove? (d : DocId) (a : Arena) : Option Arena :=
  drain (removeVisit d) a [(root, false)]

def addDocument? (d : DocId) (words : List String) (a : Arena) : Option Arena := do
  words.foldlM (fun a word => a.insert? d word) (← a.remove? d)

/-! ## Views -/

/-- The trie below a slot, read from the array. -/
def trieFrom? (a : Arena) (slot : Slot) : Option Trie := do
  let node ← a.node? slot
  let kids ← node.children.mapM fun e => do return (e.1, ← a |>.trieFrom? e.2)
  return .node node.ids kids
partial_fixpoint

def trie? (a : Arena) : Option Trie :=
  a.trieFrom? root

/-- The slot that a path leads to from another, if it leads to one. -/
def findFrom? (a : Arena) (slot : Slot) : List Char → Option (Option Slot)
  | [] => some (some slot)
  | c :: cs => do
    let node ← a.node? slot
    match node.children.lookup c with
    | some child => a.findFrom? child cs
    | none => return none

def find? (a : Arena) (path : List Char) : Option (Option Slot) :=
  a.findFrom? root path

/-- The documents of a word, if the word leads to a node. -/
def lookup? (a : Arena) (word : String) : Option (Option (List DocId)) := do
  match ← a.find? word.toList with
  | none => return none
  | some slot => return some (← a.node? slot).ids

def contains? (a : Arena) (word : String) : Option Bool := do
  return (← a.find? word.toList).isSome

/-- The number of nodes, the root included. -/
def nodeCount (a : Arena) : Nat :=
  a.nodes.size - a.free.length

def isVacant? (a : Arena) : Option Bool := do
  return (← a.node? root).isVacant

end Arena

end Concordance
