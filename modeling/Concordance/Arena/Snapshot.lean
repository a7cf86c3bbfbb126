import Concordance.Arena
import Concordance.Snapshot

/-!
# Snapshots of the index in the array

A snapshot may have as many levels as a word has characters, so it is made, written and read by
loops.

* `toRecord?` lists the records of all nodes and where in the list their parents are, each record
  after that of its parent; then it goes through the list from its end and moves every record into
  its parent.
* `render?` writes the snapshot without making records, with the steps to come on a stack.
* `ofRecord?` puts the nodes of a record into the array, one record at a time, and keeps the children
  that are still to be put there on a stack. A character that is not the key ends it.
-/

namespace Concordance

namespace Snapshot.Record

/-- The record with a child put under a character. -/
def putChild (r : Record) (c : Char) (child : Record) : Record :=
  match r with
  | node label ids kids => node label ids (Children.put c child kids)

end Snapshot.Record

namespace Arena

open Snapshot

/-! ## Making records -/

/-- The record of a node without its children. -/
def Node.detached (node : Node) : Record :=
  .node node.label node.ids []

/-- The records of nodes without their children, and where those of their parents are. Children of
the root have no place to point to. -/
structure Gathered where
  records : Array Record
  parents : Array (Option Nat)

def gatherVisit (a : Arena) (g : Gathered) :
    Slot × Option Nat → Option (Gathered × List (Slot × Option Nat))
  | (slot, parent) => do
    let node ← a.node? slot
    return ({ records := g.records.push node.detached, parents := g.parents.push parent },
      node.children.map fun e => (e.2, some g.records.size))

/-- The last record is moved into its parent, then the one before, and so on to the first. -/
def assemble? (records : Array Record) (parents : Array (Option Nat)) (top : Record) :
    Option Record :=
  match _h : records.back? with
  | none => some top
  | some record =>
    match record.label with
    | none => assemble? records.pop parents top
    | some c =>
      match parents[records.size - 1]? with
      | none => none
      | some none => assemble? records.pop parents (top.putChild c record)
      | some (some parent) =>
        if parent < records.pop.size then
          assemble? (records.pop.modify parent fun r => r.putChild c record) parents top
        else none
termination_by records.size
decreasing_by
  all_goals
    have hpos : 0 < records.size := by
      rw [Array.back?_eq_getElem?] at _h
      grind
    simp
    omega

/-- The record of the index. -/
def toRecord? (a : Arena) : Option Record := do
  let top ← a.node? root
  let g ← drain a.gatherVisit ⟨#[], #[]⟩ (top.children.map fun e => (e.2, none)).reverse
  assemble? g.records g.parents top.detached

/-! ## Writing -/

/-- What is still to be written. -/
inductive Step where
  | node (slot : Slot)
  /-- The key of a child. A comma goes before all but the first. -/
  | key (c : Char) (first : Bool)
  /-- The end of the children and of the node that has them. -/
  | close
  deriving DecidableEq, Repr, Inhabited

/-- The steps for some children with the places that they have among them: the node and, above it,
its key, from the last child to the first. -/
def childSteps (kids : List ((Char × Slot) × Nat)) : List Step :=
  kids.reverse.flatMap fun e => [.node e.1.2, .key e.1.1 (e.2 == 0)]

def writeVisit (a : Arena) (text : List Char) : Step → Option (List Char × List Step)
  | .node slot => do
    let node ← a.node? slot
    let text := text ++ "\x7b\"char\":".toList ++ writeLabel node.label []
    let text := text ++ ",\"doc_ids\":".toList ++ writeIds node.ids []
    if node.children.isEmpty then return (text ++ ['\x7d'], [])
    else return (text ++ ",\"children\":\x7b".toList, .close :: childSteps node.children.zipIdx)
  | .key c first =>
    let text := if first then text else text ++ [',']
    some (text ++ Json.writeText (String.singleton c) [] ++ [':'], [])
  | .close => some (text ++ ['\x7d', '\x7d'], [])

/-- The snapshot of the index. -/
def render? (a : Arena) : Option String := do
  return String.ofList (← drain a.writeVisit [] [.node root])

/-! ## Reading -/

/-- Children of a node for which there are no nodes yet. -/
abbrev Pending := Slot × List (Char × Record)

/-- A new node that holds some documents, each once. -/
def attach? (a : Arena) (parent : Slot) (c : Char) (ids : List DocId) : Option (Arena × Slot) := do
  let (a, slot) ← a.allocate? parent c
  let a ← ids.foldlM
    (fun a d => a.modify? slot fun node => { node with ids := Trie.addId d node.ids }) a
  return (a, slot)

/-- The children of a node are put into the array one after the other, and what is below them is
pushed. -/
def attachAll? (a : Arena) (parent : Slot) (stack : List Pending) :
    List (Char × Record) → Option (Except Mislabelling (Arena × List Pending))
  | [] => some (.ok (a, stack))
  | (c, .node label ids kids) :: rest =>
    if label = some c then do
      let (a, slot) ← a.attach? parent c ids
      a.attachAll? parent ((slot, kids) :: stack) rest
    else some (.error (.child c label))

/-- Children are taken from the top of the stack until none are pending. -/
def grow? (a : Arena) : List Pending → Option (Except Mislabelling Arena)
  | [] => some (.ok a)
  | (parent, kids) :: stack =>
    match a.attachAll? parent stack kids with
    | none => none
    | some (.error m) => some (.error m)
    | some (.ok (a', stack')) => a' |>.grow? stack'
partial_fixpoint

theorem grow?_nil (a : Arena) : a.grow? [] = some (.ok a) := by
  rw [grow?]

theorem grow?_cons (a : Arena) (slot : Slot) (kids : List (Char × Record)) (stack : List Pending) :
    a.grow? ((slot, kids) :: stack) =
      match a.attachAll? slot stack kids with
      | none => none
      | some (.error m) => some (.error m)
      | some (.ok (a', stack')) => a'.grow? stack' := by
  rw [grow?]

/-- The root gets some documents in place of its own, each once. -/
def setRootIds? (a : Arena) (ids : List DocId) : Option Arena := do
  let a ← a.modify? root fun node => { node with ids := [] }
  ids.foldlM (fun a d => a.modify? root fun node => { node with ids := Trie.addId d node.ids }) a

/-- The index that a record describes. -/
def ofRecord? : Record → Option (Except Mislabelling Arena)
  | .node (some c) _ _ => some (.error (.root c))
  | .node none ids kids => do grow? (← empty.setRootIds? ids) [(root, kids)]

/-- The index that a text describes. -/
def ofText? (text : String) : Option (Except SearchError Arena) :=
  match (Json.Document.ofText text.toList).read readRecord with
  | .ok r => (ofRecord? r).map fun outcome => outcome.mapError .mislabelled
  | .error fault => some (.error (.malformed fault))

/-- The index that a JSON value describes. -/
def ofJson? (v : Json) : Option (Except SearchError Arena) :=
  match readRecord (.ofJson v) with
  | .ok r => (ofRecord? r).map fun outcome => outcome.mapError .mislabelled
  | .error _ => some (.error (.malformed .data))

end Arena

end Concordance
