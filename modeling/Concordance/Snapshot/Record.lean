import Concordance.Error
import Concordance.Json.Printer
import Concordance.Trie

/-!
# Snapshot records

A snapshot is a tree of records, one for each node of the index. A record repeats the
character that leads to its node, besides the key it stands under; the root has none.

* `ofTrie` gives the records of an index, and `toJson` their JSON value.
* `toTrie` builds the index again, and refuses records whose character is not their key.
-/

namespace Concordance.Snapshot

/-- A node of a snapshot: its character, its documents, and the records below it in ascending
order of their keys. -/
inductive Record where
  | node (label : Option Char) (ids : List DocId) (children : List (Char × Record))
  deriving Inhabited

namespace Record

def label : Record → Option Char
  | node label _ _ => label

def ids : Record → List DocId
  | node _ ids _ => ids

def children : Record → List (Char × Record)
  | node _ _ kids => kids

mutual

/-- The record of a trie that hangs under a character. -/
def ofTrie (label : Option Char) : Trie → Record
  | .node ids kids => node label ids (ofChildren kids)

def ofChildren : List (Char × Trie) → List (Char × Record)
  | [] => []
  | (c, t) :: rest => (c, ofTrie (some c) t) :: ofChildren rest

end

mutual

def toJson : Record → Json
  | node label ids kids =>
    .object (("char", labelJson label) :: ("doc_ids", .array (ids.map idJson)) ::
      -- A record without children does not mention them.
      match kids with
      | [] => []
      | _ :: _ => [("children", .object (childrenJson kids))])

def childrenJson : List (Char × Record) → List (String × Json)
  | [] => []
  | (c, r) :: rest => (String.singleton c, toJson r) :: childrenJson rest

def labelJson : Option Char → Json
  | none => .null
  | some c => .text (String.singleton c)

def idJson (id : DocId) : Json :=
  .number id.text

end

/-! ## From records to the index -/

/-- The first record whose character is not its key. -/
def mislabelled? : List (Char × Record) → Option Mislabelling
  | [] => none
  | (c, r) :: rest => if r.label = some c then mislabelled? rest else some (.child c r.label)

mutual

/-- The first misplaced character below a record: the children of a record are compared with
their keys before any record below them is looked at, and their own children come next, from
the last child to the first. -/
def mislabelledBelow? : Record → Option Mislabelling
  | node _ _ kids => mislabelled? kids <|> mislabelledWithin? kids

def mislabelledWithin? : List (Char × Record) → Option Mislabelling
  | [] => none
  -- From the last record to the first.
  | (_, r) :: rest => mislabelledWithin? rest <|> mislabelledBelow? r

end

mutual

/-- The trie of a record, whatever its characters are. -/
def strip : Record → Trie
  | node _ ids kids => .node (Trie.distinctIds ids) (stripAll kids)

def stripAll : List (Char × Record) → List (Char × Trie)
  | [] => []
  | (c, r) :: rest => (c, strip r) :: stripAll rest

end

/-- The index that a record describes. The root must have no character, and every other record
that of its key. -/
def toTrie (r : Record) : Except Mislabelling Trie :=
  match r.label with
  | some c => .error (.root c)
  | none =>
    match r.mislabelledBelow? with
    | some m => .error m
    | none => .ok r.strip

end Record

end Concordance.Snapshot
