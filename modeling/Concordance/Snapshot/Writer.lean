import Concordance.Json.Printer
import Concordance.Trie

/-!
# Writing snapshots

The snapshot of an index is written while going through the index, without making records
first. The text is the compact JSON text of the records.
-/

namespace Concordance.Snapshot

/-- A character or null, before `rest`. -/
def writeLabel : Option Char → List Char → List Char
  | none, rest => "null".toList ++ rest
  | some c, rest => Json.writeText (String.singleton c) rest

def writeMoreIds : List DocId → List Char → List Char
  | [], rest => rest
  | id :: ids, rest => ',' :: (id.text.toList ++ writeMoreIds ids rest)

/-- Document numbers in brackets, before `rest`. -/
def writeIds : List DocId → List Char → List Char
  | [], rest => '[' :: ']' :: rest
  | id :: ids, rest => '[' :: (id.text.toList ++ writeMoreIds ids (']' :: rest))

mutual

/-- The text of a trie that hangs under a character, before `rest`. -/
def writeTrie (label : Option Char) : Trie → List Char → List Char
  | .node ids [], rest =>
    "\x7b\"char\":".toList ++ writeLabel label
      (",\"doc_ids\":".toList ++ writeIds ids ('\x7d' :: rest))
  | .node ids ((c, t) :: kids), rest =>
    "\x7b\"char\":".toList ++ writeLabel label
      (",\"doc_ids\":".toList ++ writeIds ids
        (",\"children\":\x7b".toList ++ Json.writeText (String.singleton c)
          (':' :: writeTrie (some c) t (writeMoreChildren kids ('\x7d' :: '\x7d' :: rest)))))

def writeMoreChildren : List (Char × Trie) → List Char → List Char
  | [], rest => rest
  | (c, t) :: kids, rest =>
    ',' :: Json.writeText (String.singleton c)
      (':' :: writeTrie (some c) t (writeMoreChildren kids rest))

end

/-- The snapshot of an index. -/
def render (t : Trie) : String :=
  String.ofList (writeTrie none t [])

end Concordance.Snapshot
