import Concordance.Snapshot.Reader
import Concordance.Snapshot.Writer

/-!
# Snapshots

From the text of a snapshot, or from a JSON value, to the index. The text must be one record
and nothing else; only then the characters of the records are compared with their keys.
-/

namespace Concordance.Snapshot

/-- The index that a record describes. -/
def ofRecord (r : Record) : Except SearchError Trie :=
  match r.toTrie with
  | .ok t => .ok t
  | .error m => .error (.mislabelled m)

/-- The record of an index. -/
def toRecord (t : Trie) : Record :=
  Record.ofTrie none t

/-- The index that a text describes. -/
def ofText (text : String) : Except SearchError Trie :=
  match (Json.Document.ofText text.toList).read readRecord with
  | .ok r => ofRecord r
  | .error fault => .error (.malformed fault)

/-- The index that a JSON value describes. A value is complete, so the only fault that it can
have is its shape. -/
def ofJson (v : Json) : Except SearchError Trie :=
  match readRecord (.ofJson v) with
  | .ok r => ofRecord r
  | .error _ => .error (.malformed .data)

end Concordance.Snapshot
