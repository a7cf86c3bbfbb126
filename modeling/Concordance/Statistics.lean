import Concordance.Text.ByteSize
import Concordance.Trie.Listing

/-!
# Statistics

How large an index is, and which words most documents share.
-/

namespace Concordance

/-- The counts of an index. -/
structure Statistics where
  /-- The nodes of the trie, the root included. -/
  nodes : Nat
  /-- The words that have documents. -/
  words : Nat
  documents : Nat
  /-- The pairs of a word and one of its documents. -/
  postings : Nat
  deriving DecidableEq, Repr, Inhabited

namespace Statistics

def ofTrie (t : Trie) : Statistics where
  nodes := t.nodeCount
  words := t.entries.length
  documents := t.documents.length
  postings := t.entries.foldr (fun e n => e.2.length + n) 0

/-- The words with the numbers of their documents, the most common first, those that are
equally common in lexicographic order. -/
def ranking (t : Trie) : List (String × Nat) :=
  (t.entries.map fun e => (e.1, e.2.length)).mergeSort fun a b =>
    b.2 < a.2 || (a.2 == b.2 && (a.1 < b.1 || a.1 == b.1))

def rankingLimit : Nat := 15

/-- A word in a column of 15 characters; longer words run over. -/
def column (word : String) : String :=
  word ++ String.ofList (List.replicate (15 - word.length) ' ')

def rankingReport (t : Trie) : String :=
  let ranked := ranking t
  if ranked.isEmpty then ""
  else
    "\nMost common tokens:\n" ++
      String.join ((ranked.take rankingLimit).map fun e =>
        "  " ++ column e.1 ++ " " ++ toString e.2 ++ "\n") ++
      if rankingLimit < ranked.length then
        "  ... and " ++ toString (ranked.length - rankingLimit) ++ " more\n"
      else ""

/-- The report on an index, whose snapshot has a size if it exists. -/
def report (t : Trie) (path : String) (size? : Option Nat) : String :=
  let s := ofTrie t
  "Index Statistics\n================\n\n" ++
    "Snapshot:         " ++ path ++ "\n" ++
    "Documents:        " ++ toString s.documents ++ "\n" ++
    "Tokens:           " ++ toString s.words ++ "\n" ++
    "Postings:         " ++ toString s.postings ++ "\n" ++
    "Trie nodes:       " ++ toString s.nodes ++ "\n" ++
    (match size? with
      | some size => "\nSnapshot size:    " ++ Text.byteSize size ++ "\n"
      | none => "") ++
    rankingReport t

end Statistics

end Concordance
