import Concordance.Query.Parser
import Concordance.Trie

/-!
# Answering a query

The answer to a word is the list of its documents, to a conjunction the documents of the left
answer that are in the right one, to a disjunction those of the left answer followed by the
new ones of the right. No document is listed twice. A word that the index does not know has no
answer, and neither has a query that holds one; the leftmost such word is reported.
-/

namespace Concordance.Query

/-- The answer to a query of two operands, from theirs. -/
def combine : Connective → List DocId → List DocId → List DocId
  | .and, l, r => Trie.distinctIds (l.filter r.contains)
  | .or, l, r => Trie.distinctIds (l ++ r)

def answer (t : Trie) : Query → Except SearchError (List DocId)
  | word w =>
    match t.lookup? w with
    | some ids => .ok ids
    | none => .error (.notIndexed w)
  | join op l r => do
    let left ← answer t l
    let right ← answer t r
    return combine op left right

/-- The answer to the query that some chunks are. -/
def answerChunks (t : Trie) (chunks : List String) : Except SearchError (List DocId) := do
  answer t (← ofChunks chunks)

end Concordance.Query
