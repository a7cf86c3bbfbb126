import Concordance.Query.Token

/-!
# Queries

A query is a word, or two queries under a connective.
-/

namespace Concordance

inductive Query where
  | word (w : String)
  | join (op : Query.Connective) (left right : Query)
  deriving DecidableEq, Repr, Inhabited

namespace Query

/-- The text of a query, with parentheses around every connective. -/
def text : Query → String
  | word w => w
  | join op l r => "(" ++ l.text ++ " " ++ String.singleton op.sign ++ " " ++ r.text ++ ")"

/-- The words of a query from left to right. -/
def words : Query → List String
  | word w => [w]
  | join _ l r => l.words ++ r.words

end Query

end Concordance
