import Concordance.Error
import Concordance.Text.Alphanumeric

/-!
# The tokens of a query

A query comes in chunks. Inside a chunk the words are maximal runs of alphanumeric characters;
the operators and parentheses are single characters. No word reaches over the end of a chunk,
and a chunk with any other character is refused as a whole.
-/

namespace Concordance.Query

inductive Connective where
  | and
  | or
  deriving DecidableEq, Repr, Inhabited

def Connective.sign : Connective → Char
  | and => '&'
  | or => '|'

inductive Token where
  | opening
  | closing
  | connective (op : Connective)
  | word (w : String)
  deriving DecidableEq, Repr, Inhabited

namespace Token

def text : Token → String
  | opening => "("
  | closing => ")"
  | connective op => String.singleton op.sign
  | word w => w

/-- The token that a sign is. -/
def ofSign? : Char → Option Token
  | '(' => some opening
  | ')' => some closing
  | '&' => some (connective .and)
  | '|' => some (connective .or)
  | _ => none

/-- The word whose characters are given newest first; no word is empty. -/
def closeWord : List Char → List Token
  | [] => []
  | c :: cs => [word (String.ofList (c :: cs).reverse)]

/-- The tokens of the rest of a chunk, after the characters of an open word, newest first. -/
def scan? (pending : List Char) : List Char → Option (List Token)
  | [] => some (closeWord pending)
  | c :: cs =>
    match ofSign? c with
    | some t => (scan? [] cs).map (closeWord pending ++ t :: ·)
    | none => if Text.isAlphanumeric c then scan? (c :: pending) cs else none

def ofChunk (chunk : String) : Except SearchError (List Token) :=
  match scan? [] chunk.toList with
  | some ts => .ok ts
  | none => .error (.invalidChunk chunk)

/-- The tokens of a query. The first chunk that is refused is reported. -/
def ofChunks : List String → Except SearchError (List Token)
  | [] => .ok []
  | chunk :: chunks => do
    let ts ← ofChunk chunk
    return ts ++ (← ofChunks chunks)

end Token

end Concordance.Query
