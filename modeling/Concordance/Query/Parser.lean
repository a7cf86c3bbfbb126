import Concordance.Query.Tree

/-!
# Reading a query

Connectives have no precedence: between two parentheses, and on the outermost level, stands
one operand or two operands with a connective between them. A pair of parentheses that is
empty vanishes; one around a single operand is that operand.

The reader keeps a stack of levels, the innermost first, each with the parts read so far. A
level is checked when its closing parenthesis comes, so of several mistakes the one whose
level ends first is reported.
-/

namespace Concordance.Query

inductive Part where
  | operand (q : Query)
  | connective (op : Connective)
  deriving DecidableEq, Repr, Inhabited

def Part.text : Part → String
  | operand q => q.text
  | connective op => String.singleton op.sign

/-- The parts of a level, newest first. -/
abbrev Level := List Part

/-- The operand that a level amounts to; an empty level amounts to none. -/
def Level.close : Level → Except SearchError (Option Query)
  | [] => .ok none
  | [.operand q] => .ok (some q)
  | [.operand r, .connective op, .operand l] => .ok (some (join op l r))
  | parts => .error (.invalidClause (parts.reverse.map Part.text))

/-- A level with what a level inside it amounts to. -/
def Level.absorb (level : Level) : Option Query → Level
  | none => level
  | some q => .operand q :: level

/-- The query that the rest of the tokens completes, on an innermost level inside others. -/
def parseFrom (outer : List Level) (level : Level) : List Token → Except SearchError Query
  | [] =>
    match outer with
    | _ :: _ => .error .unclosedParenthesis
    | [] => do
      match ← level.close with
      | some q => return q
      | none => throw .emptyQuery
  | .opening :: ts => parseFrom (level :: outer) [] ts
  | .closing :: ts =>
    match outer with
    | [] => .error .unexpectedClosing
    | next :: outer => do
      let q? ← level.close
      parseFrom outer (next.absorb q?) ts
  | .connective op :: ts => parseFrom outer (.connective op :: level) ts
  | .word w :: ts => parseFrom outer (.operand (word w) :: level) ts

def parse (ts : List Token) : Except SearchError Query :=
  parseFrom [] [] ts

/-- The query that some chunks are. -/
def ofChunks (chunks : List String) : Except SearchError Query := do
  parse (← Token.ofChunks chunks)

end Concordance.Query
