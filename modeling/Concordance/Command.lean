import Concordance.Error
import Concordance.DocId
import Concordance.Text.Runs

/-!
# Commands

A command line is a name and arguments, separated by blanks. A line is understood completely
or refused: a command that comes from a line can be carried out.
-/

namespace Concordance

inductive Command where
  /-- Give a document the words of some texts. -/
  | index (id : DocId) (words : List String)
  | query (chunks : List String)
  | save
  | load
  | clear
  | exit
  deriving DecidableEq, Repr, Inhabited

namespace Command

def mutatesIndex : Command → Bool
  | index .. | load | clear => true
  | query _ | save | exit => false

def indexOfArgs : List String → Except SearchError Command
  | raw :: text :: texts =>
    match DocId.parse? raw with
    | some id => .ok (index id (Text.wordsOfAll (text :: texts)))
    | none => .error (.invalidDocId raw)
  | args => .error (.tooFewArguments args)

def queryOfArgs : List String → Except SearchError Command
  | [] => .error (.tooFewArguments [])
  | chunks => .ok (query chunks)

def ofParts (name : String) (args : List String) : Except SearchError Command :=
  match name with
  | "index" => indexOfArgs args
  | "query" => queryOfArgs args
  -- Commands that need no arguments take any.
  | "save" => .ok save
  | "load" => .ok load
  | "clear" => .ok clear
  | "exit" | "quit" => .ok exit
  | _ => .error (.unknownCommand name)

/-- The command of a line; a blank line has none. -/
def ofLine (line : String) : Except SearchError (Option Command) :=
  match Text.fields line with
  | [] => .ok none
  | name :: args => do return some (← ofParts name args)

end Command

end Concordance
