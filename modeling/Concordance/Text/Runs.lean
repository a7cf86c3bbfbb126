import Concordance.Text.Alphanumeric
import Concordance.Text.Blank

/-!
# Words and fields

A text is cut into the maximal runs of the characters of one class: the words of a
document are its alphanumeric runs, the fields of a command line its non-blank runs.
-/

namespace Concordance.Text

/-- A run that is complete, given newest character first; no run is empty. -/
def closeRun : List Char → List (List Char)
  | [] => []
  | c :: run => [(c :: run).reverse]

/-- The maximal runs of `p` in a text, when the characters of `run`, newest first, stand
immediately before it. -/
def runsFrom (p : Char → Bool) (run : List Char) : List Char → List (List Char)
  | [] => closeRun run
  | c :: cs => if p c then runsFrom p (c :: run) cs else closeRun run ++ runsFrom p [] cs

/-- The maximal runs of characters that satisfy `p`, in order. -/
def runs (p : Char → Bool) (cs : List Char) : List (List Char) :=
  runsFrom p [] cs

def words (text : String) : List String :=
  (runs isAlphanumeric text.toList).map String.ofList

def wordsOfAll (texts : List String) : List String :=
  texts.flatMap words

def fields (line : String) : List String :=
  (runs (fun c => !isBlank c) line.toList).map String.ofList

end Concordance.Text
