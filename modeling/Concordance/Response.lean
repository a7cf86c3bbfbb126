import Concordance.Error
import Concordance.DocId

/-!
# Responses

What a command is answered, and how the answer is written: one line, whose status is bold
where it is followed by particulars. On a terminal the status has a colour.
-/

namespace Concordance

/-- The answer to a command. -/
inductive Response where
  | indexed (id : DocId)
  | results (ids : List DocId)
  | saved
  | loaded
  /-- The snapshot cannot be read, and the index is empty now. -/
  | loadFailed
  | cleared
  | bye
  | failure (message : String)
  deriving DecidableEq, Repr, Inhabited

namespace Response

def ofError (e : SearchError) : Response :=
  failure e.message

/-- Whether a response says that something went wrong. -/
def isFailure : Response → Bool
  | failure _ | loadFailed => true
  | _ => false

def endsSession : Response → Bool
  | bye => true
  | _ => false

/-- The status that particulars follow; responses without particulars have none. -/
def status : Response → Option String
  | indexed _ => some "index ok"
  | results _ => some "query results"
  | loadFailed => some "WARNING"
  | failure _ => some "index error"
  | saved | loaded | cleared | bye => none

def particulars : Response → String
  | indexed id => " " ++ id.text
  | results ids => String.join (ids.map fun id => " " ++ id.text)
  | saved => "JSON file saved"
  | loaded => "Loaded index.json successfully"
  | loadFailed => " - Unable to load index file! Defaulting to empty index..."
  | cleared => "Index cleared"
  | bye => "Bye!"
  | failure message => " " ++ message

def text (r : Response) : String :=
  r.status.getD "" ++ r.particulars

end Response

/-! ## Writing -/

inductive Colour where
  | red
  | green
  | yellow
  | cyan
  deriving DecidableEq, Repr, Inhabited

/-- The digit of a colour in the control sequence that selects it. -/
def Colour.digit : Colour → Char
  | red => '1'
  | green => '2'
  | yellow => '3'
  | cyan => '6'

/-- What a response is written to. -/
inductive Medium where
  | plain
  | ansi
  deriving DecidableEq, Repr, Inhabited

namespace Medium

/-- Back to the standard look. -/
def reset : Medium → String
  | plain => ""
  | ansi => "\x1b[0m"

/-- The look of a colour, bold or not. -/
def look (colour : Colour) (bold : Bool) : Medium → String
  | plain => ""
  | ansi =>
    "\x1b[0m" ++ (if bold then "\x1b[1m" else "") ++ "\x1b[3" ++
      String.singleton colour.digit ++ "m"

end Medium

namespace Response

def colour : Response → Colour
  | failure _ => .red
  | loadFailed => .yellow
  | indexed _ | results _ => .green
  | saved | loaded | cleared | bye => .cyan

/-- A response as it is written. -/
def write (m : Medium) (r : Response) : String :=
  match r.status with
  | none => m.look r.colour false ++ r.particulars ++ "\n" ++ m.reset
  | some status => m.look r.colour true ++ status ++ m.reset ++ r.particulars ++ "\n"

end Response

end Concordance
