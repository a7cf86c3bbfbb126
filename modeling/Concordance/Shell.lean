import Concordance.Session
import Concordance.Text.Lines

/-!
# The shell

The shell prompts, carries out a line and writes its response (`turn`), until a command ends
the session or the input ends (`finish`). Then it writes the snapshot, if it is configured to
(`leave`). A line that is not UTF-8 ends it at once. A whole conversation (`converse`) is a
fold of its turns, in which earlier output changes nothing that follows (`converse_eq_after`).
-/

namespace Concordance.Shell

def prompt : String := "> "

structure Outcome where
  output : String
  session : Session
  files : Files
  error : Option SearchError := none
  deriving Inhabited

/-- The outcome with some output before the rest. -/
def Outcome.after (o : Outcome) (output : String) : Outcome :=
  { o with output := output ++ o.output }

/-- The end of a conversation that no fault has ended. -/
def leave (output : String) (s : Session) (files : Files) : Outcome :=
  if s.config.autosaveOnExit then
    match s.save files with
    | (files', .ok ()) => ⟨output, s, files', none⟩
    | (files', .error e) => ⟨output, s, files', some e⟩
  else ⟨output, s, files, none⟩

/-- What a line leads to. -/
inductive Turn where
  /-- The shell waits for the next line. -/
  | next (output : String) (session : Session) (files : Files)
  /-- The conversation is over. -/
  | last (o : Outcome)
  deriving Inhabited

def turn (m : Medium) (s : Session) (files : Files) (bytes : List UInt8) : Turn :=
  match Text.decodeLine? bytes with
  | none => .last ⟨"", s, files, some (.file .notUtf8)⟩
  | some line =>
    match s.handleLine files line with
    | (none, s', files') => .next "" s' files'
    | (some r, s', files') =>
      if r.endsSession then .last (leave (r.write m) s' files')
      else .next (r.write m) s' files'

def finish (s : Session) (files : Files) : Outcome :=
  leave "\n" s files

/-- The conversation over some lines, after some output. -/
def converse (m : Medium) (output : String) (s : Session) (files : Files) :
    List (List UInt8) → Outcome
  | [] => (finish s files).after (output ++ prompt)
  | bytes :: rest =>
    match turn m s files bytes with
    | .next out s' files' => converse m (output ++ prompt ++ out) s' files' rest
    | .last o => o.after (output ++ prompt)

/-- Earlier output stands before the rest, and changes nothing else. -/
theorem converse_eq_after (m : Medium) (output : String) (s : Session) (files : Files)
    (lines : List (List UInt8)) :
    converse m output s files lines = (converse m "" s files lines).after output := by
  induction lines generalizing output s files with
  | nil => simp [converse, Outcome.after, String.append_assoc]
  | cons bytes rest ih =>
    simp only [converse]
    split
    · next out s' files' _ =>
      rw [ih (output ++ prompt ++ out), ih ("" ++ prompt ++ out)]
      simp [Outcome.after, String.append_assoc]
    · simp [Outcome.after, String.append_assoc]

/-- The conversation over an input. -/
def run (m : Medium) (s : Session) (files : Files) (input : ByteArray) : Outcome :=
  converse m "" s files (Text.lines input.data.toList)

end Concordance.Shell
