/-!
# Arguments of the command line

Options stand before or after the subcommand, and `--` ends them. An option that takes a value
has it attached or as the next argument. On each side of the subcommand an option may be given
once, except for the one that is counted; the value after the subcommand wins.
-/

namespace Concordance.CommandLine

/-- The options on one side of the subcommand. -/
structure Options where
  snapshot : Option String := none
  noColour : Bool := false
  verbosity : Nat := 0
  deriving DecidableEq, Repr, Inhabited

inductive Request where
  | index (id : String) (texts : List String)
  | query (chunks : List String)
  | clear
  | stats
  | shell
  deriving DecidableEq, Repr, Inhabited

structure Invocation where
  options : Options
  request : Request
  deriving DecidableEq, Repr, Inhabited

namespace Options

def setSnapshot (o : Options) (path : String) : Option Options :=
  -- On each side of the subcommand once, and never an empty path.
  if o.snapshot.isSome || path.isEmpty then none else some { o with snapshot := some path }

def setNoColour (o : Options) : Option Options :=
  if o.noColour then none else some { o with noColour := true }

def addVerbosity (o : Options) : Options :=
  { o with verbosity := o.verbosity + 1 }

def merge (before after : Options) : Options where
  -- A value after the subcommand wins.
  snapshot := after.snapshot <|> before.snapshot
  noColour := before.noColour || after.noColour
  verbosity := if after.verbosity = 0 then before.verbosity else after.verbosity

end Options

/-- What an option leads to. -/
inductive Reading where
  /-- It is complete. -/
  | settled (o : Options)
  /-- The next argument is the path of the snapshot. -/
  | awaitsSnapshot (o : Options)
  | refused
  deriving DecidableEq, Repr, Inhabited

def Reading.ofOption : Option Options → Reading
  | some o => settled o
  | none => refused

/-- Reads a group of short options. -/
def readShort (o : Options) : List Char → Reading
  | [] => .settled o
  | 'v' :: cs => readShort o.addVerbosity cs
  -- What follows the letter is its value, with or without an equals sign.
  | ['s'] => .awaitsSnapshot o
  | 's' :: '=' :: cs => .ofOption (o.setSnapshot (String.ofList cs))
  | 's' :: cs => .ofOption (o.setSnapshot (String.ofList cs))
  | _ => .refused

def readLong (o : Options) (cs : List Char) : Reading :=
  let name := String.ofList (cs.takeWhile (· != '='))
  match name, cs.dropWhile (· != '=') with
  | "snapshot", [] => .awaitsSnapshot o
  | "snapshot", _ :: path => .ofOption (o.setSnapshot (String.ofList path))
  | "verbose", [] => .settled o.addVerbosity
  | "no-color", [] => .ofOption o.setNoColour
  | _, _ => .refused

/-- Reads an argument that is an option: one that begins with a dash and does not consist of
it. -/
def readOption? (o : Options) (arg : String) : Option Reading :=
  match arg.toList with
  | '-' :: '-' :: cs => some (readLong o cs)
  | ['-'] => none
  | '-' :: cs => some (readShort o cs)
  | _ => none

/-- Whether an argument can be the value of the option before it. -/
def isValue (arg : String) : Bool :=
  match arg.toList with
  | '-' :: _ :: _ => false
  | _ => true

/-- The options and the other arguments after a subcommand, after some that have been read;
the other arguments come newest first. -/
def readArguments (o : Options) (seen : List String) :
    List String → Option (Options × List String)
  | [] => some (o, seen.reverse)
  | "--" :: rest => some (o, seen.reverse ++ rest)
  | arg :: rest =>
    match readOption? o arg with
    | none => readArguments o (arg :: seen) rest
    | some .refused => none
    | some (.settled o') => readArguments o' seen rest
    | some (.awaitsSnapshot o') =>
      match rest with
      | [] => none
      | path :: rest =>
        if isValue path then
          match o'.setSnapshot path with
          | some o'' => readArguments o'' seen rest
          | none => none
        else none

def request? (subcommand : String) (args : List String) : Option Request :=
  match subcommand, args with
  | "index", id :: text :: texts => some (.index id (text :: texts))
  | "query", chunk :: chunks => some (.query (chunk :: chunks))
  | "clear", [] => some .clear
  | "stats", [] => some .stats
  | "shell", [] => some .shell
  | _, _ => none

def readSubcommand (before : Options) (subcommand : String) (rest : List String) :
    Option Invocation := do
  let (after, args) ← readArguments {} [] rest
  return ⟨before.merge after, ← request? subcommand args⟩

/-- Reads a command line, after some options. -/
def read (o : Options) : List String → Option Invocation
  -- Without a subcommand it asks for the shell.
  | [] => some ⟨o, .shell⟩
  | ["--"] => some ⟨o, .shell⟩
  | "--" :: _ :: _ => none
  | arg :: rest =>
    match readOption? o arg with
    | none => readSubcommand o arg rest
    | some .refused => none
    | some (.settled o') => read o' rest
    | some (.awaitsSnapshot o') =>
      match rest with
      | [] => none
      | path :: rest =>
        if isValue path then
          match o'.setSnapshot path with
          | some o'' => read o'' rest
          | none => none
        else none

/-- The invocation that some arguments are, unless they are misused. -/
def ofArguments (args : List String) : Option Invocation :=
  read {} args

end Concordance.CommandLine
