import Concordance.CommandLine.Arguments
import Concordance.Shell
import Concordance.Statistics

/-!
# The command line

One run of the program: it reads the configuration, does what its arguments ask for, and ends
with a code. The code is 0 for success, 1 for a failed command or an unusable snapshot, and 2
for arguments that are misused.

A command that changes the index is followed by writing the snapshot, and its response is
written only then.
-/

namespace Concordance.CommandLine

/-- The variables of the environment that say how to write. -/
structure Environment where
  term : Option String := none
  noColour : Option String := none
  deriving DecidableEq, Repr, Inhabited

/-- The directory of a user's data: the one that is set for it if that path is absolute, else
one below the user's home. -/
def dataDirectory? (dataHome home : Option String) : Option String :=
  match dataHome.filter (·.toList.head? == some '/'), home.filter (!·.isEmpty) with
  | some path, _ => some path
  | none, some path => some (path ++ "/.local/share")
  | none, none => none

structure Outcome where
  code : UInt8
  output : String := ""
  files : Files
  deriving Inhabited

/-- What the output is for: colours are for a terminal that has them, unless they are not
wanted. -/
def medium (env : Environment) (o : Options) : Medium :=
  match env.term with
  | none => .plain
  | some term =>
    if o.noColour || env.noColour.isSome || term == "dumb" then .plain else .ansi

/-- The configuration below the directory of a user's data, which is made for it. A
configuration that cannot be used is the standard one. -/
def configure (files : Files) (dataDirectory : String) : Files × Config :=
  match files.ensureDirectory (dataDirectory ++ "/" ++ Config.folder) with
  | (files', .error _) => (files', {})
  | (files', .ok ()) =>
    match Config.load files' (dataDirectory ++ "/" ++ Config.fileName) with
    | .ok c => (files', c)
    | .error _ => (files', {})

/-- The configuration of a run. Without a directory of the user's data it is the standard one. -/
def prepare (files : Files) (dataDirectory : Option String) (o : Options) : Files × Config :=
  match dataDirectory with
  | none => (files, ({} : Config).withSnapshot o.snapshot)
  | some dir =>
    match configure files dir with
    | (files', c) => (files', c.withSnapshot o.snapshot)

/-- The outcome of a run that ends with a response. -/
def respond (m : Medium) (r : Response) (files : Files) : Outcome :=
  ⟨if r.isFailure then 1 else 0, r.write m, files⟩

/-- A run for a single command, given by its name and arguments. -/
def runOnce (m : Medium) (config : Config) (files : Files) (name : String)
    (args : List String) : Outcome :=
  match Session.ofSnapshot config files with
  | .error _ => { code := 1, files }
  | .ok s =>
    match Command.ofParts name args with
    | .error e => respond m (.ofError e) files
    | .ok command =>
      match s.execute files command with
      | (r, s', files') =>
        -- The response to a change is written only once the change has been saved.
        if command.mutatesIndex && !r.isFailure then
          match s'.save files' with
          | (files'', .ok ()) => respond m r files''
          | (files'', .error _) => { code := 1, files := files'' }
        else respond m r files'

def runShell (m : Medium) (config : Config) (files : Files) (input : ByteArray) : Outcome :=
  match Session.start config files with
  | (greeting, s) =>
    let o := Shell.run m s files input
    { code := if o.error.isSome then 1 else 0
      output := (match greeting with
        | some r => r.write m
        | none => "") ++ o.output
      files := o.files }

def runStats (config : Config) (files : Files) : Outcome :=
  match Session.ofSnapshot config files with
  | .error _ => { code := 1, files }
  | .ok s =>
    let size? := match files.read config.snapshotPath with
      | .ok bytes => some bytes.size
      | .error _ => none
    { code := 0, output := Statistics.report s.index config.snapshotPath size?, files }

def perform (m : Medium) (config : Config) (files : Files) (input : ByteArray) :
    Request → Outcome
  | .index id texts => runOnce m config files "index" (id :: texts)
  | .query chunks => runOnce m config files "query" chunks
  | .clear => runOnce m config files "clear" []
  | .stats => runStats config files
  | .shell => runShell m config files input

def run (dataDirectory : Option String) (env : Environment) (files : Files) (input : ByteArray)
    (args : List String) : Outcome :=
  match ofArguments args with
  | none => { code := 2, files }
  | some invocation =>
    match prepare files dataDirectory invocation.options with
    | (files', config) =>
      perform (medium env invocation.options) config files' input invocation.request

end Concordance.CommandLine
