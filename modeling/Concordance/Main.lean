import Concordance.CommandLine

/-!
# The program

A run works on two paths, that of the configuration and that of the snapshot. What stands on the
way to a path is taken into a picture (`observe`), the run is carried out on the picture, and
what it has changed there is written (`settle`). The shell does so line by line, so that each
line is answered before the next one is read.
-/

namespace Concordance.Program

/-- What stands at a path whose directory is there. -/
def entryAt (path : String) : IO (Option Entry) := do
  try
    return some (.file (← IO.FS.readBinFile path))
  catch
    | .noFileOrDirectory .. | .invalidArgument .. => return none
    | .inappropriateType .. => return some .directory
    | e => throw e

/-- A picture with what stands at some paths, each of which is the directory of the next one. -/
def observeAll (files : Files) : List String → IO Files
  | [] => return files
  | path :: rest =>
    if (Path.fault? path).isSome then return files
    else do
      match ← entryAt path with
      | some .directory => observeAll (files.ensureDirectory path).1 rest
      | some (.file bytes) => return (files.save path bytes).1
      | none => return files

/-- A picture of what stands on the way to what a path names. -/
def observe (path : String) : IO Files :=
  observeAll {} (Path.stages path)

/-- Writes what has changed on the way to what a path names. -/
def settle (before after : Files) (path : String) : IO Unit := do
  for stage in Path.stages path do
    match before.find stage, after.find stage with
    | .ok .directory, .ok .directory => pure ()
    | _, .ok .directory => IO.FS.createDirAll stage
    | .ok (.file old), .ok (.file new) =>
      if old != new then IO.FS.writeBinFile stage new
    | _, .ok (.file new) => IO.FS.writeBinFile stage new
    | _, .error _ => pure ()

def say (text : String) : IO Unit := do
  let output ← IO.getStdout
  output.putStr text
  output.flush

/-- The bytes of the input up to the next line feed, newest first, after some that have been
read. -/
partial def readLine (input : IO.FS.Stream) (seen : List UInt8) : IO (List UInt8) := do
  match (← input.read 1).data.toList with
  | [] => return seen
  | b :: _ => if b == 10 then return b :: seen else readLine input (b :: seen)

/-- Talks until the shell is done. -/
partial def talk (m : Medium) (input : IO.FS.Stream) (s : Session) : IO UInt32 := do
  let path := s.config.snapshotPath
  say Shell.prompt
  let bytes ← readLine input []
  let before ← observe path
  let turn := match Text.lines bytes.reverse with
    | [] => Shell.Turn.last (Shell.finish s before)
    | line :: _ => Shell.turn m s before line
  match turn with
  | .next output s' after =>
    settle before after path
    say output
    talk m input s'
  | .last o =>
    say o.output
    settle before o.files path
    return if o.error.isSome then 1 else 0

def perform (m : Medium) (config : Config) (request : CommandLine.Request) : IO UInt32 := do
  let before ← observe config.snapshotPath
  match request with
  | .shell =>
    let (greeting, s) := Session.start config before
    say ((greeting.map (·.write m)).getD "")
    talk m (← IO.getStdin) s
  | _ =>
    let o := CommandLine.perform m config before ByteArray.empty request
    settle before o.files config.snapshotPath
    say o.output
    return o.code.toUInt32

def prepare (o : CommandLine.Options) : IO Config := do
  match CommandLine.dataDirectory? (← IO.getEnv "XDG_DATA_HOME") (← IO.getEnv "HOME") with
  | none => return (CommandLine.prepare {} none o).2
  | some directory =>
    let path := directory ++ "/" ++ Config.fileName
    let before ← observe path
    let (after, config) := CommandLine.prepare before (some directory) o
    settle before after path
    return config

end Concordance.Program

def main (args : List String) : IO UInt32 := do
  match Concordance.CommandLine.ofArguments args with
  | none => return 2
  | some invocation =>
    let config ← Concordance.Program.prepare invocation.options
    let env := ⟨← IO.getEnv "TERM", ← IO.getEnv "NO_COLOR"⟩
    Concordance.Program.perform (Concordance.CommandLine.medium env invocation.options) config
      invocation.request
