import Concordance.Files
import Concordance.Json.Printer
import Concordance.Snapshot.Reader

/-!
# The configuration

Where the snapshot is, whether a session reads it at its begin, and whether the shell writes
it at its end. A configuration file is a JSON object of these three members, each of which may
be missing, or an array of them in this order that may end early.
-/

namespace Concordance

structure Config where
  snapshotPath : String := "index.json"
  autoload : Bool := true
  autosaveOnExit : Bool := false
  deriving DecidableEq, Repr, Inhabited

/-- Why a configuration file cannot be used. -/
inductive ConfigError where
  | unreadable
  | malformed (fault : Json.Fault)
  deriving DecidableEq, Repr, Inhabited

def ConfigError.message : ConfigError → String
  | unreadable => "Failed to read config file"
  | malformed _ => "Failed to parse config file"

namespace Config

open Json (Draft Break Fault)

def toJson (c : Config) : Json :=
  .object [("snapshot_path", .text c.snapshotPath), ("autoload", .bool c.autoload),
    ("autosave_on_exit", .bool c.autosaveOnExit)]

structure Fields where
  snapshotPath : Option String := none
  autoload : Option Bool := none
  autosaveOnExit : Option Bool := none
  deriving Inhabited

def Fields.config (f : Fields) : Config :=
  let standard : Config := {}
  ⟨f.snapshotPath.getD standard.snapshotPath, f.autoload.getD standard.autoload,
    f.autosaveOnExit.getD standard.autosaveOnExit⟩

def readText : Draft → Except Fault String
  | .text (some s) => .ok (String.ofList s)
  | d => .error d.misfit

def readBool : Draft → Except Fault Bool
  | .bool b => .ok b
  | d => .error d.misfit

/-- Reads the members of a configuration. Others are skipped. -/
def readFields (f : Fields) : List (Option (List Char) × Draft) → Except Fault Fields
  | [] => .ok f
  | (none, _) :: _ => .error .syntactic
  | (some key, d) :: rest =>
    -- No member may come twice.
    if key = "snapshot_path".toList then
      if f.snapshotPath.isSome then .error .data
      else do readFields { f with snapshotPath := some (← readText d) } rest
    else if key = "autoload".toList then
      if f.autoload.isSome then .error .data
      else do readFields { f with autoload := some (← readBool d) } rest
    else if key = "autosave_on_exit".toList then
      if f.autosaveOnExit.isSome then .error .data
      else do readFields { f with autosaveOnExit := some (← readBool d) } rest
    else
      match d.skipFault? with
      | some fault => .error fault
      | none => readFields f rest

/-- Reads the parts of a configuration that is an array. -/
def readParts (f : Fields) : List Draft → Except Fault Fields
  | [] => .ok f
  | d :: rest =>
    if f.snapshotPath.isNone then do
      readParts { f with snapshotPath := some (← readText d) } rest
    else if f.autoload.isNone then do
      readParts { f with autoload := some (← readBool d) } rest
    else if f.autosaveOnExit.isNone then do
      readParts { f with autosaveOnExit := some (← readBool d) } rest
    else .error .syntactic

def read : Draft → Except Fault Config
  | .object members stop => do
    let fields ← readFields {} members
    return (← Snapshot.closed fields stop).config
  | .array items stop => do
    let fields ← readParts {} items
    return (← Snapshot.closed fields stop).config
  | d => .error d.misfit

def ofText (text : String) : Except Fault Config :=
  (Json.Document.ofText text.toList).read read

/-- The directory of the configuration below that of a user's data. -/
def folder : String := "triesearch"

/-- The configuration file below the directory of a user's data. -/
def fileName : String := folder ++ "/config.json"

/-- The configuration in a file, or the standard one if there is no such file. -/
def load (files : Files) (path : String) : Except ConfigError Config :=
  if files.exists? path then
    match files.readText path with
    | .error _ => .error .unreadable
    | .ok text =>
      match ofText text with
      | .ok c => .ok c
      | .error fault => .error (.malformed fault)
  else .ok {}

/-- The configuration with another snapshot, if one is given. -/
def withSnapshot (c : Config) : Option String → Config
  | none => c
  | some path => { c with snapshotPath := path }

end Config

end Concordance
