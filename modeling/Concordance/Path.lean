import Concordance.Error
import Concordance.Text.Runs

/-!
# Paths

A path is a text of parts between slashes, each of which is a step (`Path.steps`). Its steps start
at the root or at the working directory (`Path.start`). What it leads to depends on the files; some
texts lead nowhere whatever the files are (`Path.fault?`).

The parts that lead on from the ones before them cut a path into its stages (`Path.stages`): the
last stage is what the path names, and each other stage is the directory of the next one.
-/

namespace Concordance

/-- One step of a path. -/
inductive PathStep where
  | here
  | up
  | enter (name : String)
  deriving DecidableEq, Repr, Inhabited

/-- Where the names of a location start. Neither the name nor the depth of the working directory is
known, so each directory above it is known by the number of levels up to it. -/
inductive Origin where
  | root
  | above (levels : Nat)
  deriving DecidableEq, Repr, Inhabited

/-- Where an entry is: the names from an origin to it. -/
structure Location where
  origin : Origin
  names : List String
  deriving DecidableEq, Repr, Inhabited

namespace Location

def root : Location := ⟨.root, []⟩

def workingDirectory : Location := ⟨.above 0, []⟩

/-- The directory that holds a location. The root is its own. -/
def parent : Location → Location
  | ⟨.above levels, []⟩ => ⟨.above (levels + 1), []⟩
  | ⟨origin, names⟩ => ⟨origin, names.dropLast⟩

def child (loc : Location) (name : String) : Location :=
  ⟨loc.origin, loc.names ++ [name]⟩

end Location

namespace PathStep

def ofText : String → PathStep
  | "." => here
  | ".." => up
  | name => enter name

def apply (loc : Location) : PathStep → Location
  | here => loc
  | up => loc.parent
  | enter name => loc.child name

def nameLimit : Nat := 255

/-- Whether a step enters a name that no entry has. -/
def isTooLong : PathStep → Bool
  | here | up => false
  | enter name => nameLimit < name.utf8ByteSize

end PathStep

namespace Path

def steps (path : String) : List PathStep :=
  (Text.runs (· != '/') path.toList).map fun part => PathStep.ofText (String.ofList part)

def start (path : String) : Location :=
  if path.toList.head? == some '/' then .root else .workingDirectory

/-- Whether a path ends with a slash, so that it cannot name a file. -/
def isClosed (path : String) : Bool :=
  path.toList.getLast? == some '/'

/-- The number of bytes that a path does not reach. -/
def lengthLimit : Nat := 4096

/-- Why a path leads nowhere, if its text shows that. -/
def fault? (path : String) : Option FileError :=
  if path.isEmpty then some .notFound
  -- No name holds U+0000.
  else if path.toList.contains '\x00' then some .nulInName
  else if lengthLimit ≤ path.utf8ByteSize then some .nameTooLong
  else none

/-- The stage that ends after `seen`, whose last part is `part`, both newest character first. -/
def stage (seen part : List Char) : List String :=
  -- A part that stays where it is leads on only at the start of a path.
  if part.isEmpty || part == ['.'] && seen != part then [] else [String.ofList seen.reverse]

/-- The stages that end in the rest of a path or just before it, when `seen` stands before the
rest and `part` is the part at its end, both newest character first. -/
def stagesFrom (seen part : List Char) : List Char → List String
  | [] => stage seen part
  | c :: cs =>
    if c = '/' then stage seen part ++ stagesFrom (c :: seen) [] cs
    else stagesFrom (c :: seen) (c :: part) cs

/-- The texts of a path up to the end of each part that leads on, shortest first. -/
def stages (path : String) : List String :=
  stagesFrom [] [] path.toList

/-- The stages of a path before the last, shortest first: the directories on the way to what it
names. -/
def directories (path : String) : List String :=
  (stages path).dropLast

end Path

end Concordance
