import Concordance.Path

/-!
# Files

A tree of directories and files, known by the locations of its entries. The origins of locations
are always directories: the root, the working directory and those above it. A path is followed
step by step (`Files.walk`), and every step must leave from a directory; so a path may fail
although the entry that it seems to name is there.

* `read`, `write` and `delete` are for files; `save` makes the missing directories on the way to
  a file before it writes it.
* A write opens the file (`create`), which empties it, and then fills it (`fill`). Refused at first,
  it changes nothing. If it breaks off later, the file holds what there was room for (`Limits`).
* `put` sets what stands at one location (`get?_put_self`) and leaves every other location as it
  is (`get?_put_of_ne`).
-/

namespace Concordance

/-- What stands at a location. -/
inductive Entry where
  | directory
  | file (bytes : ByteArray)
  deriving Inhabited

def Entry.isDirectory : Entry → Bool
  | directory => true
  | file _ => false

/-- What keeps files from being written, whatever they hold. -/
structure Limits where
  /-- Whether nothing can be made at a location, and a file there cannot be opened for writing. -/
  isSealed : Location → Bool := fun _ => false
  /-- The number of bytes that there is room for in a file at a location, if that is limited. -/
  room? : Location → Option Nat := fun _ => none
  deriving Inhabited

/-- Whether there is no room for some bytes. -/
def Limits.overflows (l : Limits) (loc : Location) (bytes : ByteArray) : Bool :=
  match l.room? loc with
  | some room => room < bytes.size
  | none => false

/-- What is written of some bytes before there is no more room. -/
def Limits.fit (l : Limits) (loc : Location) (bytes : ByteArray) : ByteArray :=
  match l.room? loc with
  | some room => bytes.extract 0 room
  | none => bytes

/-- The files that a program works on. -/
structure Files where
  entries : List (Location × Entry) := []
  limits : Limits := {}
  deriving Inhabited

namespace Files

/-- What stands at a location, if anything does. -/
def get? (f : Files) (loc : Location) : Option Entry :=
  if loc.names.isEmpty then some .directory else f.entries.lookup loc

def erase (f : Files) (loc : Location) : Files :=
  { f with entries := f.entries.filter (·.1 != loc) }

/-- The files with an entry at a location, in place of the one that stood there. -/
def put (f : Files) (loc : Location) (e : Entry) : Files :=
  { f with entries := (loc, e) :: (f.erase loc).entries }

theorem get?_put_self (f : Files) {loc : Location} (h : loc.names ≠ []) (e : Entry) :
    (f.put loc e).get? loc = some e := by
  rw [get?, if_neg (by simpa using h), put, List.lookup_cons_self]

/-- At every other location `erase` leaves what stood there. -/
theorem get?_erase_of_ne (f : Files) {loc other : Location} (h : other ≠ loc) :
    (f.erase loc).get? other = f.get? other := by
  have hbeq : (other == loc) = false := by simpa using h
  have hlookup (entries : List (Location × Entry)) :
      (entries.filter (·.1 != loc)).lookup other = entries.lookup other := by
    induction entries with
    | nil => rfl
    | cons head rest ih =>
      obtain ⟨at', e'⟩ := head
      by_cases hat : at' = loc
      · subst hat
        rw [List.filter_cons_of_neg (by simp), ih, List.lookup_cons, hbeq]
      · rw [List.filter_cons_of_pos (by simpa using hat), List.lookup_cons, List.lookup_cons, ih]
  simp only [get?, erase, hlookup]

/-- At every other location `put` leaves what stood there. -/
theorem get?_put_of_ne (f : Files) {loc other : Location} (h : other ≠ loc) (e : Entry) :
    (f.put loc e).get? other = f.get? other := by
  have hbeq : (other == loc) = false := by simpa using h
  rw [← get?_erase_of_ne f h]
  simp only [get?, put, List.lookup_cons, hbeq]

/-- Where some steps lead to from a location. Nothing need be there. -/
def walk (f : Files) (loc : Location) : List PathStep → Except FileError Location
  | [] => .ok loc
  | s :: steps =>
    match f.get? loc with
    | some .directory => if s.isTooLong then .error .nameTooLong else f.walk (s.apply loc) steps
    | some (.file _) => .error .notDirectory
    | none => .error .notFound

/-- Where a path leads to. Nothing need be there. -/
def resolve (f : Files) (path : String) : Except FileError Location :=
  match Path.fault? path with
  | some cause => .error cause
  | none => f.walk (Path.start path) (Path.steps path)

def find (f : Files) (path : String) : Except FileError Entry := do
  match f.get? (← f.resolve path) with
  | none => .error .notFound
  | some .directory => .ok .directory
  | some (.file bytes) => if Path.isClosed path then .error .notDirectory else .ok (.file bytes)

def exists? (f : Files) (path : String) : Bool :=
  (f.find path).toBool

def isDirectory (f : Files) (path : String) : Bool :=
  match f.find path with
  | .ok e => e.isDirectory
  | .error _ => false

def read (f : Files) (path : String) : Except FileError ByteArray := do
  match ← f.find path with
  | .file bytes => return bytes
  | .directory => throw .isDirectory

def readText (f : Files) (path : String) : Except FileError String := do
  match String.fromUTF8? (← f.read path) with
  | some text => return text
  | none => throw .notUtf8

def delete (f : Files) (path : String) : Except FileError Files := do
  match ← f.find path with
  | .file _ => return f.erase (← f.resolve path)
  | .directory => throw .isDirectory

/-! ## Making directories -/

def makeDirectory (f : Files) (path : String) : Except FileError Files := do
  let loc ← f.resolve path
  match f.get? loc with
  | some _ => throw .alreadyExists
  | none => if f.limits.isSealed loc then throw .permissionDenied else return f.put loc .directory

/-- The outcome of making a directory that may have been there before. -/
def settle (f : Files) (path : String) : Except FileError Files → Files × Except FileError Unit
  | .ok f' => (f', .ok ())
  | .error cause => (f, if f.isDirectory path then .ok () else .error cause)

/-- The files with the first of some directories, each of which stands in the next one. -/
def makeDirectories (f : Files) : List String → Files × Except FileError Unit
  | [] => (f, .ok ())
  | path :: outer =>
    match f.makeDirectory path with
    | .error .notFound =>
      -- Something on the way is missing, so the directory around comes first.
      match f.makeDirectories outer with
      | (f', .ok ()) => f'.settle path (f'.makeDirectory path)
      | (f', .error cause) => (f', .error cause)
    | made => f.settle path made

def ensureDirectory (f : Files) (path : String) : Files × Except FileError Unit :=
  f.makeDirectories (path :: (Path.directories path).reverse)

/-! ## Writing -/

/-- Where a file is opened for writing, in a directory that is there. -/
def place (f : Files) (path : String) : Except FileError Location := do
  if Path.isClosed path && (Path.fault? path).isNone then
    -- The slash refuses the path before its last part is looked at, but not what is before that.
    let _ ← f.walk (Path.start path) ((Path.steps path).dropLast ++ [.here])
    throw .isDirectory
  let loc ← f.resolve path
  match f.get? loc with
  | some .directory => throw .isDirectory
  | _ => if f.limits.isSealed loc then throw .permissionDenied else return loc

/-- Opens a file for writing. It is empty then, whatever it held. -/
def create (f : Files) (path : String) : Except FileError (Location × Files) := do
  let loc ← f.place path
  return (loc, f.put loc (.file .empty))

/-- Writes bytes to a file that has been opened. -/
def fill (f : Files) (loc : Location) (bytes : ByteArray) : Files × Except FileError Unit :=
  (f.put loc (.file (f.limits.fit loc bytes)),
    if f.limits.overflows loc bytes then .error .storageFull else .ok ())

/-- The files after one file has been written, in a directory that is there. -/
def write (f : Files) (path : String) (bytes : ByteArray) : Files × Except FileError Unit :=
  match f.create path with
  | .error cause => (f, .error cause)
  | .ok (loc, f') => f'.fill loc bytes

/-- The files after one file has been written, with the directories on the way to it. -/
def save (f : Files) (path : String) (bytes : ByteArray) : Files × Except FileError Unit :=
  match f.makeDirectories (Path.directories path).reverse with
  | (f', .error cause) => (f', .error cause)
  | (f', .ok ()) => f'.write path bytes

end Files

end Concordance
