import Concordance.Json.Draft
import Concordance.Json.Magnitude
import Concordance.Snapshot.Record

/-!
# Reading records

A record is an object with the members `char`, `doc_ids` and `children`, of which only the
last may be missing, or an array of the three in this order. Other members of an object are
skipped. Readers go through a document from left to right and give the fault that they meet
first (`Json.Fault`); all of them end at a value of the wrong type with `Draft.misfit`.
-/

namespace Concordance

namespace Json.Draft

/-- The fault of a value of the wrong type. A scalar is read before its type counts against
it. -/
def misfit : Draft → Fault
  | text none => .syntactic
  | number literal => if isOutOfRange literal then .syntactic else .data
  | missing why => why.read
  | _ => .data

end Json.Draft

open Json

namespace Snapshot

def readLabel : Draft → Except Fault (Option Char)
  | .null => .ok none
  | .text (some [c]) => .ok (some c)
  | d => .error d.misfit

def readId (d : Draft) : Except Fault DocId :=
  match d with
  | .number literal =>
    match DocId.parse? (String.ofList literal) with
    | some id => .ok id
    | none => .error d.misfit
  | d => .error d.misfit

/-- What remains of a container after its parts: how it stopped, unless it was closed. -/
def closed (a : α) : Option Break → Except Fault α
  | none => .ok a
  | some why => .error why.read

def readIds : Draft → Except Fault (List DocId)
  | .array items stop => do closed (← items.mapM readId) stop
  | d => .error d.misfit

def readKey : Option (List Char) → Except Fault Char
  | some [c] => .ok c
  | some _ => .error .data
  | none => .error .syntactic

structure Fields where
  label : Option (Option Char) := none
  ids : Option (List DocId) := none
  children : Option (List (Char × Record)) := none
  deriving Inhabited

/-- The record that some members make, if none is missing that must be there. -/
def Fields.record (f : Fields) : Except Fault Record :=
  match f.label, f.ids with
  | some label, some ids => .ok (.node label ids (f.children.getD []))
  | _, _ => .error .data

mutual

def readRecord : Draft → Except Fault Record
  | .object members stop => do
    let fields ← readFields {} members
    (← closed fields stop).record
  | .array items stop => do
    let fields ← readParts {} items
    (← closed fields stop).record
  | d => .error d.misfit

def readFields (f : Fields) : List (Option (List Char) × Draft) → Except Fault Fields
  | [] => .ok f
  | (none, _) :: _ => .error .syntactic
  | (some key, d) :: rest =>
    -- No member may come twice.
    if key = "char".toList then
      if f.label.isSome then .error .data
      else do readFields { f with label := some (← readLabel d) } rest
    else if key = "doc_ids".toList then
      if f.ids.isSome then .error .data
      else do readFields { f with ids := some (← readIds d) } rest
    else if key = "children".toList then
      if f.children.isSome then .error .data
      else do readFields { f with children := some (← readChildren d) } rest
    else
      match d.skipFault? with
      | some fault => .error fault
      | none => readFields f rest

def readParts (f : Fields) : List Draft → Except Fault Fields
  | [] => .ok f
  | d :: rest =>
    if f.label.isNone then do readParts { f with label := some (← readLabel d) } rest
    else if f.ids.isNone then do readParts { f with ids := some (← readIds d) } rest
    else if f.children.isNone then do
      readParts { f with children := some (← readChildren d) } rest
    else .error .syntactic

def readChildren : Draft → Except Fault (List (Char × Record))
  | .object members stop => do closed (← readBelow [] members) stop
  | d => .error d.misfit

/-- Reads the records below one, after some that have been read. -/
def readBelow (kids : List (Char × Record)) :
    List (Option (List Char) × Draft) → Except Fault (List (Char × Record))
  | [] => .ok kids
  | (key, d) :: rest => do
    let c ← readKey key
    let r ← readRecord d
    -- A record takes the place of an earlier one under the same key.
    readBelow (Children.upsert (fun _ => r) c kids) rest

end

end Snapshot

end Concordance
