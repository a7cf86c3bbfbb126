import Concordance.Json.Token
import Concordance.Json.Value

/-!
# Documents as far as they go

`Draft` is the tree of a JSON document that may break off or go wrong somewhere. Everything
before that place is there, and the open containers say how they stopped; a reader that goes
through the tree from left to right therefore meets the first problem of the text first.

The tree is built from the tokens by a machine with a stack of open containers (`State`), so
the depth of a document has no limit.
-/

namespace Concordance.Json

/-- A JSON document as far as it goes. A number keeps its literal. -/
inductive Draft where
  | null
  | bool (b : Bool)
  | number (literal : List Char)
  /-- A text, or `none` if it escapes half of a surrogate pair. -/
  | text (s : Option (List Char))
  /-- The items of an array, and how it stopped unless it was closed. -/
  | array (items : List Draft) (stop : Option Break)
  /-- The members of an object, and how it stopped unless it was closed. -/
  | object (members : List (Option (List Char) × Draft)) (stop : Option Break)
  /-- No value stands where one is needed. -/
  | missing (why : Break)
  deriving Inhabited

namespace Draft

mutual

def ofJson : Json → Draft
  | .null => null
  | .bool b => bool b
  | .number literal => number literal.toList
  | .text s => text (some s.toList)
  | .array items => array (ofItems items) none
  | .object members => object (ofMembers members) none

def ofItems : List Json → List Draft
  | [] => []
  | v :: vs => ofJson v :: ofItems vs

def ofMembers : List (String × Json) → List (Option (List Char) × Draft)
  | [] => []
  | (k, v) :: ms => (some k.toList, ofJson v) :: ofMembers ms

end

mutual

/-- The value of a document that is complete. -/
def toJson? : Draft → Option Json
  | null => some .null
  | bool b => some (.bool b)
  | number literal => some (.number (String.ofList literal))
  | text (some s) => some (.text (String.ofList s))
  | text none => none
  | array items none => (toItems? items).map .array
  | object members none => (toMembers? members).map .object
  | array _ (some _) | object _ (some _) | missing _ => none

def toItems? : List Draft → Option (List Json)
  | [] => some []
  | d :: ds => do return (← toJson? d) :: (← toItems? ds)

def toMembers? : List (Option (List Char) × Draft) → Option (List (String × Json))
  | [] => some []
  | (some k, d) :: ms => do return (String.ofList k, ← toJson? d) :: (← toMembers? ms)
  | (none, _) :: _ => none

end

mutual

/-- The fault that a reader meets which skips the document: anything goes that is JSON. -/
def skipFault? : Draft → Option Fault
  | null | bool _ | number _ | text _ => none
  | array items stop => skipItems? items <|> stop.map Break.skipped
  | object members stop => skipMembers? members <|> stop.map Break.skipped
  | missing why => some why.skipped

def skipItems? : List Draft → Option Fault
  | [] => none
  | d :: ds => skipFault? d <|> skipItems? ds

def skipMembers? : List (Option (List Char) × Draft) → Option Fault
  | [] => none
  | (_, d) :: ms => skipFault? d <|> skipMembers? ms

end

end Draft

/-! ## The machine -/

/-- A container that is open around a value, with what it holds so far, newest first. -/
inductive Frame where
  | array (items : List Draft)
  /-- An object, with the key whose value is awaited. -/
  | object (members : List (Option (List Char) × Draft)) (key : Option (List Char))
  deriving Inhabited

/-- What the machine expects next, inside the open containers, innermost first. -/
inductive State where
  | value (outer : List Frame)
  /-- Just after `[`: a value or `]`. -/
  | firstItem (outer : List Frame)
  /-- After an item: `,` or `]`. -/
  | afterItem (outer : List Frame) (items : List Draft)
  /-- Just after the brace that opens an object: a key or the closing brace. -/
  | firstKey (outer : List Frame)
  /-- After a comma in an object: a key. -/
  | key (outer : List Frame) (members : List (Option (List Char) × Draft))
  /-- After a key: `:`. -/
  | colon (outer : List Frame) (members : List (Option (List Char) × Draft))
      (key : Option (List Char))
  /-- After a member: `,` or the closing brace. -/
  | afterMember (outer : List Frame) (members : List (Option (List Char) × Draft))
  | done (d : Draft)
  deriving Inhabited

namespace State

def complete (d : Draft) : List Frame → State
  | [] => done d
  | .array items :: outer => afterItem outer (d :: items)
  | .object members k :: outer => afterMember outer ((k, d) :: members)

/-- A value that stopped, put into the containers around it, which stop there as well. -/
def wrap (why : Break) (d : Draft) : List Frame → Draft
  | [] => d
  | .array items :: outer => wrap why (.array (d :: items).reverse (some why)) outer
  | .object members k :: outer =>
    wrap why (.object ((k, d) :: members).reverse (some why)) outer

def stop (why : Break) : State → Draft
  | value outer => wrap why (.missing why) outer
  | firstItem outer => wrap why (.array [] (some why)) outer
  | afterItem outer items => wrap why (.array items.reverse (some why)) outer
  | firstKey outer => wrap why (.object [] (some why)) outer
  | key outer members => wrap why (.object members.reverse (some why)) outer
  | colon outer members k =>
    wrap why (.object ((k, .missing why) :: members).reverse (some why)) outer
  | afterMember outer members => wrap why (.object members.reverse (some why)) outer
  | done d => d

/-- The start of a value: the state after it, or the break that it is. -/
def begin (outer : List Frame) : Token → Except Break State
  | .null => .ok (complete .null outer)
  | .bool b => .ok (complete (.bool b) outer)
  | .number literal => .ok (complete (.number literal) outer)
  | .text s => .ok (complete (.text s) outer)
  | .arrayOpen => .ok (firstItem outer)
  | .objectOpen => .ok (firstKey outer)
  | .cutText why | .cutScalar why => .error why
  | .objectClose | .arrayClose | .comma | .colon | .junk => .error .wrong

def beginKey (outer : List Frame) (members : List (Option (List Char) × Draft)) :
    Token → Except Break State
  | .text s => .ok (colon outer members s)
  | .cutText why => .error why
  | _ => .error .wrong

/-- One token: the state after it, or the break that it is. -/
def step : State → Token → Except Break State
  | value outer, t => begin outer t
  | firstItem outer, .arrayClose => .ok (complete (.array [] none) outer)
  | firstItem outer, t => begin (.array [] :: outer) t
  | afterItem outer items, .arrayClose => .ok (complete (.array items.reverse none) outer)
  | afterItem outer items, .comma => .ok (value (.array items :: outer))
  | firstKey outer, .objectClose => .ok (complete (.object [] none) outer)
  | firstKey outer, t => beginKey outer [] t
  | key outer members, t => beginKey outer members t
  | colon outer members k, .colon => .ok (value (.object members k :: outer))
  | afterMember outer members, .objectClose =>
    .ok (complete (.object members.reverse none) outer)
  | afterMember outer members, .comma => .ok (key outer members)
  | _, _ => .error .wrong

end State

/-- A document, and whether anything but blanks follows it. -/
structure Document where
  value : Draft
  trailing : Bool
  deriving Inhabited

namespace Document

/-- The document that some tokens give, in a state. -/
def ofTokens : State → List Token → Document
  | .done d, ts => ⟨d, !ts.isEmpty⟩
  | s, [] => ⟨s.stop .atEnd, false⟩
  | s, t :: ts =>
    match s.step t with
    | .ok s' => ofTokens s' ts
    | .error why => ⟨s.stop why, false⟩

def ofText (cs : List Char) : Document :=
  ofTokens (.value []) (tokens cs)

/-- The value of a text that is JSON. -/
def json? (d : Document) : Option Json :=
  if d.trailing then none else d.value.toJson?

/-- What `read` finds in a document. A text that goes on after its end is at fault, but only
if the document itself is not. -/
def read (d : Document) (read : Draft → Except Fault α) : Except Fault α := do
  let a ← read d.value
  -- Only now: the reader's own fault comes first.
  if d.trailing then throw .syntactic
  return a

end Document

end Concordance.Json
