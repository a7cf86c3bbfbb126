/-!
# JSON tokens

The text of a document as a list of tokens. The reader takes one character at a time, and
what it holds between two characters is its `Mode`. It never fails: text that is no token
ends the list with a token that says how it went wrong, and the end of the text inside a
token does the same.

A fault may depend on the use of a token. A text that escapes half of a surrogate pair, or a
number that breaks off, is judged differently where the value is read and where it is only
skipped; `Break` holds both verdicts.
-/

namespace Concordance.Json

/-- What is wrong with a document. -/
inductive Fault where
  /-- The text ends inside a value. -/
  | eof
  /-- The text is not JSON. -/
  | syntactic
  /-- The text is JSON, but not of the expected shape. -/
  | data
  deriving DecidableEq, Repr, Inhabited

/-- The faults of a place where the text breaks off or goes wrong: for a reader of the value
there, and for one that skips it. -/
structure Break where
  read : Fault
  skipped : Fault
  deriving DecidableEq, Repr, Inhabited

def Break.atEnd : Break := ⟨.eof, .eof⟩

def Break.wrong : Break := ⟨.syntactic, .syntactic⟩

/-- The tokens of a document. The last three end a list. -/
inductive Token where
  | objectOpen
  | objectClose
  | arrayOpen
  | arrayClose
  | comma
  | colon
  | null
  | bool (b : Bool)
  | number (literal : List Char)
  /-- A text, or `none` if it escapes half of a surrogate pair. -/
  | text (s : Option (List Char))
  /-- A text that breaks off. -/
  | cutText (b : Break)
  /-- A number or a name that breaks off. -/
  | cutScalar (b : Break)
  /-- A character that begins no token. -/
  | junk
  deriving DecidableEq, Repr, Inhabited

/-! ## Numbers -/

inductive NumberPart where
  | minus
  | zero
  | whole
  | point
  | fraction
  | exponentMark
  | exponentSign
  | exponent
  deriving DecidableEq, Repr, Inhabited

namespace NumberPart

/-- Whether a number may end here. -/
def isComplete : NumberPart → Bool
  | zero | whole | fraction | exponent => true
  | minus | point | exponentMark | exponentSign => false

/-- The part that a character leads to, if the number goes on with it. -/
def next? : NumberPart → Char → Option NumberPart
  | minus, c => if c = '0' then some zero else if c.isDigit then some whole else none
  | zero, c => mark? c
  | whole, c => if c.isDigit then some whole else mark? c
  | point, c => if c.isDigit then some fraction else none
  | fraction, c =>
    if c.isDigit then some fraction
    else if c = 'e' ∨ c = 'E' then some exponentMark else none
  | exponentMark, c =>
    if c = '+' ∨ c = '-' then some exponentSign else if c.isDigit then some exponent else none
  | exponentSign, c => if c.isDigit then some exponent else none
  | exponent, c => if c.isDigit then some exponent else none
where
  mark? (c : Char) : Option NumberPart :=
    if c = '.' then some point
    else if c = 'e' ∨ c = 'E' then some exponentMark else none

/-- Whether a character spoils a number that could have ended before it: no digit follows a
leading zero. -/
def spoils : NumberPart → Char → Bool
  | zero, c => c.isDigit
  | _, _ => false

end NumberPart

/-! ## Texts -/

/-- A text that is being read: its characters, newest first, or `none` once half of a
surrogate pair has been escaped, and the first half of a pair whose second half must come
next. -/
structure Partial where
  chars : Option (List Char) := some []
  lead : Option Nat := none
  deriving DecidableEq, Repr, Inhabited

namespace Partial

/-- A text that holds half a pair. -/
def broken : Partial := ⟨none, none⟩

/-- A character that stands for itself, or is escaped by a letter. -/
def push (p : Partial) (c : Char) : Partial :=
  match p.lead with
  -- A first half must be followed by an escaped second one.
  | some _ => broken
  | none => ⟨p.chars.map (c :: ·), none⟩

def pushUnit (p : Partial) (unit : Nat) : Partial :=
  match p.lead with
  | some high =>
    -- The second half of a pair gives the lower ten bits.
    if 0xDC00 ≤ unit ∧ unit ≤ 0xDFFF then
      ⟨p.chars.map (Char.ofNat (0x10000 + (high - 0xD800) * 0x400 + (unit - 0xDC00)) :: ·), none⟩
    else broken
  | none =>
    if 0xD800 ≤ unit ∧ unit ≤ 0xDBFF then ⟨p.chars, some unit⟩
    else if 0xDC00 ≤ unit ∧ unit ≤ 0xDFFF then broken
    else ⟨p.chars.map (Char.ofNat unit :: ·), none⟩

def token (p : Partial) : Token :=
  match p.lead with
  | some _ => .text none
  | none => .text (p.chars.map List.reverse)

/-- The break at the end of the document: a reader has already met half a pair. -/
def cut (p : Partial) : Break :=
  ⟨if p.chars.isNone then .syntactic else .eof, .eof⟩

end Partial

def hexValue? (c : Char) : Option Nat :=
  if c.isDigit then some (c.toNat - '0'.toNat)
  else if 'a' ≤ c ∧ c ≤ 'f' then some (c.toNat - 'a'.toNat + 10)
  else if 'A' ≤ c ∧ c ≤ 'F' then some (c.toNat - 'A'.toNat + 10)
  else none

/-- The code unit that four hexadecimal digits give. -/
def unit? : List Char → Option Nat
  | [a, b, c, d] => do
    return (((← hexValue? a) * 16 + (← hexValue? b)) * 16 + (← hexValue? c)) * 16 + (← hexValue? d)
  | _ => none

/-- The character that a letter after a backslash stands for. -/
def escape? : Char → Option Char
  | '"' => some '"'
  | '\\' => some '\\'
  | '/' => some '/'
  | 'b' => some '\x08'
  | 'f' => some '\x0c'
  | 'n' => some '\n'
  | 'r' => some '\r'
  | 't' => some '\t'
  | _ => none

/-! ## The reader -/

inductive Mode where
  /-- Between tokens. -/
  | free
  /-- In a name, with the letter that must come next and those after it. -/
  | name (token : Token) (letter : Char) (letters : List Char)
  /-- The literal is given newest character first. -/
  | number (part : NumberPart) (literal : List Char)
  | text (p : Partial)
  /-- After a backslash. -/
  | escape (p : Partial)
  /-- In the digits of a code unit, given in order. -/
  | codeUnit (p : Partial) (digits : List Char)
  deriving DecidableEq, Repr, Inhabited

namespace Mode

/-- A character between tokens: the tokens it completes, and what it begins. -/
def start (c : Char) : List Token × Option Mode :=
  match c with
  | ' ' | '\t' | '\n' | '\r' => ([], some free)
  | '\x7b' => ([.objectOpen], some free)
  | '\x7d' => ([.objectClose], some free)
  | '[' => ([.arrayOpen], some free)
  | ']' => ([.arrayClose], some free)
  | ',' => ([.comma], some free)
  | ':' => ([.colon], some free)
  | '"' => ([], some (text {}))
  | 'n' => ([], some (name .null 'u' ['l', 'l']))
  | 't' => ([], some (name (.bool true) 'r' ['u', 'e']))
  | 'f' => ([], some (name (.bool false) 'a' ['l', 's', 'e']))
  | '-' => ([], some (number .minus ['-']))
  | '0' => ([], some (number .zero ['0']))
  | c => if c.isDigit then ([], some (number .whole [c])) else ([.junk], none)

def byteLength (cs : List Char) : Nat :=
  cs.foldr (fun c n => c.utf8Size + n) 0

/-- One character: the tokens it completes, and what the reader is in the middle of then,
unless the tokens end here. -/
def step : Mode → Char → List Token × Option Mode
  | free, c => start c
  | name token letter letters, c =>
    if c = letter then
      match letters with
      | [] => ([token], some free)
      | l :: ls => ([], some (name token l ls))
    else ([.cutScalar .wrong], none)
  | number part literal, c =>
    match part.next? c with
    | some part' => ([], some (number part' (c :: literal)))
    | none =>
      -- The end of a number is seen only by the character after it, which begins the next token.
      if part.isComplete && !part.spoils c then
        match start c with
        | (tokens, mode) => (.number literal.reverse :: tokens, mode)
      else ([.cutScalar .wrong], none)
  | text p, c =>
    if c = '"' then ([p.token], some free)
    else if c = '\\' then ([], some (escape p))
    else if c.toNat < 0x20 then ([.cutText .wrong], none)
    else ([], some (text (p.push c)))
  | escape p, c =>
    if c = 'u' then ([], some (codeUnit p []))
    else match escape? c with
      | some e => ([], some (text (p.push e)))
      | none => ([.cutText .wrong], none)
  | codeUnit p digits, c =>
    -- The unit is judged when four bytes are there, whether or not they are digits.
    if byteLength (digits ++ [c]) < 4 then ([], some (codeUnit p (digits ++ [c])))
    else match unit? (digits ++ [c]) with
      | some unit => ([], some (text (p.pushUnit unit)))
      | none => ([.cutText .wrong], none)

/-- The token that the end of the text leaves. -/
def finish : Mode → List Token
  | free => []
  | name _ _ _ => [.cutScalar .atEnd]
  | number part literal =>
    if part.isComplete then [.number literal.reverse] else [.cutScalar ⟨.eof, .syntactic⟩]
  | text p | escape p | codeUnit p _ => [.cutText p.cut]

end Mode

/-- The tokens of a text, for a reader that is in the middle of something. -/
def tokensFrom (mode : Mode) : List Char → List Token
  | [] => mode.finish
  | c :: cs =>
    match mode.step c with
    | (tokens, none) => tokens
    | ([], some mode') => tokensFrom mode' cs
    | (tokens, some mode') => tokens ++ tokensFrom mode' cs

def tokens (cs : List Char) : List Token :=
  tokensFrom .free cs

end Concordance.Json
