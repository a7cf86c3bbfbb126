import Concordance.Json.Value

/-!
# Compact JSON text

Values are written without blanks. In a text the quotation mark, the backslash and the
characters below U+0020 are escaped, the latter by a letter where JSON has one and by four
lower-case hexadecimal digits where not; all other characters stand for themselves.

Every writer takes the text that follows, so that writing is linear in the size of the
value; what it writes does not depend on that text (`write_append`).
-/

namespace Concordance.Json

def hexDigit (n : Nat) : Char :=
  Nat.digitChar n

def escaped (c : Char) : List Char :=
  if c = '"' then ['\\', '"']
  else if c = '\\' then ['\\', '\\']
  else if c = '\x08' then ['\\', 'b']
  else if c = '\t' then ['\\', 't']
  else if c = '\n' then ['\\', 'n']
  else if c = '\x0c' then ['\\', 'f']
  else if c = '\r' then ['\\', 'r']
  else if c.toNat < 0x20 then
    ['\\', 'u', '0', '0', hexDigit (c.toNat / 16), hexDigit (c.toNat % 16)]
  else [c]

/-- A text in quotation marks, before `rest`. -/
def writeText (s : String) (rest : List Char) : List Char :=
  '"' :: (s.toList.flatMap escaped ++ '"' :: rest)

mutual

/-- A value, before `rest`. -/
def write : Json → List Char → List Char
  | null, rest => "null".toList ++ rest
  | bool true, rest => "true".toList ++ rest
  | bool false, rest => "false".toList ++ rest
  | number literal, rest => literal.toList ++ rest
  | text s, rest => writeText s rest
  | array [], rest => '[' :: ']' :: rest
  | array (v :: vs), rest => '[' :: write v (writeItems vs (']' :: rest))
  | object [], rest => '\x7b' :: '\x7d' :: rest
  | object ((k, v) :: ms), rest =>
    '\x7b' :: writeText k (':' :: write v (writeMembers ms ('\x7d' :: rest)))

/-- The items of an array after the first, before `rest`. -/
def writeItems : List Json → List Char → List Char
  | [], rest => rest
  | v :: vs, rest => ',' :: write v (writeItems vs rest)

/-- The members of an object after the first, before `rest`. -/
def writeMembers : List (String × Json) → List Char → List Char
  | [], rest => rest
  | (k, v) :: ms, rest => ',' :: writeText k (':' :: write v (writeMembers ms rest))

end

theorem writeText_append (s : String) (rest : List Char) :
    writeText s rest = writeText s [] ++ rest := by
  simp [writeText]

mutual

/-- A written value does not depend on what follows it. -/
theorem write_append : (v : Json) → (rest : List Char) → v.write rest = v.write [] ++ rest
  | null, rest => by simp [write]
  | bool true, rest => by simp [write]
  | bool false, rest => by simp [write]
  | number literal, rest => by simp [write]
  | text s, rest => writeText_append s rest
  | array [], rest => rfl
  | array (v :: vs), rest => by
    rw [write, write, write_append v, writeItems_append vs, write_append v (writeItems vs [']']),
      writeItems_append vs [']']]
    simp
  | object [], rest => rfl
  | object ((k, v) :: ms), rest => by
    rw [write, write, writeText_append, write_append v, writeMembers_append ms,
      writeText_append k (':' :: write v _), write_append v (writeMembers ms ['\x7d']),
      writeMembers_append ms ['\x7d']]
    simp

theorem writeItems_append : (vs : List Json) → (rest : List Char) →
    writeItems vs rest = writeItems vs [] ++ rest
  | [], _ => rfl
  | v :: vs, rest => by
    rw [writeItems, writeItems, write_append v, writeItems_append vs,
      write_append v (writeItems vs [])]
    simp

theorem writeMembers_append : (ms : List (String × Json)) → (rest : List Char) →
    writeMembers ms rest = writeMembers ms [] ++ rest
  | [], _ => rfl
  | (k, v) :: ms, rest => by
    rw [writeMembers, writeMembers, writeText_append, write_append v, writeMembers_append ms,
      writeText_append k (':' :: write v _), write_append v (writeMembers ms [])]
    simp

end

/-- The compact text of a value. -/
def render (v : Json) : String :=
  String.ofList (v.write [])

end Concordance.Json
