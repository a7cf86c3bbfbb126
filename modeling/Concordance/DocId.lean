/-!
# Document numbers

A document is known by a number below 2³², written in decimal digits.
-/

namespace Concordance

/-- The number of a document. -/
abbrev DocId := UInt32

namespace DocId

/-- The digits of a document number, without leading zeros. -/
def text (id : DocId) : String :=
  Nat.repr id.toNat

/-- The value of a run of digits, when `n` is the value of the digits before it. -/
def digitsValue (n : Nat) (cs : List Char) : Nat :=
  cs.foldl (fun n c => 10 * n + (c.toNat - '0'.toNat)) n

/-- The document number that a text gives: one or more digits of a value below 2³².
Leading zeros do not matter. -/
def parse? (raw : String) : Option DocId :=
  let digits := raw.toList
  if digits.isEmpty || !digits.all Char.isDigit then none
  else
    let value := digitsValue 0 digits
    if value < UInt32.size then some (UInt32.ofNat value) else none

end DocId

end Concordance
