/-!
# Lines of a byte stream

A line ends at a line feed, or at the end of the stream if anything follows the last line
feed. A carriage return directly before the line feed belongs to the line's end.
-/

namespace Concordance.Text

/-- The bytes of a line, given newest byte first, without a carriage return at its end. -/
def chompReturn : List UInt8 → List UInt8
  | 13 :: line => line.reverse
  | line => line.reverse

/-- The lines of a stream, when the bytes of `line`, newest first, stand before it. -/
def linesFrom (line : List UInt8) : List UInt8 → List (List UInt8)
  | [] => if line.isEmpty then [] else [line.reverse]
  | b :: bs => if b = 10 then chompReturn line :: linesFrom [] bs else linesFrom (b :: line) bs

/-- The lines of a stream, in order. -/
def lines (bytes : List UInt8) : List (List UInt8) :=
  linesFrom [] bytes

/-- The text that a line's bytes encode, unless they are not UTF-8. -/
def decodeLine? (bytes : List UInt8) : Option String :=
  String.fromUTF8? ⟨bytes.toArray⟩

end Concordance.Text
