import Concordance.Text.Ranges

/-!
# Blank characters

The characters that separate the fields of a command line: those with the Unicode property
White_Space.
-/

namespace Concordance.Text

/-- The code points with the property White_Space. -/
def blankRanges : List (Nat × Nat) :=
  [
   (0x9, 0xD), (0x20, 0x20), (0x85, 0x85), (0xA0, 0xA0), (0x1680, 0x1680), (0x2000, 0x200A),
   (0x2028, 0x2029), (0x202F, 0x202F), (0x205F, 0x205F), (0x3000, 0x3000)
  ]

/-- Whether a character separates the fields of a line. -/
def isBlank (c : Char) : Bool :=
  inRanges blankRanges c.toNat

end Concordance.Text
