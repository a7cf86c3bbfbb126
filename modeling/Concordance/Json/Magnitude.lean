/-!
# The range of decimal numbers

Where a number is read it must be in the range of the binary numbers with 53 significant
digits and exponents up to 1023. A literal is measured as the product of two such numbers:
its significand, made of as many leading digits as fit 64 bits, and a power of ten. The
digits that are dropped count as zeros.
-/

namespace Concordance.Json

/-- A significand and the power of ten that it is multiplied by. -/
structure Decimal where
  significand : Nat := 0
  exponent : Int := 0
  deriving DecidableEq, Repr, Inhabited

namespace Decimal

/-- Whether the significand still fits 64 bits with another digit. -/
def fits (x : Decimal) (digit : Nat) : Bool :=
  10 * x.significand + digit < Nat.pow 2 64

/-- The digits before the point: those that do not fit raise the exponent. -/
def addWhole (x : Decimal) : List Nat → Decimal
  | [] => x
  | d :: ds =>
    if x.fits d then addWhole { x with significand := 10 * x.significand + d } ds
    else { x with exponent := x.exponent + (d :: ds).length }

/-- The digits after the point: those that do not fit are dropped. -/
def addFraction (x : Decimal) : List Nat → Decimal
  | [] => x
  | d :: ds =>
    if x.fits d then
      addFraction { significand := 10 * x.significand + d, exponent := x.exponent - 1 } ds
    else x

end Decimal

/-- The values of the digits that a text begins with. -/
def leadingDigits (cs : List Char) : List Nat :=
  (cs.takeWhile Char.isDigit).map fun c => c.toNat - '0'.toNat

def leadingNumber (cs : List Char) : Nat :=
  (leadingDigits cs).foldl (fun n d => 10 * n + d) 0

/-- The exponent that follows the digits of a number, if any. -/
def writtenExponent : List Char → Int
  | _ :: '-' :: cs => -(leadingNumber cs : Int)
  | _ :: '+' :: cs => leadingNumber cs
  | _ :: cs => leadingNumber cs
  | [] => 0

def measure (literal : List Char) : Decimal :=
  let unsigned := literal.dropWhile (· = '-')
  let whole : Decimal := Decimal.addWhole {} (leadingDigits unsigned)
  let rest := unsigned.dropWhile Char.isDigit
  match rest with
  | '.' :: cs =>
    let x := whole.addFraction (leadingDigits cs)
    { x with exponent := x.exponent + writtenExponent (cs.dropWhile Char.isDigit) }
  | cs => { whole with exponent := whole.exponent + writtenExponent cs }

/-- The nearest number with 53 significant binary digits. -/
def round53 (n : Nat) : Nat :=
  let unit := Nat.pow 2 (n.log2 - 52)
  let q := n / unit
  let r := n % unit
  -- Of two numbers that are equally near, the one whose last digit is even.
  if 2 * r < unit ∨ (2 * r = unit ∧ q % 2 = 0) then q * unit else (q + 1) * unit

/-- Whether a number literal is too large to be read. -/
def isOutOfRange (literal : List Char) : Bool :=
  let x := measure literal
  x.significand != 0 && 0 ≤ x.exponent &&
    -- A power of ten above 10³⁰⁸ is out of range by itself.
    (308 < x.exponent ||
      Nat.pow 2 1024 - Nat.pow 2 970 ≤
        round53 x.significand * round53 (Nat.pow 10 x.exponent.toNat))

end Concordance.Json
