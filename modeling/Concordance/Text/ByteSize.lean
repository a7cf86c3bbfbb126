/-!
# Sizes in bytes

A size below 1024 is a number of bytes; larger sizes are given in units of 1024 or 1024²
bytes with two decimals, rounded from the exact quotient, a half to the even neighbour.
-/

namespace Concordance.Text

/-- The integer nearest to `n / d`; of two that are equally near, the even one. -/
def roundedQuotient (n d : Nat) : Nat :=
  let q := n / d
  if 2 * (n % d) < d then q
  else if d < 2 * (n % d) then q + 1
  else if q % 2 = 0 then q else q + 1

/-- A number of hundredths with two decimals. -/
def hundredths (n : Nat) : String :=
  let cents := n % 100
  toString (n / 100) ++ "." ++ (if cents < 10 then "0" else "") ++ toString cents

/-- A size as it is reported. -/
def byteSize (bytes : Nat) : String :=
  if 1024 * 1024 ≤ bytes then hundredths (roundedQuotient (100 * bytes) (1024 * 1024)) ++ " MB"
  else if 1024 ≤ bytes then hundredths (roundedQuotient (100 * bytes) 1024) ++ " KB"
  else toString bytes ++ " bytes"

end Concordance.Text
