/-!
# Tables of code points

A set of characters given by ascending, disjoint intervals of code points.
-/

namespace Concordance.Text

/-- Whether `n` lies in one of the ascending intervals. The search ends at the first
interval that starts beyond `n`. -/
def inRanges : List (Nat × Nat) → Nat → Bool
  | [], _ => false
  | (lo, hi) :: rest, n => if n < lo then false else n ≤ hi || inRanges rest n

end Concordance.Text
