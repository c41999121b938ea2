/-!
# Ranges of code points

A set of code points is given as a list of closed ranges in increasing order.  Membership walks
the list and stops at the first range that ends at or past the code point, which is the only one
that can hold it.
-/

namespace Rebind.Unicode

/-- Whether a code point lies in one of the increasing closed ranges. -/
def inRanges (n : Nat) : List (Nat × Nat) → Bool
  | [] => false
  | (low, high) :: ranges => if n ≤ high then low ≤ n else inRanges n ranges

end Rebind.Unicode
