/-! # Ranges of code points

A character property is a list of disjoint closed ranges in ascending order. A
search stops at the first range that starts above the code point.
-/

namespace RailsLookup.Ranges

def contains : List (Nat × Nat) → Nat → Bool
  | [], _ => false
  | (lo, hi) :: rest, n => if n < lo then false else n ≤ hi || contains rest n

end RailsLookup.Ranges
