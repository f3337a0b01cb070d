/-!
# Sorted ranges of code points

A character property is stored as an increasing list of closed ranges. Membership
stops at the first range that starts above the code point, so a small code point
looks at the front of the table only.
-/

namespace SumLang

/-- Closed ranges of code points, lowest first and pairwise disjoint. -/
abbrev Ranges := List (Nat × Nat)

namespace Ranges

/-- Whether a code point lies in one of the ranges of an increasing table. -/
def covers : Ranges → Nat → Bool
  | [], _ => false
  | (lo, hi) :: rest, n => if n < lo then false else if n ≤ hi then true else covers rest n

end Ranges

end SumLang
