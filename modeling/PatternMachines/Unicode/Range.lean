/-!
# Classes of code points as lists of ranges

A character class of the Unicode character database (version 14.0) is written as an ascending list
of closed ranges of code points. Membership stops at the first range that lies above the code
point, so the frequent small code points are decided within a few comparisons.

## Main definitions

* `Unicode.Ranges`: a list of closed ranges.
* `Unicode.Ranges.has`: whether a character lies in one of the ranges.
-/

namespace PatternMachines.Unicode

/-- Closed ranges of code points, each a least and a greatest member, in ascending order. -/
abbrev Ranges := List (Nat × Nat)

namespace Ranges

/-- Whether the code point `n` lies in one of the ascending ranges. -/
def covers : Ranges → Nat → Bool
  | [], _ => false
  | (lo, hi) :: rest, n => if n < lo then false else if n ≤ hi then true else covers rest n

/-- Whether the character lies in one of the ascending ranges. -/
def has (r : Ranges) (c : Char) : Bool := r.covers c.toNat

end Ranges

end PatternMachines.Unicode
