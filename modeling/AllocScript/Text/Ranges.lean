/-!
# Sets of characters by ranges

A property of characters is a list of ranges of code points in ascending order. `contains` reads
it from the left and stops at the first range above the character, so a text in the basic Latin
letters costs a step or two per character.
-/

namespace AllocScript

/-- Ranges of code points, both ends included, in ascending order. -/
abbrev Ranges := List (Nat × Nat)

namespace Ranges

/-- Whether a code point lies in one of the ranges. -/
def containsCode (n : Nat) : Ranges → Bool
  | [] => false
  | (low, high) :: rest => if n < low then false else n ≤ high || containsCode n rest

/-- Whether a character lies in one of the ranges. -/
def contains (ranges : Ranges) (c : Char) : Bool := ranges.containsCode c.toNat

end Ranges

end AllocScript
