set_option autoImplicit false

/-! # Sets of characters given by ranges

A property of characters is stored as the list of its ranges of code points, in ascending order. -/

namespace FuzzyLogic.Text

/-- A set of code points: ranges with both ends included. -/
abbrev CharRanges := List (Nat × Nat)

/-- Whether the character lies in one of the ranges. -/
def CharRanges.has (ranges : CharRanges) (c : Char) : Bool :=
  ranges.any fun (lo, hi) => lo ≤ c.toNat && c.toNat ≤ hi

end FuzzyLogic.Text
