/-!
# Ranges of characters

* `inRanges` : membership in a list of ranges of code points, by which character classes are given.
-/

set_option autoImplicit false

namespace Statechart.Text

/-- Whether a character lies in one of the ranges, both ends included. -/
def inRanges (ranges : List (Nat × Nat)) (c : Char) : Bool :=
  ranges.any fun r => r.1 ≤ c.toNat && c.toNat ≤ r.2

end Statechart.Text
