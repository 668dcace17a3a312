/-!
# Character classes as tables of ranges

A class of characters beyond ASCII is a list of inclusive ranges of code points.
-/

namespace GoService.Text

/-- Inclusive ranges of code points in ascending order. -/
abbrev RangeTable := List (Nat × Nat)

/-- Whether a character lies in one of the ranges. -/
def RangeTable.contains (t : RangeTable) (c : Char) : Bool :=
  t.any fun r => decide (r.1 ≤ c.toNat ∧ c.toNat ≤ r.2)

end GoService.Text
