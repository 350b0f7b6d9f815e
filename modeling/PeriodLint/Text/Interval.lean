/-!
# Intervals of code points

Classes of characters are given as lists of closed intervals.
-/

namespace PeriodLint.Text

/-- A character is in the class when one of the intervals holds its code point. -/
def within (intervals : List (Nat × Nat)) (c : Char) : Bool :=
  intervals.any fun (first, last) => first ≤ c.toNat && c.toNat ≤ last

end PeriodLint.Text
