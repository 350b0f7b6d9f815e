/-!
# Signed positions

A position in a list may be negative, and then it counts from the end. Slices
clamp their bounds to the list, whereas access to an element does not.
-/

namespace PeriodLint

/-- The place of a slice bound in a list of the given length. -/
def sliceBound (length : Nat) (i : Int) : Nat :=
  if i < 0 then (i + length).toNat else min i.toNat length

theorem sliceBound_le (length : Nat) (i : Int) : sliceBound length i ≤ length := by
  unfold sliceBound
  split <;> omega

theorem sliceBound_ofNat {length i : Nat} (h : i ≤ length) : sliceBound length i = i := by
  unfold sliceBound
  split <;> omega

/-- The elements before a signed position. -/
def sliceBefore {α : Type _} (xs : List α) (i : Int) : List α := xs.take (sliceBound xs.length i)

/-- The elements from a signed position on. -/
def sliceFrom {α : Type _} (xs : List α) (i : Int) : List α := xs.drop (sliceBound xs.length i)

/-- The element at a signed position, if the position is inside the list. -/
def elementAt? {α : Type _} (xs : List α) (i : Int) : Option α :=
  if 0 ≤ i then xs[i.toNat]?
  else if 0 ≤ i + xs.length then xs[(i + xs.length).toNat]?
  else none

end PeriodLint
