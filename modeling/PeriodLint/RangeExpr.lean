import PeriodLint.Period

/-!
# Range expressions

A range expression is what a parser saw of `first..last`: for each endpoint the
texts of the receiver, the method and the arguments. The replacement of a range
is decided on these texts alone. A range has one when both endpoints call the
boundary accessors of one period on the same receiver.
-/

namespace PeriodLint

/-- One side of a range. An endpoint that is no plain method call has no method. -/
structure Endpoint where
  receiver : Option String := none
  method : Option String := none
  args : List String := []
  deriving DecidableEq, Repr

namespace Endpoint

/-- The endpoint that is there but is no plain method call. -/
def other : Endpoint := {}

/-- The receiver and the period when the endpoints call the two boundary accessors of that period
on receivers of one text. -/
def pairing? (first last : Endpoint) : Option (String × Period) := do
  let receiver ← first.receiver
  let period ← Period.ofBeginMethod? (← first.method)
  if last.receiver = some receiver ∧ last.method = some period.endMethod then
    some (receiver, period)
  else
    none

end Endpoint

/-- A range with its two endpoints, each of which may be left open. -/
structure RangeExpr where
  first : Option Endpoint
  last : Option Endpoint
  deriving DecidableEq, Repr

namespace RangeExpr

/-- The text of the whole period, called on a receiver. -/
def wholeCall (receiver : String) (period : Period) : String :=
  receiver ++ "." ++ period.wholeMethod

/-- The text that may stand for the range. Arguments are accepted for a week only, where both
endpoints must pass the same single one. -/
def replacement? (range : RangeExpr) : Option String := do
  let first ← range.first
  let last ← range.last
  let (receiver, period) ← first.pairing? last
  let call := wholeCall receiver period
  match period.takesArgument, first.args, last.args with
  | _, [], [] => some call
  | true, [a], [b] => if a = b then some (call ++ "(" ++ a ++ ")") else none
  | _, _, _ => none

end RangeExpr

end PeriodLint
