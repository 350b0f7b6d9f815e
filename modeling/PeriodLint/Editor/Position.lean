import PeriodLint.Diagnostic
import PeriodLint.Edit
import PeriodLint.Text.Slice

/-!
# Positions in an editor

An editor counts lines from zero and measures columns in UTF-16 units, of which
a character outside the basic plane takes two.
-/

namespace PeriodLint.Editor

/-- A place in a text. -/
structure Position where
  line : Int
  character : Nat
  deriving DecidableEq, Repr

/-- A stretch of a text. -/
structure Range where
  start : Position
  stop : Position
  deriving DecidableEq, Repr

/-- The number of UTF-16 units of a character. -/
def unitsOf (c : Char) : Nat := if c.toNat < 0x10000 then 1 else 2

/-- The number of UTF-16 units of a text. -/
def units : List Char → Nat
  | [] => 0
  | c :: cs => unitsOf c + units cs

/-- The column in units of a column in characters. -/
def unitColumn (line : List Char) (col : Int) : Nat := units (sliceBefore line col)

/-- The place of a line and a column. -/
def position (lines : List (List Char)) (line col : Int) : Except NoSuchLine Position :=
  match elementAt? lines (line - 1) with
  | some text => .ok ⟨line - 1, unitColumn text col⟩
  | none => .error {}

/-- The stretch that a span covers. -/
def rangeOf (lines : List (List Char)) (span : Span) : Except NoSuchLine Range := do
  let start ← position lines span.line span.col
  let stop ← position lines span.endLine span.endCol
  return ⟨start, stop⟩

/-- Whether the lines of a span meet those of a requested stretch. -/
def meets (span : Span) (requested : Range) : Bool :=
  span.line - 1 ≤ requested.stop.line && requested.start.line ≤ span.endLine - 1

end PeriodLint.Editor
