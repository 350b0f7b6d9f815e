/-!
# Calendar periods

A period is a granularity of dates with three accessor methods: one for its
first instant, one for its last instant and one for the whole of it. The table
of accessors is the only knowledge of dates in the library.
-/

namespace PeriodLint

/-- The granularities that have boundary accessors, in the order of their table. -/
inductive Period where
  | day
  | week
  | month
  | quarter
  | year
  deriving DecidableEq, Repr

namespace Period

/-- All periods, from the shortest to the longest. -/
def all : List Period := [day, week, month, quarter, year]

/-- The word that every accessor of the period ends with. -/
def name : Period → String
  | day => "day"
  | week => "week"
  | month => "month"
  | quarter => "quarter"
  | year => "year"

/-- The method that answers the first instant. -/
def beginMethod (p : Period) : String := "beginning_of_" ++ p.name

/-- The method that answers the last instant. -/
def endMethod (p : Period) : String := "end_of_" ++ p.name

/-- The method that answers the whole period as a range. -/
def wholeMethod (p : Period) : String := "all_" ++ p.name

/-- Only a week has a first day to choose, so only its accessors take an argument. -/
def takesArgument (p : Period) : Bool := p == week

/-- The period whose first instant the method answers. -/
def ofBeginMethod? (method : String) : Option Period :=
  all.find? fun p => p.beginMethod == method

theorem mem_all (p : Period) : p ∈ all := by
  cases p <;> decide

end Period

end PeriodLint
