import PeriodLint.Syntax.Span

/-!
# Diagnostics

What a rule reports: where, how grave, in which words, and the text that would
mend it.
-/

namespace PeriodLint

/-- How grave a report is. -/
inductive Severity where
  | error
  | warning
  | information
  | hint
  deriving DecidableEq, Repr

namespace Severity

/-- All severities, the gravest first. -/
def all : List Severity := [error, warning, information, hint]

/-- The word for a severity in settings. -/
def name : Severity → String
  | error => "error"
  | warning => "warning"
  | information => "information"
  | hint => "hint"

/-- The number of a severity in messages to an editor. -/
def code : Severity → Nat
  | error => 1
  | warning => 2
  | information => 3
  | hint => 4

/-- The severity that a word in settings stands for. -/
def ofName? (word : String) : Option Severity := all.find? fun s => s.name == word

theorem ofName?_name (s : Severity) : ofName? s.name = some s := by
  cases s <;> decide

end Severity

/-- A report of a rule. `fix` is the text that should replace the span. -/
structure Diagnostic where
  ruleId : String
  message : String
  severity : Severity
  span : Span
  fix : Option String := none
  deriving DecidableEq, Repr

end PeriodLint
