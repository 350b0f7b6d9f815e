import PeriodLint.Diagnostic
import PeriodLint.Log
import PeriodLint.Syntax.RangeNode
import PeriodLint.Text.Quoted
import PeriodLint.Text.Upper

/-!
# Rules

A rule looks at a source and its tree and reports diagnostics. The library's
own rule flags a range over a period that has a method for the whole of it.
Other rules take part by their ID and their reports, and by what options make
of both.
-/

namespace PeriodLint

/-- A value of an option of a rule. An integer may have any number of digits. -/
inductive Scalar where
  | int (n : Int)
  | bool (b : Bool)
  | str (s : String)
  deriving DecidableEq, Repr

namespace Scalar

/-- The bare text of a value. -/
def text : Scalar → String
  | int n => toString n
  | bool true => "True"
  | bool false => "False"
  | str s => s

/-- The text of a value in a message, where text is quoted. -/
def shown : Scalar → String
  | str s => Text.quote s
  | v => v.text

end Scalar

/-- The options of a rule, by name. -/
abbrev Options := List (String × Scalar)

/-- What a rule reports on a source and its tree. -/
abbrev Report := Node → String → List Diagnostic

/-- A rule. A `custom` rule is known by its ID and its reports, and by those that it has with
options. -/
inductive Rule where
  | wholePeriod (severity : Severity)
  | custom (id : String) (report : Report) (configured : Options → Logged (String × Report))

namespace Rule

/-- The ID of the rule for whole periods. -/
def wholePeriodId : String := "DTR001"

/-- The ID by which settings and directives name a rule. -/
def id : Rule → String
  | wholePeriod _ => wholePeriodId
  | custom id _ _ => id

/-- The replacement of a range node. Only a range that includes its last value has one. -/
def replacement? (source : Bytes) (n : Node) : Option String :=
  if n.rangeOperator? == some ".." then (n.rangeExpr source).replacement? else none

/-- The report on a range that is better written as a whole period. -/
def report (severity : Severity) (span : Span) (replacement : String) : Diagnostic where
  ruleId := wholePeriodId
  message := "Use `" ++ replacement ++ "` instead."
  severity := severity
  span := span
  fix := some replacement

/-- The report on a range node, if there is one. -/
def flag? (severity : Severity) (source : Bytes) (n : Node) : Option Diagnostic :=
  (replacement? source n).map (report severity (n.span source))

/-- The reports of a rule on a source and its tree. -/
def check (rule : Rule) (tree : Node) (source : String) : List Diagnostic :=
  match rule with
  | wholePeriod severity =>
      (tree.ofKind "range").filterMap (flag? severity (Utf8.encode source.toList))
  | custom _ report _ => report tree source

/-- The severity that options choose. A value that names none is noted and chooses none. -/
def chosenSeverity (options : Options) : Logged (Option Severity) :=
  match options.lookup "severity" with
  | none => pure none
  | some value =>
      match Severity.ofName? (Text.asciiLower value.text) with
      | some severity => pure (some severity)
      | none => do
          Logged.note (.unknownSeverity value.shown)
          return none

/-- The rule with options applied. -/
def configure (rule : Rule) (options : Options) : Logged Rule :=
  match rule with
  | wholePeriod severity => do
      return wholePeriod ((← chosenSeverity options).getD severity)
  | custom _ _ configured => do
      let (id, report) ← configured options
      return custom id report configured

/-- A rule without options, which ignores those that it is given. -/
def plain (id : String) (report : Report) : Rule := custom id report fun _ => pure (id, report)

@[simp] theorem check_plain (id : String) (report : Report) (tree : Node) (source : String) :
    (plain id report).check tree source = report tree source := rfl

@[simp] theorem configure_plain (id : String) (report : Report) (options : Options) :
    (plain id report).configure options = pure (plain id report) := rfl

/-- The rules that the library knows, as they are without settings. -/
def registry : List Rule := [wholePeriod .warning]

end Rule

end PeriodLint
