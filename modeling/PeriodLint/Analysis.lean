import PeriodLint.Rule
import PeriodLint.Suppression

/-!
# Analysis

A source is parsed, every rule reports on its tree, and what the directives of
the source do not silence is sorted by position. A source that is no program is
passed over. The analysis is the same for every parser.
-/

namespace PeriodLint

/-- What turns a source into a tree. -/
abbrev Parser := String → Node

namespace Analysis

/-- Earlier lines come first, and earlier columns of one line. -/
def precedes (a b : Diagnostic) : Bool :=
  a.span.line < b.span.line || (a.span.line == b.span.line && a.span.col ≤ b.span.col)

/-- What the rules report on a tree, rule by rule. -/
def reports (rules : List Rule) (tree : Node) (source : String) : List Diagnostic :=
  rules.flatMap fun rule => rule.check tree source

/-- What the rules report and no directive silences, by position. -/
def ofTree (rules : List Rule) (tree : Node) (source : String) : List Diagnostic :=
  let suppressions := Suppressions.ofTree (Utf8.encode source.toList) tree
  ((reports rules tree source).filter (!suppressions.silences ·)).mergeSort precedes

end Analysis

/-- The diagnostics of a source. -/
def analyze (parse : Parser) (rules : List Rule) (source : String) : Logged (List Diagnostic) :=
  let tree := parse source
  if tree.hasError then do
    Logged.note .skippedSource
    return []
  else
    return Analysis.ofTree rules tree source

end PeriodLint
