import PeriodLint.Diagnostic
import PeriodLint.Directive
import PeriodLint.Syntax.Span

/-!
# Suppressions

The directives of one file, sorted by reach. A directive for a line silences a
diagnostic whose span includes the line, so that a comment at the end of a
range over several lines works as well.
-/

namespace PeriodLint

/-- The scopes in force for the whole file, and those in force for single lines. -/
structure Suppressions where
  wholeFile : List Scope := []
  byLine : List (Nat × Scope) := []
  deriving Repr

namespace Suppressions

/-- Bring a directive into force that stands on a line. A line keeps its last directive. -/
def add (s : Suppressions) (line : Nat) (d : Directive) : Suppressions :=
  if d.wholeFile then
    { s with wholeFile := s.wholeFile ++ [d.scope] }
  else
    { s with byLine := s.byLine.filter (·.1 != line) ++ [(line, d.scope)] }

/-- Bring into force what a comment says. -/
def addComment (source : Bytes) (s : Suppressions) (comment : Node) : Suppressions :=
  match Directive.ofComment? (comment.text source).toList with
  | none => s
  | some d => s.add (rowAt source comment.start + 1) d

/-- The suppressions of a source, read off the comments of its tree. -/
def ofTree (source : Bytes) (tree : Node) : Suppressions :=
  (tree.ofKind "comment").foldl (addComment source) {}

/-- Whether a rule is silenced for a report from line `line` to line `endLine`. -/
def silencesRule (s : Suppressions) (ruleId : String) (line endLine : Int) : Bool :=
  s.wholeFile.any (·.covers ruleId) ||
    s.byLine.any fun (row, scope) => line ≤ row && row ≤ endLine && scope.covers ruleId

/-- Whether a diagnostic is silenced. -/
def silences (s : Suppressions) (d : Diagnostic) : Bool :=
  s.silencesRule d.ruleId d.span.line d.span.endLine

end Suppressions

end PeriodLint
