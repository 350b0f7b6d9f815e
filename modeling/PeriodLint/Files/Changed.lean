import PeriodLint.Files.Path
import PeriodLint.Log

/-!
# Changed files

The files that a version control command lists as changed, one on a line and
relative to the root that another command answers. Only Ruby files count. A
command that fails lists nothing.
-/

namespace PeriodLint

/-- The answer of a command: its exit status and what it printed. -/
structure CommandResult where
  status : Int
  output : String
  deriving Repr

namespace CommandResult

/-- The changed Ruby files, given the answers for the root and for the names. -/
def changedFiles (root names : CommandResult) : List Path :=
  if root.status ≠ 0 ∨ names.status ≠ 0 then
    []
  else
    let base := Path.ofString (String.ofList (Text.strip root.output.toList))
    let names := (Text.breakLines names.output.toList).map fun line =>
      Path.ofString (String.ofList line)
    (names.filter Path.isRubyFile).map base.join

/-- The error of a command that cannot be started. -/
def unavailable : String := "[Errno 2] No such file or directory: 'git'"

/-- The changed Ruby files. A command that cannot be started is noted and lists nothing. -/
def changedFiles? (root names : Option CommandResult) : Logged (List Path) :=
  match root, names with
  | some root, some names => pure (changedFiles root names)
  | _, _ => do
      Logged.note (.gitUnavailable unavailable)
      return []

end CommandResult

end PeriodLint
