import PeriodLint.Edit
import PeriodLint.Files.Store
import PeriodLint.Settings.Value
import PeriodLint.Text.Utf8

/-!
# Failures

The causes that end a run before its result: a path without a real place, a
file that is no text, settings of the wrong type, and a fix on a line that the
text does not have.
-/

namespace PeriodLint

/-- Why a run has no result. -/
inductive Failure where
  | path (e : PathError)
  | text (e : Utf8.DecodeError)
  | setting (e : SettingError)
  | line
  deriving DecidableEq, Repr

/-- The words for a failure. -/
def Failure.message : Failure → String
  | path e => e.message
  | text e => e.message
  | setting e => e.message
  | line => "list index out of range"

/-- A result whose error is a failure of a run. -/
def Failure.lift {ε α : Type} (wrap : ε → Failure) : Except ε α → Except Failure α
  | .ok a => .ok a
  | .error e => .error (wrap e)

end PeriodLint
