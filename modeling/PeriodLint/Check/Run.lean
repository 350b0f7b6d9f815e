import PeriodLint.Check.Arguments
import PeriodLint.Check.File
import PeriodLint.Files.Changed
import PeriodLint.Files.Collect
import PeriodLint.Settings.Load

/-!
# A run of the check

The files are found first, then the configuration of the working directory is
loaded, and then file after file is checked. The run tells whether anything was
left to report. A failure ends it, and what was written and printed before
stays.
-/

namespace PeriodLint

namespace Check

/-- What a run has come to so far. -/
structure Outcome where
  store : FileStore
  lines : List String := []
  errors : List String := []
  failure : Option Failure := none

/-- The exit status of a run: whether anything is left to report. -/
def Outcome.exitCode (o : Outcome) : Nat :=
  if o.failure.isSome || !o.lines.isEmpty then 1 else 0

/-- What a run prints for the reader. -/
def Outcome.printed (o : Outcome) : String := String.join (o.lines.map (· ++ "\n"))

/-- Check file after file. -/
def files (parse : Parser) (rules : List Rule) (fix : Bool) (o : Outcome) :
    List Path → Logged Outcome
  | [] => pure o
  | path :: paths => do
      match ← file parse rules fix o.store path with
      | .error e => return { o with failure := some e }
      | .ok one =>
          files parse rules fix
            { o with
              store := one.store
              lines := o.lines ++ one.lines
              errors := o.errors ++ one.error.toList }
            paths

/-- A whole run, given the changed files of version control. -/
def run (parse : Parser) (registry : List Rule) (fs : FileStore) (request : CheckRequest)
    (changed : Logged (List Path)) : Logged Outcome := do
  let others ← (if request.diff then changed else pure [])
  match fs.resolveFiles others request.paths with
  | .error e => return { store := fs, failure := some (.path e) }
  | .ok paths =>
      match ← Config.load fs fs.cwdPath with
      | .error e => return { store := fs, failure := some e }
      | .ok config =>
          let rules ← config.activeRules registry
          files parse rules request.fix { store := fs } paths

/-- The records that are shown: all of them, or only those of some importance. -/
def shownLog (verbose : Bool) (log : List Event) : List String :=
  (log.filter fun e => verbose || e.level == .warning).map Event.line

end Check

end PeriodLint
