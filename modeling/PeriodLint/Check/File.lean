import PeriodLint.Analysis
import PeriodLint.Failure
import PeriodLint.Files.Store
import PeriodLint.Text.Newline

/-!
# Checking one file

A file is read, analysed and, if asked, mended. A fix may bring a further match
to light, so the mended text is analysed again, until nothing changes or the
limit of passes is reached. What is left is reported, one line for each.
-/

namespace PeriodLint

namespace Check

/-- The number of times that a file is mended in one run. -/
def maxPasses : Nat := 10

/-- A text and its diagnostics, after at most so many passes of mending. -/
def mend (parse : Parser) (rules : List Rule) :
    Nat → String → List Diagnostic → Logged (Except Failure (String × List Diagnostic))
  | 0, source, ds => pure (.ok (source, ds))
  | passes + 1, source, ds =>
      match applyFixes source ds with
      | .error _ => pure (.error .line)
      | .ok fixed => do
          let updated ← fixed
          if updated = source then
            return .ok (source, ds)
          else
            let ds ← analyze parse rules updated
            mend parse rules passes updated ds

/-- The line on which a diagnostic of a file is reported. -/
def reportLine (path : Path) (d : Diagnostic) : String :=
  s!"{path.toString}:{d.span.line}:{d.span.col}: {d.ruleId} {d.message}"

/-- What the check of one file comes to: the file store after it, the lines for the reader, and the
error of a file that could not be read. -/
structure FileOutcome where
  store : FileStore
  lines : List String := []
  error : Option String := none

/-- The text of a file. -/
def readText (bytes : Bytes) : Except Failure String := do
  let cs ← Failure.lift .text (Utf8.decode bytes)
  return String.ofList (Text.unifyBreaks cs)

/-- Write a mended text, if it differs. -/
def writeBack (fs : FileStore) (path : Path) (source fixed : String) : Logged FileStore :=
  if fixed = source then
    pure fs
  else do
    Logged.note (.fixedFile path.toString)
    return fs.write path (Utf8.encode fixed.toList)

/-- Analyse a text and, if asked, mend it. -/
def examine (parse : Parser) (rules : List Rule) (fix : Bool) (source : String) :
    Logged (Except Failure (String × List Diagnostic)) := do
  let ds ← analyze parse rules source
  if fix then mend parse rules maxPasses source ds
  else return .ok (source, ds)

/-- Check one file. A file that cannot be opened is an error of its own and no failure. -/
def file (parse : Parser) (rules : List Rule) (fix : Bool) (fs : FileStore) (path : Path) :
    Logged (Except Failure FileOutcome) :=
  match fs.read path with
  | .error e => pure (.ok { store := fs, error := some (e.message path.toString) })
  | .ok bytes =>
      match readText bytes with
      | .error e => pure (.error e)
      | .ok source => do
          match ← examine parse rules fix source with
          | .error e => return .error e
          | .ok (fixed, ds) =>
              let store ← writeBack fs path source fixed
              return .ok { store, lines := ds.map (reportLine path) }

end Check

end PeriodLint
