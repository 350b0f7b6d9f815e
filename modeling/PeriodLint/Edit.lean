import PeriodLint.Diagnostic
import PeriodLint.Log
import PeriodLint.Text.Line
import PeriodLint.Text.Slice

/-!
# Edits

Fixes become edits at character offsets. Where edits overlap, the one that
starts first and, of those, the longest is kept, so that of nested ranges the
outermost is rewritten. The kept edits are applied from the last to the first,
so that none moves another.
-/

namespace PeriodLint

/-- A stretch of a text, in characters, and what shall stand in its place. -/
structure Edit where
  start : Int
  stop : Int
  text : String
  deriving DecidableEq, Repr

/-- A position names a line that the text does not have. -/
structure NoSuchLine where
  deriving DecidableEq, Repr

namespace Edit

/-- The offset of a position, given where the lines start. -/
def offset (starts : List Nat) (line col : Int) : Except NoSuchLine Int :=
  match elementAt? starts (line - 1) with
  | some start => .ok (start + col)
  | none => .error {}

/-- The edit that puts a text in the place of a span. -/
def ofSpan (starts : List Nat) (span : Span) (text : String) : Except NoSuchLine Edit := do
  let start ← offset starts span.line span.col
  let stop ← offset starts span.endLine span.endCol
  return ⟨start, stop, text⟩

/-- The fixes that diagnostics propose. -/
def proposals (ds : List Diagnostic) : List (Span × String) :=
  ds.filterMap fun d => d.fix.map (d.span, ·)

/-- An earlier start comes first, and of equal starts the later end. -/
def precedes (a b : Edit) : Bool := a.start < b.start || (a.start == b.start && b.stop ≤ a.stop)

/-- The edits of all fixes, sorted. Of edits of one stretch the first reported comes first. -/
def candidates (source : List Char) (ds : List Diagnostic) : Except NoSuchLine (List Edit) := do
  let edits ← (proposals ds).mapM fun (span, text) => ofSpan (Text.lineStarts source) span text
  return edits.mergeSort precedes

/-- Whether an edit starts before the end of the edit kept last. -/
def overlaps (stop : Option Int) (e : Edit) : Bool := stop.any (e.start < ·)

/-- The edits that overlap none kept before them, where `stop` is the end of the edit kept last. -/
def keepFrom (stop : Option Int) : List Edit → Logged (List Edit)
  | [] => pure []
  | e :: es =>
      if overlaps stop e then do
        Logged.note (.skippedFix e.start)
        keepFrom stop es
      else do
        let kept ← keepFrom (some e.stop) es
        return e :: kept

/-- The edits that will be applied. -/
def accepted (source : List Char) (ds : List Diagnostic) :
    Except NoSuchLine (Logged (List Edit)) := do
  return keepFrom none (← candidates source ds)

/-- The text with one stretch replaced. -/
def apply (e : Edit) (cs : List Char) : List Char :=
  sliceBefore cs e.start ++ e.text.toList ++ sliceFrom cs e.stop

/-- The text with all edits applied, the last first. -/
def applyAll (es : List Edit) (cs : List Char) : List Char := es.foldr apply cs

end Edit

/-- The source with the fixes of its diagnostics applied. -/
def applyFixes (source : String) (ds : List Diagnostic) : Except NoSuchLine (Logged String) := do
  let kept ← Edit.accepted source.toList ds
  return do
    let edits ← kept
    return String.ofList (Edit.applyAll edits source.toList)

end PeriodLint
