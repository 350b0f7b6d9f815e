import PeriodLint.Editor.Position

/-!
# Messages to an editor

Diagnostics as an editor shows them, and the quick fix that puts the text of a
fix in the place of its diagnostic.
-/

namespace PeriodLint.Editor

/-- A diagnostic as it is published. -/
structure Notice where
  range : Range
  message : String
  severity : Nat
  code : String
  source : String
  deriving DecidableEq, Repr

/-- A replacement of a stretch of a text. -/
structure TextEdit where
  range : Range
  newText : String
  deriving DecidableEq, Repr

/-- A quick fix for one diagnostic of a document. The editor may apply a preferred one unasked. -/
structure Action where
  title : String
  kind : String
  isPreferred : Bool
  uri : String
  notice : Notice
  edit : TextEdit
  deriving DecidableEq, Repr

/-- The name under which diagnostics are published. -/
def sourceName : String := "allday"

/-- The name of the kind of actions that are offered. -/
def quickFixKind : String := "quickfix"

/-- A diagnostic in the terms of the editor. -/
def noticeOf (lines : List (List Char)) (d : Diagnostic) : Except NoSuchLine Notice := do
  return {
    range := ← rangeOf lines d.span
    message := d.ruleId ++ " " ++ d.message
    severity := d.severity.code
    code := d.ruleId
    source := sourceName }

/-- The quick fix that puts a text in the place of a diagnostic. -/
def actionOf (uri : String) (lines : List (List Char)) (d : Diagnostic) (fix : String) :
    Except NoSuchLine Action := do
  return {
    title := "Replace with `" ++ fix ++ "`"
    kind := quickFixKind
    isPreferred := true
    uri
    notice := ← noticeOf lines d
    edit := ⟨← rangeOf lines d.span, fix⟩ }

end PeriodLint.Editor
