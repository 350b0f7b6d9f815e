import PeriodLint.Analysis
import PeriodLint.Editor.Message

/-!
# Editor sessions

The editor tells what happens to its documents and asks for quick fixes. A
document is analysed whenever it is opened or changed, and again for every
request, always on its current text. A document that is closed has no
diagnostics.
-/

namespace PeriodLint.Editor

/-- What an editor tells or asks. -/
inductive Step where
  | open (uri text : String)
  | change (uri text : String)
  | close (uri : String)
  | codeAction (uri : String) (range : Range)
  deriving Repr

/-- The current texts of the documents. -/
abbrev Workspace := List (String × String)

/-- What is published for a document. -/
structure Publication where
  uri : String
  notices : List Notice
  deriving DecidableEq, Repr

/-- The answer to a step. Only a request is answered by actions. -/
structure Answer where
  published : List Publication := []
  actions : Option (List Action) := none
  deriving DecidableEq, Repr

namespace Workspace

/-- The current text of a document, which is empty if nothing is known of it. -/
def text (w : Workspace) (uri : String) : String := (w.lookup uri).getD ""

/-- The workspace with a new text of a document. -/
def setText (w : Workspace) (uri text : String) : Workspace :=
  w.filter (·.1 != uri) ++ [(uri, text)]

/-- The workspace after a step. -/
def after (w : Workspace) : Step → Workspace
  | .open uri text => w.setText uri text
  | .change uri text => w.setText uri text
  | .close _ => w
  | .codeAction _ _ => w

end Workspace

/-- Publish the diagnostics of a document. -/
def publish (parse : Parser) (rules : List Rule) (uri text : String) :
    Logged (Except NoSuchLine Answer) := do
  let ds ← analyze parse rules text
  Logged.note (.published ds.length uri)
  return do
    let notices ← ds.mapM (noticeOf (Text.lines text.toList))
    return { published := [⟨uri, notices⟩] }

/-- The fixes of the diagnostics whose lines meet the requested ones. -/
def offered (requested : Range) (ds : List Diagnostic) : List (Diagnostic × String) :=
  ds.filterMap fun d => d.fix.bind fun fix => if meets d.span requested then some (d, fix) else none

/-- Offer the quick fixes for a stretch of a document. -/
def offer (parse : Parser) (rules : List Rule) (uri text : String) (requested : Range) :
    Logged (Except NoSuchLine Answer) := do
  let ds ← analyze parse rules text
  return do
    let actions ← (offered requested ds).mapM fun (d, fix) =>
      actionOf uri (Text.lines text.toList) d fix
    return { actions := some actions }

/-- The answer to a step, given the workspace after it. -/
def answer (parse : Parser) (rules : List Rule) (w : Workspace) :
    Step → Logged (Except NoSuchLine Answer)
  | .open uri _ => publish parse rules uri (w.text uri)
  | .change uri _ => publish parse rules uri (w.text uri)
  | .close uri => pure (.ok { published := [⟨uri, []⟩] })
  | .codeAction uri range => offer parse rules uri (w.text uri) range

/-- The answers to the steps of a session. -/
def session (parse : Parser) (rules : List Rule) (w : Workspace) :
    List Step → List (Logged (Except NoSuchLine Answer))
  | [] => []
  | step :: steps =>
      let w := w.after step
      answer parse rules w step :: session parse rules w steps

end PeriodLint.Editor
