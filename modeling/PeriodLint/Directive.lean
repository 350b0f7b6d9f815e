import PeriodLint.Text.Blank
import PeriodLint.Text.Line
import PeriodLint.Text.Upper
import PeriodLint.Text.Word

/-!
# Directives

A comment may hold a directive that silences rules: `# allday: noqa` for the
line it stands on and `# allday: disable-file` for the whole file, each with an
optional list of rule IDs after a further colon. Letter case does not matter,
and blanks may stand after the sharp, the colons and around the commas.
-/

namespace PeriodLint

/-- The rules that a directive speaks of. -/
inductive Scope where
  | everyRule
  | only (ids : List String)
  deriving DecidableEq, Repr

namespace Scope

/-- Whether the scope holds a rule. -/
def covers (scope : Scope) (ruleId : String) : Bool :=
  match scope with
  | everyRule => true
  | only ids => ids.contains ruleId

/-- The IDs between the commas of a list, in upper case. -/
def idsOf (cs : List Char) : List String :=
  (((Text.pieces ',' cs).map Text.strip).filter (!·.isEmpty)).map fun id =>
    Text.upper (String.ofList id)

/-- The scope that a list of IDs names. A list without an ID names every rule. -/
def ofText (cs : List Char) : Scope :=
  match idsOf cs with
  | [] => everyRule
  | ids => only ids

end Scope

/-- A directive: how far it reaches and which rules it silences. -/
structure Directive where
  wholeFile : Bool
  scope : Scope
  deriving DecidableEq, Repr

namespace Directive

/-- Whether a character is the lower-case letter or sign `l` when case is ignored. The dotted and
dotless capital and small `i` and the long `s` are cases of their plain letters. -/
def sameLetter (c l : Char) : Bool :=
  c.toLower == l || (l == 'i' && (c == '\u0130' || c == '\u0131')) || (l == 's' && c == '\u017F')

/-- What follows a word at the start of a text, when case is ignored. -/
def afterWord? : List Char → List Char → Option (List Char)
  | [], cs => some cs
  | _ :: _, [] => none
  | l :: word, c :: cs => if sameLetter c l then afterWord? word cs else none

/-- The tool that a directive addresses. -/
def address : List Char := "allday:".toList

/-- The keyword for the line of the comment. -/
def lineKeyword : List Char := "noqa".toList

/-- The keyword for the whole file. -/
def fileKeyword : List Char := "disable-file".toList

/-- A character that an ID in a list starts with. Besides the letters and digits of ASCII it is one
of the four characters that are cases of such a letter. -/
def startsId (c : Char) : Bool :=
  c.isAlphanum || c == '\u0130' || c == '\u0131' || c == '\u017F' || c == '\u212A'

/-- A character of a list of IDs. -/
def inIds (c : Char) : Bool := startsId c || c == ',' || Text.isBlank c

/-- The list of IDs that follows a keyword, which is empty where there is none. -/
def idList : List Char → List Char
  | ':' :: cs =>
      match cs.dropWhile Text.isBlank with
      | c :: rest => if startsId c then (c :: rest).takeWhile inIds else []
      | [] => []
  | _ => []

/-- Whether a keyword ends here, and not in the middle of a longer word. -/
def atWordEnd : List Char → Bool
  | [] => true
  | c :: _ => !Text.isWord c

/-- The keyword at the start of a text and what follows it. The whole file is meant only by the
keyword in plain letters. -/
def keyword? (cs : List Char) : Option (Bool × List Char) :=
  match afterWord? lineKeyword cs with
  | some rest => some (false, rest)
  | none =>
      match afterWord? fileKeyword cs with
      | some rest => some ((cs.take fileKeyword.length).map Char.toLower == fileKeyword, rest)
      | none => none

/-- The directive that follows a sharp. -/
def afterSharp? (cs : List Char) : Option Directive := do
  let cs ← afterWord? address (cs.dropWhile Text.isBlank)
  let (wholeFile, cs) ← keyword? (cs.dropWhile Text.isBlank)
  guard (atWordEnd cs)
  some ⟨wholeFile, Scope.ofText (idList cs)⟩

/-- The leftmost directive of a comment. -/
def ofComment? : List Char → Option Directive
  | [] => none
  | c :: cs =>
      if c = '#' then
        match afterSharp? cs with
        | some d => some d
        | none => ofComment? cs
      else
        ofComment? cs

end Directive

end PeriodLint
