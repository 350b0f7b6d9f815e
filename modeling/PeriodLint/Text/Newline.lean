/-!
# Line ends of files

Files may end their lines with a line feed, a carriage return or both. Read as
text they all become line feeds.
-/

namespace PeriodLint.Text

/-- The text with every line end a line feed. -/
def unifyBreaks : List Char → List Char
  | [] => []
  | '\r' :: '\n' :: cs => '\n' :: unifyBreaks cs
  | '\r' :: cs => '\n' :: unifyBreaks cs
  | c :: cs => c :: unifyBreaks cs

end PeriodLint.Text
