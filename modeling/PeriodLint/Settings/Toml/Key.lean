import PeriodLint.Text.Scan

/-!
# TOML texts and keys

A text is basic, between double quotes and with escapes, or literal, between
single quotes and without. Either kind may run over several lines between
tripled quotes. A key is a dotted path of bare words and one-line texts. Line
ends have been normalised to line feeds.
-/

namespace PeriodLint.Toml

open Scan

/-- The blanks inside a line. -/
def isSpace (c : Char) : Bool := c == ' ' || c == '\t'

/-- The blanks between lines. -/
def isSpaceOrBreak (c : Char) : Bool := isSpace c || c == '\n'

/-- A control character that no one-line text and no comment may hold. -/
def isControl (c : Char) : Bool := (c.toNat < 32 && c != '\t') || c.toNat == 127

/-- Read the blanks inside a line. -/
def spaces : Scan Unit := skipWhile isSpace

/-- A comment up to the end of its line, if there is one. -/
def comment : Scan Unit := do
  if (← peek?) == some '#' then
    guard (!(← takeWhile (· != '\n')).any isControl)

/-- The blanks, line ends and comments between the items of an array. -/
def gaps : Scan Unit :=
  repeatFrom () fun _ => do
    skipWhile isSpaceOrBreak
    if (← peek?) == some '#' then
      comment
      return .more ()
    else
      return .done ()

/-- The value of a hexadecimal digit. -/
def hexValue? (c : Char) : Option Nat :=
  if c.isDigit then some (c.toNat - '0'.toNat)
  else if 'a' ≤ c ∧ c ≤ 'f' then some (c.toNat - 'a'.toNat + 10)
  else if 'A' ≤ c ∧ c ≤ 'F' then some (c.toNat - 'A'.toNat + 10)
  else none

/-- The character that so many hexadecimal digits number. -/
def numberedChar (digits : Nat) : Scan Char := do
  let cs ← rest
  let word := cs.take digits
  guard (word.length == digits)
  let values ← word.mapM fun c => (hexValue? c : Option Nat)
  let n := values.foldl (fun n d => 16 * n + d) 0
  guard n.isValidChar
  set (cs.drop digits)
  return Char.ofNat n

/-- What an escape stands for, after its backslash. In a text of several lines a backslash at the
end of a line stands for nothing and takes the blanks that follow with it. -/
def escape (multiline : Bool) : Scan (List Char) := do
  let c ← char
  match c with
  | 'b' => return ['\x08']
  | 't' => return ['\t']
  | 'n' => return ['\n']
  | 'f' => return ['\x0c']
  | 'r' => return ['\r']
  | '"' => return ['"']
  | '\\' => return ['\\']
  | 'u' => return [← numberedChar 4]
  | 'U' => return [← numberedChar 8]
  | c =>
      guard (multiline && isSpaceOrBreak c)
      if c != '\n' then
        spaces
        match ← peek? with
        | none => return []
        | some d => guard (d == '\n')
      skipWhile isSpaceOrBreak
      return []

/-- The quotes that may stand before the closing ones, of which there are at most two. -/
def extraQuotes (mark : Char) : Scan (List Char) := do
  if ← accept [mark, mark] then return [mark, mark]
  else if ← accept [mark] then return [mark]
  else return []

/-- The rest of a basic text. -/
def basicBody (multiline : Bool) : Scan (List Char) :=
  repeatFrom [] fun done => do
    let c ← char
    if c == '\\' then
      return .more ((← escape multiline).reverse ++ done)
    else if c == '"' then
      if !multiline then
        return .done done.reverse
      else if ← accept ['"', '"'] then
        return .done (done.reverse ++ (← extraQuotes '"'))
      else
        return .more (c :: done)
    else
      guard (!(isControl c && !(multiline && c == '\n')))
      return .more (c :: done)

/-- The rest of a literal text. -/
def literalBody (multiline : Bool) : Scan (List Char) :=
  repeatFrom [] fun done => do
    let c ← char
    if c == '\'' then
      if !multiline then
        return .done done.reverse
      else if ← accept ['\'', '\''] then
        return .done (done.reverse ++ (← extraQuotes '\''))
      else
        return .more (c :: done)
    else
      guard (!(isControl c && !(multiline && c == '\n')))
      return .more (c :: done)

/-- A text in any of its four forms. A line end right after tripled quotes is not part of it. -/
def text (manyLines : Bool) : Scan String := do
  let mark ← satisfy fun c => c == '"' || c == '\''
  let body := if mark == '"' then basicBody else literalBody
  if manyLines && (← accept [mark, mark]) then
    let _ ← accept ['\n']
    return String.ofList (← body true)
  else
    return String.ofList (← body false)

/-- A character of a bare key. -/
def isBare (c : Char) : Bool :=
  c.isAlphanum || c == '-' || c == '_'

/-- One part of a dotted key. -/
def keyPart : Scan String := do
  match ← peek? with
  | some c =>
      if isBare c then return String.ofList (← takeWhile isBare)
      else text false
  | none => failure

/-- A dotted key. -/
def key : Scan (List String) :=
  repeatFrom [] fun parts => do
    let part ← keyPart
    spaces
    if ← accept ['.'] then
      spaces
      return .more (parts ++ [part])
    else
      return .done (parts ++ [part])

end PeriodLint.Toml
