import PeriodLint.Grammar.Gap

/-!
# Literals

Numbers, symbols, variables with a mark, and all forms of quoted text.
-/

namespace PeriodLint.Grammar

/-- A digit of a number to a base above ten. -/
def isHexDigit (c : Char) : Bool :=
  c.isDigit || ('a' ≤ c && c ≤ 'f') || ('A' ≤ c && c ≤ 'F')

/-- The length of a run of characters in which underscores may stand. -/
def runLength (p : Char → Bool) (cs : List Char) : Nat :=
  (cs.takeWhile fun c => p c || c == '_').length

/-- The length of the whole part of a number. -/
def wholeLength : List Char → Nat
  | '0' :: base :: cs =>
      if "xX".contains base then 2 + runLength isHexDigit cs
      else if "bBoOdD".contains base then 2 + runLength Char.isDigit cs
      else runLength Char.isDigit ('0' :: base :: cs)
  | cs => runLength Char.isDigit cs

/-- The length of the fraction of a number, which starts with a digit. -/
def fractionLength : List Char → Nat
  | '.' :: c :: cs => if c.isDigit then 1 + runLength Char.isDigit (c :: cs) else 0
  | _ => 0

/-- The length of the power of ten of a number. -/
def powerLength : List Char → Nat
  | e :: sign :: c :: cs =>
      if !"eE".contains e then 0
      else if sign.isDigit then 1 + runLength Char.isDigit (sign :: c :: cs)
      else if "+-".contains sign && c.isDigit then 2 + runLength Char.isDigit (c :: cs)
      else 0
  | [e, c] => if "eE".contains e && c.isDigit then 2 else 0
  | _ => 0

/-- A number without a sign. -/
def number : Reading Node := do
  let cs ← rest
  let whole := wholeLength cs
  guard (0 < whole)
  let fraction := fractionLength (cs.drop whole)
  let power := powerLength (cs.drop (whole + fraction))
  let length := whole + fraction + power
  match (cs.drop length).takeWhile isNameChar with
  | ['r'] => leaf "rational" (length + 1)
  | ['i'] => leaf "complex" (length + 1)
  | ['r', 'i'] => leaf "complex" (length + 2)
  | _ => leaf (if fraction + power == 0 then "integer" else "float") length

/-- The length of a variable with a mark, if one comes next. -/
def variableLength? : List Char → Option Nat
  | '@' :: '@' :: cs => named 2 cs
  | '@' :: cs => named 1 cs
  | '$' :: '-' :: _ :: _ => some 3
  | '$' :: c :: cs =>
      if c.isDigit || isNameChar c then some (1 + ((c :: cs).takeWhile isNameChar).length)
      else if "!@&\x60\x27+~=/\\,;.<>*$?:\"".contains c then some 2
      else some 1
  | ['$'] => some 1
  | _ => none
where
  named (count : Nat) (cs : List Char) : Option Nat :=
    match wordAt cs with
    | [] => none
    | word => some (count + word.length)

/-- The kind of a variable with a mark. -/
def variableKind : List Char → String
  | '@' :: '@' :: _ => "class_variable"
  | '@' :: _ => "instance_variable"
  | _ => "global_variable"

/-- A variable with a mark. -/
def markedVariable : Reading Node := do
  let cs ← rest
  leaf (variableKind cs) (← variableLength? cs)

/-- The length of the name in a plain symbol, if one comes next. A symbol may name a setter. -/
def symbolNameLength? (cs : List Char) : Option Nat :=
  match wordAt cs, variableLength? cs, firstOf methodOperators cs with
  | [], some count, _ => some count
  | [], none, some operator => some operator.length
  | [], none, none => none
  | word, _, _ =>
      let after := cs.drop word.length
      let mark := nameMark after
      let setter := startsAssignment (after.drop mark.length)
      some (word.length + mark.length + if setter then 1 else 0)

/-- Whether a symbol comes next. -/
def startsSymbol : List Char → Bool
  | ':' :: '"' :: _ => true
  | ':' :: '\'' :: _ => true
  | ':' :: cs => (symbolNameLength? cs).isSome
  | _ => false

/-- A symbol, plain or quoted. -/
def symbol : Reading Node := do
  match ← rest with
  | ':' :: '"' :: _ => quoted "delimited_symbol" 2 { closer := '"' }
  | ':' :: '\'' :: _ => quoted "delimited_symbol" 2 { closer := '\'', verbatim := true }
  | ':' :: cs => leaf "simple_symbol" (1 + (← symbolNameLength? cs))
  | _ => failure

/-- The kind of a literal that starts with a percent sign and a letter, and whether it is
verbatim. -/
def percentKind? : Char → Option (String × Bool)
  | 'w' => some ("string_array", true)
  | 'W' => some ("string_array", false)
  | 'i' => some ("symbol_array", true)
  | 'I' => some ("symbol_array", false)
  | 'q' => some ("string", true)
  | 'Q' => some ("string", false)
  | 'r' => some ("regex", false)
  | 'x' => some ("subshell", false)
  | 's' => some ("delimited_symbol", true)
  | _ => none

/-- A mark that can open a literal after a percent sign. -/
def isDelimiter (c : Char) : Bool := marks.contains c || c == '_'

/-- The kind of a literal with a percent sign, the length of its opening and its marks, if one comes
next. -/
def percentOpening? : List Char → Option (String × Nat × Quotation)
  | '%' :: c :: d :: _ =>
      if isDelimiter c then
        some ("string", 2, Quotation.ofMark false c)
      else do
        let (kind, verbatim) ← percentKind? c
        guard (isDelimiter d)
        some (kind, 3, Quotation.ofMark verbatim d)
  | ['%', c] => if isDelimiter c then some ("string", 2, Quotation.ofMark false c) else none
  | _ => none

/-- The flags behind a regular expression, which belong to it. -/
def withFlags (n : Node) : Reading Node := do
  advance ((← rest).takeWhile Char.isLower).length
  return { n with stop := ← here }

/-- A literal with a percent sign. -/
def percentLiteral : Reading Node := do
  let (kind, opening, q) ← percentOpening? (← rest)
  let n ← quoted kind opening q
  if kind == "regex" then withFlags n else return n

/-- A regular expression between slashes. -/
def slashRegex : Reading Node := do withFlags (← quoted "regex" 1 { closer := '/' })

/-- The length of the announcement of a heredoc and the heredoc, if one comes next. -/
def heredocAt? : List Char → Option (Nat × Heredoc)
  | '<' :: '<' :: '~' :: cs => announced 3 true cs
  | '<' :: '<' :: '-' :: cs => announced 3 true cs
  | '<' :: '<' :: cs => announced 2 false cs
  | _ => none
where
  announced (count : Nat) (indented : Bool) : List Char → Option (Nat × Heredoc)
    | '\'' :: cs => between count indented true '\'' cs
    | '"' :: cs => between count indented false '"' cs
    | '\x60' :: cs => between count indented false '\x60' cs
    | cs =>
        match wordAt cs with
        | [] => none
        | word => some (count + word.length, { word, indented, verbatim := false })
  between (count : Nat) (indented verbatim : Bool) (closer : Char) (cs : List Char) :
      Option (Nat × Heredoc) := do
    let word := cs.takeWhile (· != closer)
    guard (word.length < cs.length)
    some (count + word.length + 2, { word, indented, verbatim })

/-- The announcement of a heredoc, whose lines are read after the line break. -/
def heredocBeginning : Reading Node := do
  let (count, heredoc) ← heredocAt? (← rest)
  modify fun cursor => { cursor with waiting := cursor.waiting ++ [heredoc] }
  leaf "heredoc_beginning" count

/-- The length of a character literal, if one comes next. -/
def characterLength? : List Char → Option Nat
  | '?' :: '\\' :: 'u' :: '\x7b' :: cs => some (5 + (cs.takeWhile (· != '\x7d')).length)
  | '?' :: '\\' :: _ :: '-' :: '\\' :: _ :: '-' :: _ :: _ => some 8
  | '?' :: '\\' :: _ :: '-' :: _ :: _ => some 5
  | '?' :: '\\' :: c :: cs =>
      if isSpace c then none
      else some (3 + if "ux".contains c then (cs.takeWhile isHexDigit).length else 0)
  | '?' :: c :: _ => if isSpace c then none else some 2
  | _ => none

/-- A literal of one character. -/
def characterLiteral : Reading Node := do leaf "character" (← characterLength? (← rest))

/-- One quoted string. -/
def plainString : Reading Node := do
  match ← rest with
  | '"' :: _ => quoted "string" 1 { closer := '"' }
  | '\'' :: _ => quoted "string" 1 { closer := '\'', verbatim := true }
  | _ => failure

/-- Whether a quoted string comes next. -/
def startsString (cs : List Char) : Bool := cs.head? == some '"' || cs.head? == some '\''

/-- Quoted strings on one line, which are one string. -/
def strings (ctx : Context) : Reading Node := do
  let first ← plainString
  let parts ← repeatFrom [first] fun parts => do
    let cursor ← get
    let g ← gap
    if !ctx.endsAt g && startsString (← rest) then
      return .more (parts ++ g.extras ++ [← plainString])
    else
      set cursor
      return .done parts
  return if parts.length == 1 then first else Node.over "chained_string" parts

end PeriodLint.Grammar
