import PeriodLint.Grammar.Reading

/-!
# Quoted text

Quoted text is no code, except for what an interpolation holds. A backslash
takes the next character with it. Between brackets the same brackets may nest.
-/

namespace PeriodLint.Grammar

/-- How a quoted text ends and whether it may hold code. The opening mark is given when it nests. -/
structure Quotation where
  opener : Option Char := none
  closer : Char
  verbatim : Bool := false

/-- The opening of an interpolation. -/
def interpolationMark : String := "#\x7b"

/-- Statements inside quoted text. -/
def interpolation : Reading Node := do
  let opening ← token interpolationMark
  let statements ← nestedBody []
  let closing ← token "\x7d"
  return Node.over "interpolation" (opening :: statements ++ [closing])

/-- The plain text since an offset, if there is any. -/
def contentSince (start : Nat) : Reading (List Node) := do
  let stop ← here
  return if start < stop then [{ kind := "string_content", start, stop }] else []

/-- What is read so far of a quoted text. -/
structure Quoting where
  parts : List Node := []
  start : Nat
  depth : Nat := 0

/-- Quoted text up to its closing mark, which is not read. -/
def quotedParts (q : Quotation) : Reading (List Node) := do
  repeatFrom { start := ← here } fun (s : Quoting) => do
    match ← rest with
    | [] => failure
    | '\\' :: _ =>
        advance 2
        return .more s
    | c :: _ =>
        if c == q.closer && s.depth == 0 then
          return .done (s.parts ++ (← contentSince s.start))
        else if !q.verbatim && (← isNext interpolationMark) then
          let before ← contentSince s.start
          let code ← interpolation
          return .more { s with parts := s.parts ++ before ++ [code], start := code.stop }
        else
          advance 1
          if q.opener == some c then
            return .more { s with depth := s.depth + 1 }
          else if c == q.closer then
            return .more { s with depth := s.depth - 1 }
          else
            return .more s

/-- Quoted text with its marks, the first of which has a given length. -/
def quoted (kind : String) (opening : Nat) (q : Quotation) : Reading Node := do
  let first ← leaf "\"" opening
  let parts ← quotedParts q
  let last ← leaf "\"" 1
  return Node.over kind
    ({ first with named := false } :: parts ++ [{ last with named := false }])

/-- The closing mark for an opening mark, and the opening mark again if it nests. -/
def Quotation.ofMark (verbatim : Bool) : Char → Quotation
  | '(' => ⟨some '(', ')', verbatim⟩
  | '[' => ⟨some '[', ']', verbatim⟩
  | '\x7b' => ⟨some '\x7b', '\x7d', verbatim⟩
  | '<' => ⟨some '<', '>', verbatim⟩
  | c => ⟨none, c, verbatim⟩

/-- How many characters lead to the end of a heredoc, if a line that ends it comes next. -/
def Heredoc.ending? (h : Heredoc) (cs : List Char) : Option Nat :=
  let line := if h.indented then cs.dropWhile fun c => c == ' ' || c == '\t' else cs
  let after := (line.drop h.word.length).dropWhile fun c => c == ' ' || c == '\t' || c == '\r'
  if h.word.isPrefixOf line && (after.isEmpty || after.head? == some '\n') then
    some (cs.length - line.length + h.word.length)
  else
    none

/-- The lines of a heredoc, from the line break before them. The end of the program ends them
too. -/
def heredocBody (h : Heredoc) : Reading Node := do
  let start ← here
  let parts ← repeatFrom ([], false) fun (parts, atLine) => do
    let cs ← rest
    match if atLine then h.ending? cs else none with
    | some count =>
        advance count
        return .done parts
    | none =>
        match cs with
        | [] => return .done parts
        | '\n' :: _ =>
            advance 1
            return .more (parts, true)
        | '\\' :: '\n' :: _ =>
            advance 1
            return .more (parts, false)
        | '\\' :: _ =>
            advance (if h.verbatim then 1 else 2)
            return .more (parts, false)
        | _ =>
            if !h.verbatim && (← isNext interpolationMark) then
              return .more (parts ++ [← interpolation], false)
            else
              advance 1
              return .more (parts, false)
  return { kind := "heredoc_body", start, stop := ← here, children := parts }

end PeriodLint.Grammar
