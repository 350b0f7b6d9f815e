import PeriodLint.Grammar.Quoted

/-!
# Gaps

A gap is what may stand between any two tokens: blanks, comments, joined lines,
and the heredocs that were announced before a line break. A line break in a gap
ends a statement unless the next line goes on with a method call.
-/

namespace PeriodLint.Grammar

/-- What was passed over between two tokens. A gap is crossed when a line ended in it, and broken
when that ends a statement. -/
structure Gap where
  extras : List Node := []
  blank : Bool := false
  crossed : Bool := false
  broken : Bool := false

/-- The length of the shortest start of a text that ends with a word. -/
def lengthThrough (word : List Char) : List Char → Option Nat
  | [] => none
  | c :: cs =>
      if word.isPrefixOf (c :: cs) then some word.length
      else (lengthThrough word cs).map (· + 1)

/-- The number of characters before the end of the line. -/
def restOfLine (cs : List Char) : Nat := (cs.takeWhile (· != '\n')).length

/-- The length of a comment of whole lines, which stands between a begin mark and an end mark. -/
def blockCommentLength? (cs : List Char) : Option Nat := do
  guard ("=begin".toList.isPrefixOf cs)
  let first := restOfLine cs
  let through ← lengthThrough "=end".toList (cs.drop first)
  return first + through + restOfLine (cs.drop (first + through))

/-- Whether a line goes on with a call of a method on what stands before. -/
def continuesCall : List Char → Bool
  | '.' :: '.' :: _ => false
  | '.' :: _ => true
  | '&' :: '.' :: _ => true
  | _ => false

/-- Read one more piece of a gap. -/
def gapRound (g : Gap) : Reading (Round Gap Gap) := do
  let cs ← rest
  let comment (count : Nat) : Reading Gap := do
    return { g with extras := g.extras ++ [← leaf "comment" count], blank := true }
  let blanks (count : Nat) : Reading Gap := do
    advance count
    return { g with blank := true }
  match cs, (← get).waiting with
  | '\n' :: _, h :: hs | '\r' :: _, h :: hs =>
      modify fun cursor => { cursor with waiting := hs }
      return .more { g with extras := g.extras ++ [← heredocBody h], blank := true }
  | '\n' :: _, [] => return .more { ← blanks 1 with crossed := true }
  | '\\' :: '\r' :: '\n' :: _, _ => return .more (← blanks 3)
  | '\\' :: '\n' :: _, _ => return .more (← blanks 2)
  | '#' :: _, _ => return .more (← comment (restOfLine cs))
  | c :: _, _ =>
      if isSpace c then return .more (← blanks 1)
      match blockCommentLength? cs with
      | some count => return .more { ← comment count with broken := g.broken || g.crossed }
      | none => return .done { g with broken := g.broken || g.crossed && !continuesCall cs }
  | [], _ => return .done { g with broken := g.broken || g.crossed }

/-- Read a gap, which may be empty. -/
def gap : Reading Gap := repeatFrom {} gapRound

/-- The comments and heredocs of a gap in which line breaks do not matter. -/
def extras : Reading (List Node) := do return (← gap).extras

/-- Whether a gap ends an expression. -/
def Context.endsAt (ctx : Context) (g : Gap) : Bool := ctx.lines && g.broken

end PeriodLint.Grammar
