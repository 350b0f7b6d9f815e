import PeriodLint.Grammar.Expression

/-!
# Programs

A program is a list of statements. A text that is none has a tree with a fault
at its root, which still holds the comments.
-/

namespace PeriodLint.Grammar

/-- The word that ends a program before the end of its text. -/
def endingWord : String := "__END__"

/-- Whether statements end at a text: at its end, at a closing bracket, or at a word that ends the
construct around them. -/
def endsBody (closers : List String) (cs : List Char) : Bool :=
  cs.isEmpty || ")]\x7d".toList.any (cs.head? == some ·) ||
    closers.contains (String.ofList (nameAt cs))

/-- Statements, each of which ends with a line break, a semicolon, or the end of them all. -/
def body (ctx : Context) : Reading (List Node) := do
  repeatFrom [] fun parts => do
    let parts := parts ++ (← extras)
    let cs ← rest
    if endsBody ctx.closers cs then return .done parts
    match ← token? ";" with
    | mark :: _ => return .more (parts ++ [mark])
    | [] =>
        let statement ← expression ctx 0
        guard (← lookahead do
          let g ← gap
          let cs ← rest
          return g.broken || cs.head? == some ';' || endsBody ctx.closers cs)
        return .more (parts ++ [statement])

/-- The grammar at its innermost level, where nothing nests any more. -/
def Inner.innermost : Inner where
  bound := 0
  expression _ _ := failure
  body _ := failure
  pattern _ := failure
  parameters := failure

/-- The grammar around the next level. -/
def Inner.around (inner : Inner) : Inner where
  bound := inner.bound + 1
  expression ctx level := (Grammar.expression ctx level).run inner
  body ctx := (Grammar.body ctx).run inner
  pattern ctx := (Grammar.pattern ctx).run inner
  parameters := (parameterList elementLevel [","]).run inner

/-- The grammar with so many levels. -/
def Inner.ofDepth (depth : Nat) : Inner := Nat.repeat Inner.around depth Inner.innermost

/-- The mark of the byte order, which may stand in front of a program. -/
def byteOrderMark : Char := '\uFEFF'

/-- A whole program. -/
def program : Reading Node := do
  if (← rest).head? == some byteOrderMark then advance 1
  let children ← body (Context.body [endingWord])
  let cs ← rest
  let start ← here
  guard (cs.isEmpty || nameAt cs == endingWord.toList)
  advance cs.length
  let start := (children.head?.map Node.start).getD start
  return { kind := "program", start, stop := ← here, children }

/-- The comments outside of quoted strings. -/
def strayComments : Reading (List Node) := do
  repeatFrom [] fun parts => do
    let parts := parts ++ (← extras)
    match ← rest with
    | [] => return .done parts
    | cs =>
        let quotation : Reading Unit := do
          guard (startsString cs)
          let _ ← plainString
        quotation <|> advance 1
        return .more parts

/-- What is left of the tree of a text that is no program. -/
def faulty : Reading Node := do
  let start ← here
  let children ← strayComments
  return { kind := "ERROR", start, stop := ← here, children }

/-- The syntax tree of a text. -/
def parse (source : String) : Node :=
  let cs := source.toList
  let inner := Inner.ofDepth (cs.length + 2)
  match ((program <|> faulty).run inner).run { rest := cs } with
  | some (n, _) => n
  | none => { kind := "ERROR", start := 0, stop := 0 }

end PeriodLint.Grammar
