import PeriodLint.Grammar.Argument

/-!
# Parameters and blocks

Blocks are what a call runs, in braces or between words. The statements of the
second form, and those of definitions, may be followed by clauses that handle
failures.
-/

namespace PeriodLint.Grammar

/-- A parameter that takes all that is left, with or without a name. -/
def restParameter (kind mark : String) : Reading Node := do
  let first ← token mark
  match wordAt (← rest) with
  | [] => return Node.over kind [first]
  | name => return Node.over kind [first, (← leaf "identifier" name.length).playing "name"]

/-- A named parameter, which may have a default value that binds at least as strongly as a level. -/
def namedParameter (level : Nat) : Reading Node := do
  let cs ← rest
  let labelled := !(labelAt cs).isEmpty
  let count := if labelled then (labelAt cs).length else (wordAt cs).length
  guard (0 < count)
  let name := (← leaf "identifier" count).playing "name"
  let mark ← if labelled then token? ":" else pure []
  let cursor ← get
  let g ← gap
  if labelled then
    if !g.crossed && Context.element.startsOperand (← rest) then
      let value ← nested Context.element level
      return Node.over "keyword_parameter" (name :: mark ++ g.extras ++ [value.playing "value"])
    else
      set cursor
      return Node.over "keyword_parameter" (name :: mark)
  else if startsAssignment (← rest) then
    let sign ← token "="
    let before ← extras
    let value ← nested Context.element level
    return Node.over "optional_parameter"
      (name :: g.extras ++ sign :: before ++ [value.playing "value"])
  else
    set cursor
    return { name with field := none }

/-- One parameter. -/
def parameter (level : Nat) : Reading Node := do
  match ← rest with
  | '(' :: _ =>
      let first ← token "("
      let inside ← (← read).parameters
      let before ← extras
      return Node.over "destructured_parameter" (first :: inside ++ before ++ [← token ")"])
  | '*' :: '*' :: _ => restParameter "hash_splat_parameter" "**"
  | '*' :: _ => restParameter "splat_parameter" "*"
  | '&' :: _ => restParameter "block_parameter" "&"
  | '.' :: _ => return { ← token "..." with kind := "forward_parameter", named := true }
  | _ => namedParameter level

/-- Whether a parameter comes next. -/
def startsParameter (cs : List Char) : Bool :=
  match wordAt cs with
  | [] => "(*&".toList.any (cs.head? == some ·) || "...".toList.isPrefixOf cs
  | word => String.ofList word != "do"

/-- Parameters with separators between them. There may be none. -/
def parameterList (level : Nat) (separators : List String) : Reading (List Node) := do
  repeatFrom [] fun parts => do
    let cursor ← get
    let before ← extras
    if !startsParameter (← rest) && !separators.any (·.toList.isPrefixOf (← rest)) then
      set cursor
      return .done parts
    let one ← if startsParameter (← rest) then pure [← parameter level] else pure []
    let cursor ← get
    let after ← extras
    match firstOf separators (← rest) with
    | some separator => return .more (parts ++ before ++ one ++ after ++ [← token separator])
    | none =>
        set cursor
        return .done (parts ++ before ++ one)

/-- Parameters in parentheses, the last of which no comma follows. -/
def parenthesizedParameters (kind : String) (separators : List String) : Reading Node := do
  let first ← token "("
  let inside ← parameterList elementLevel separators
  guard (inside.getLast?.all (·.kind != ","))
  let before ← extras
  return Node.over kind (first :: inside ++ before ++ [← token ")"])

/-- The parameters of a block between bars, if there are any. -/
def blockParameters : Reading (List Node) := do
  let cursor ← get
  let before ← extras
  if ← isNext "|" then
    let first ← token "|"
    let inside ← parameterList operandLevel [",", ";"]
    let after ← extras
    return before ++ [Node.over "block_parameters" (first :: inside ++ after ++ [← token "|"])]
  else
    set cursor
    return []

/-- A block in braces. -/
def bracesBlock : Reading Node := do
  let first ← token "\x7b"
  let parameters ← blockParameters
  let statements ← nestedBody []
  return Node.over "block" (first :: parameters ++ statements ++ [← token "\x7d"])

/-- The word that separates a heading from its statements, or the line break in its place. -/
def separator (word : String) : Reading (List Node) := do
  let g ← gap
  let mark ← keyword? word
  guard (g.broken || !mark.isEmpty || (← isNext ";"))
  return g.extras ++ mark

/-- What a clause handles: the kinds of failure, and where the failure is put. -/
def handled : Reading (List Node) := do
  let ctx := (Context.body ["then"]).operand
  let cursor ← get
  let g ← gap
  let cs ← rest
  if g.broken || !(ctx.startsOperand cs || cs.head? == some '*') then
    set cursor
    return []
  else
    let kinds ← listed ctx fun _ => do
      if ← isNext "*" then marked ctx "splat_argument" "*" valueLevel
      else nested ctx valueLevel
    return g.extras ++ kinds

/-- Where a failure is put. -/
def handledTarget : Reading (List Node) := do
  let cursor ← get
  let before ← extras
  if ← isNext "=>" then
    let mark ← token "=>"
    return before ++ mark :: (← extras) ++ [← nested Context.element operandLevel]
  else
    set cursor
    return []

/-- The words that end the statements before them and go on with the same construct. -/
def handlingWords : List String := ["rescue", "else", "ensure", "end"]

/-- Statements with clauses behind them that handle failures, and the word that ends them all. -/
def handledBody : Reading (List Node) := do
  let statements ← nestedBody handlingWords
  repeatFrom statements fun parts => do
    match ← nextWord with
    | "rescue" =>
        let heading := [← keyword "rescue"] ++ (← handled) ++ (← handledTarget)
        let mark ← separator "then"
        let statements ← nestedBody handlingWords
        return .more (parts ++ [Node.over "rescue" (heading ++ mark ++ statements)])
    | "end" => return .done (parts ++ [← keyword "end"])
    | word =>
        guard (handlingWords.contains word)
        let first ← keyword word
        return .more (parts ++ [Node.over word (first :: (← nestedBody handlingWords))])

/-- A block between words. -/
def wordsBlock : Reading Node := do
  let first ← keyword "do"
  let parameters ← blockParameters
  return Node.over "do_block" (first :: parameters ++ (← handledBody))

/-- A function without a name. -/
def lambda : Reading Node := do
  let first ← token "->"
  let before ← extras
  let parameters ←
    if ← isNext "(" then pure [← parenthesizedParameters "lambda_parameters" [",", ";"]]
    else parameterList elementLevel [","]
  let after ← extras
  let body ← if ← isNext "\x7b" then bracesBlock else wordsBlock
  return Node.over "lambda" (first :: before ++ parameters ++ after ++ [body.playing "body"])

end PeriodLint.Grammar
