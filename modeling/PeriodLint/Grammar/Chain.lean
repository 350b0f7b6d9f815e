import PeriodLint.Grammar.Definition

/-!
# Chains of calls

An operand starts with a literal, a name, a bracket or a construct, and goes on
with the calls, subscripts, arguments and blocks behind it.
-/

namespace PeriodLint.Grammar

/-- What may follow in a chain: anything for the name of a method, at most a block after arguments,
and neither after a value. -/
inductive Link where
  | name
  | applied
  | value
  deriving DecidableEq

/-- A chain and its last link. -/
structure Chain where
  node : Node
  link : Link := .value

/-- Statements in parentheses, or a list of targets. -/
def parenthesized : Reading Node := do
  let first ← token "("
  let inside ← (← read).body { Context.body [] with grouped := true }
  let last ← token ")"
  let kind :=
    if inside.any (·.kind == "left_assignment_list") then "destructured_left_assignment"
    else "parenthesized_statements"
  return Node.over kind (first :: inside ++ [last])

/-- A number with a sign. -/
def signedNumber : Reading Node := do
  let sign ← token "-" <|> token "+"
  return Node.over "unary" [sign.playing "operator", (← number).playing "operand"]

/-- A constant of the outermost scope. -/
def outermostConstant : Reading Node := do
  let mark ← token "::"
  let name ← leaf "constant" (wordAt (← rest)).length
  guard (name.start < name.stop)
  return Node.over "scope_resolution" [mark, name.playing "name"]

/-- A statement that leaves the surrounding construct, with the values that it hands over. -/
def departure (ctx : Context) (word : String) : Reading Node := do
  let first ← keyword word
  if word == "yield" && (← isNext "(") then
    return Node.over word [first, (← argumentList).playing "arguments"]
  let cursor ← get
  let g ← gap
  let cs ← rest
  let follows := ctx.startsOperand cs || cs.head? == some '*' && clings (cs.drop 1)
  if ctx.commands && !ctx.endsAt g && follows then
    let arguments ← looseArguments ctx
    return Node.over word (first :: g.extras ++ [arguments.playing "arguments"])
  else
    set cursor
    return Node.over word [first]

/-- A name, a variable or a construct that a word opens. -/
def named (ctx : Context) : Reading Chain := do
  let name := nameAt (← rest)
  let value (reading : Reading Node) : Reading Chain := do return { node := ← reading }
  match String.ofList name with
  | "" => failure
  | "if" => value (conditional "if")
  | "unless" => value (conditional "unless")
  | "while" => value (conditionLoop "while")
  | "until" => value (conditionLoop "until")
  | "for" => value valueLoop
  | "case" => value choice
  | "begin" => value once
  | "def" => value (method ctx)
  | "class" => value classDefinition
  | "module" => value moduleDefinition
  | "alias" => value aliasStatement
  | "undef" => value undefStatement
  | "BEGIN" => value (programHook "BEGIN" "begin_block")
  | "END" => value (programHook "END" "end_block")
  | "return" => value (departure ctx "return")
  | "break" => value (departure ctx "break")
  | "next" => value (departure ctx "next")
  | "yield" => value (departure ctx "yield")
  | "redo" => value (leaf "redo" 4)
  | "retry" => value (leaf "retry" 5)
  | "nil" => value (leaf "nil" 3)
  | "true" => value (leaf "true" 4)
  | "false" => value (leaf "false" 5)
  | "self" => return ⟨← leaf "self" 4, .name⟩
  | "super" => return ⟨← leaf "super" 5, .name⟩
  | word =>
      guard (!ctx.closers.contains word)
      return ⟨← leaf (if isConstant name then "constant" else "identifier") name.length, .name⟩

/-- The start of an operand. -/
def primary (ctx : Context) : Reading Chain := do
  let value (reading : Reading Node) : Reading Chain := do return { node := ← reading }
  match ← rest with
  | '(' :: _ => value parenthesized
  | '[' :: _ => value array
  | '\x7b' :: _ => value hash
  | '"' :: _ => value (strings ctx)
  | '\'' :: _ => value (strings ctx)
  | '\x60' :: _ => value (quoted "subshell" 1 { closer := '\x60' })
  | ':' :: ':' :: _ => value outermostConstant
  | ':' :: _ => value symbol
  | '@' :: _ => return ⟨← markedVariable, .name⟩
  | '$' :: _ => return ⟨← markedVariable, .name⟩
  | '-' :: '>' :: _ => value lambda
  | '-' :: _ => value signedNumber
  | '+' :: _ => value signedNumber
  | '/' :: _ => value slashRegex
  | '%' :: _ => value percentLiteral
  | '<' :: _ => value heredocBeginning
  | '?' :: _ => value characterLiteral
  | c :: _ => if c.isDigit then value number else named ctx
  | [] => failure

/-- A call with more parts. What was only a name becomes the method of a call. -/
def invoking (callee : Node) (parts : List Node) : Node :=
  if callee.kind == "call" then Node.over "call" (callee.children ++ parts)
  else Node.over "call" (callee.playing "method" :: parts)

/-- The name of a method behind the operator of a call. -/
def calledName : Reading Node := do
  let cs ← rest
  match nameAt cs with
  | [] => leaf "operator" (← firstOf methodOperators cs).length
  | name => leaf (if isConstant name then "constant" else "identifier") name.length

/-- The call of a method on a receiver. Without a name the receiver itself is called. -/
def sent (receiver : Node) (before : List Node) (operator : String) : Reading Chain := do
  let mark ← token operator
  let between ← extras
  let start := receiver.playing "receiver" :: before ++ mark.playing "operator" :: between
  if ← isNext "(" then
    return ⟨Node.over "call" (start ++ [(← argumentList).playing "arguments"]), .applied⟩
  let name ← calledName
  if operator == "::" && name.kind == "constant" && !(← isNext "(") then
    return ⟨Node.over "scope_resolution" (start ++ [name.playing "name"]), .value⟩
  return ⟨Node.over "call" (start ++ [name.playing "method"]), .name⟩

/-- An element of what stands before. -/
def subscripted (object : Node) (before : List Node) : Reading Chain := do
  let index ← bracketed "" "[" "]" fun _ => argument Context.element elementLevel
  let children := object.playing "object" :: before ++ index.children
  return { node := Node.over "element_reference" children }

/-- A block between words behind a call, if the surroundings leave it to the call. -/
def trailingBlock (ctx : Context) (callee : Node) : Reading (Option Chain) := do
  let cursor ← get
  let g ← gap
  if ctx.doBlocks && !ctx.endsAt g && (← nextWord) == "do" then
    let block ← wordsBlock
    return some { node := invoking callee (g.extras ++ [block.playing "block"]) }
  else
    set cursor
    return none

/-- The arguments of a method without parentheses, and the block behind them. -/
def commanded (ctx : Context) (callee : Node) (before : List Node) :
    Reading (Round Chain Node) := do
  let arguments ← looseArguments { ctx with doBlocks := false }
  let call := invoking callee (before ++ [arguments.playing "arguments"])
  match ← trailingBlock ctx call with
  | some chain => return .more chain
  | none => return .done call

/-- Go on with a chain behind a gap. -/
def linkedAfter (ctx : Context) (c : Chain) (cursor : Cursor) (g : Gap) :
    Reading (Round Chain Node) := do
  let cs ← rest
  let stop : Reading (Round Chain Node) := do
    set cursor
    return .done c.node
  if ctx.endsAt g then return ← stop
  if continuesCall cs then
    return .more (← sent c.node g.extras (if cs.head? == some '.' then "." else "&."))
  if c.link == .name && ctx.commands && g.blank && ctx.startsArgument cs then
    return ← commanded ctx c.node g.extras
  match cs with
  | ':' :: ':' :: _ => return .more (← sent c.node g.extras "::")
  | '[' :: _ => if g.crossed then stop else return .more (← subscripted c.node g.extras)
  | '\x7b' :: _ =>
      if c.link == .value then stop
      else
        let block ← bracesBlock
        return .more { node := invoking c.node (g.extras ++ [block.playing "block"]) }
  | _ =>
      if c.link == .value then return ← stop
      set cursor
      match ← trailingBlock ctx c.node with
      | some chain => return .more chain
      | none => return .done c.node

/-- Go on with a chain. -/
def linked (ctx : Context) (c : Chain) : Reading (Round Chain Node) := do
  match c.link, ← rest with
  | .name, '(' :: _ =>
      let arguments ← argumentList
      return .more ⟨invoking c.node [arguments.playing "arguments"], .applied⟩
  | _, '[' :: _ => return .more (← subscripted c.node [])
  | _, _ =>
      let cursor ← get
      linkedAfter ctx c cursor (← gap)

/-- An operand without operators. -/
def chain (ctx : Context) : Reading Node := do repeatFrom (← primary ctx) (linked ctx)

end PeriodLint.Grammar
