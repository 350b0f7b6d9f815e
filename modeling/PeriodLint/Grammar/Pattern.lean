import PeriodLint.Grammar.Chain

/-!
# Patterns

A pattern is compared with a value and may name its parts. Ranges in patterns
are ranges like any other, but no calls and operators may stand in them.
-/

namespace PeriodLint.Grammar

/-- A pattern one level further in. -/
def nestedPattern (ctx : Context) : Reading Node := do (← read).pattern ctx

/-- The pattern behind a label, which may be left out. -/
def labelledPattern (ctx : Context) (key : List Node) : Reading Node := do
  let cursor ← get
  let g ← gap
  let cs ← rest
  if !ctx.endsAt g && (ctx.startsOperand cs || cs.head? == some '^') then
    return Node.over "keyword_pattern" (key ++ g.extras ++ [← nestedPattern ctx.operand])
  else
    set cursor
    return Node.over "keyword_pattern" key

/-- A quoted label and its pattern. -/
def quotedLabelPattern (ctx : Context) : Reading Node := do
  let key ← plainString
  guard (isLabelMark (← rest))
  labelledPattern ctx [key.playing "key", ← token ":"]

/-- An element of a pattern of several parts. -/
def patternItem (ctx : Context) : Reading Node := do
  let cs ← rest
  match cs with
  | '*' :: '*' :: _ => restParameter "hash_splat_parameter" "**"
  | '*' :: _ => restParameter "splat_parameter" "*"
  | _ =>
      match labelAt cs with
      | [] => quotedLabelPattern ctx <|> nestedPattern ctx.operand
      | name =>
          let key ← leaf "hash_key_symbol" name.length
          labelledPattern ctx [key.playing "key", ← token ":"]

/-- Whether a name of a constant comes next. -/
def startsConstant (cs : List Char) : Bool := isConstant (wordAt cs)

/-- The name of a constant with the names of its scopes. -/
def constantPath : Reading Node := do
  guard (startsConstant (← rest))
  let first ← leaf "constant" (wordAt (← rest)).length
  repeatFrom first fun path => do
    match ← rest with
    | ':' :: ':' :: cs =>
        guard (startsConstant cs)
        let mark ← token "::"
        let name ← leaf "constant" (wordAt cs).length
        return .more (Node.over "scope_resolution" [path, mark, name])
    | _ => return .done path

/-- The parts that the values of a constant are made of. -/
def constructedPattern : Reading Node := do
  let name ← constantPath
  let parts ←
    bracketed "array_pattern" "(" ")" (fun _ => patternItem Context.element) <|>
    bracketed "array_pattern" "[" "]" (fun _ => patternItem Context.element)
  return Node.over "array_pattern" [name.playing "class", parts]

/-- The operator of a range. -/
def rangeMark : Reading Node := token "..." <|> token ".."

/-- A value or a range of values. -/
def valuePattern (ctx : Context) : Reading Node := do
  let value : Reading Node := constantPath <|> (do return (← primary ctx.operand).node)
  if ← isNext ".." then
    let mark ← rangeMark
    let before ← extras
    return Node.over "range" (mark.playing "operator" :: before ++ [(← value).playing "end"])
  let first ← value
  let cursor ← get
  let g ← gap
  if !ctx.endsAt g && (← isNext "..") then
    let start := first.playing "begin" :: g.extras ++ [(← rangeMark).playing "operator"]
    let cursor ← get
    let g ← gap
    if !ctx.endsAt g && ctx.startsOperand (← rest) then
      return Node.over "range" (start ++ g.extras ++ [(← value).playing "end"])
    else
      set cursor
      return Node.over "range" start
  else
    set cursor
    return first

/-- A pattern without alternatives. -/
def simplePattern (ctx : Context) : Reading Node := do
  match ← rest with
  | '[' :: _ => bracketed "array_pattern" "[" "]" fun _ => patternItem Context.element
  | '\x7b' :: _ => bracketed "hash_pattern" "\x7b" "\x7d" fun _ => patternItem Context.element
  | '(' :: _ => bracketed "parenthesized_pattern" "(" ")" fun _ => patternItem Context.element
  | '^' :: _ =>
      let mark ← token "^"
      return Node.over "variable_reference_pattern"
        [mark, ← nested Context.element.operand operandLevel]
  | _ => constructedPattern <|> valuePattern ctx

/-- A pattern with its alternatives and the names that it binds. -/
def bindingPattern (ctx : Context) : Reading Node := do
  let first ← simplePattern ctx
  repeatFrom first fun left => do
    let cursor ← get
    let g ← gap
    let cs ← rest
    if ctx.endsAt g then
      set cursor
      return .done left
    else if cs.head? == some '|' then
      let mark ← token "|"
      let before ← extras
      let right ← simplePattern ctx
      return .more (Node.over "alternative_pattern"
        (left :: g.extras ++ mark :: before ++ [right]))
    else if "=>".toList.isPrefixOf cs then
      let mark ← token "=>"
      let before ← extras
      let name ← nested ctx.operand operandLevel
      return .more (Node.over "as_pattern" (left :: g.extras ++ mark :: before ++ [name]))
    else
      set cursor
      return .done left

/-- A pattern, which between words may have several parts without brackets. -/
def pattern (ctx : Context) : Reading Node := do
  if !ctx.lists then return ← bindingPattern ctx
  let parts ← listed ctx fun _ => patternItem ctx.operand
  if parts.any (·.kind == "keyword_pattern") then
    return Node.over "hash_pattern" parts
  match parts with
  | [n] => return n
  | _ => return Node.over "array_pattern" parts

end PeriodLint.Grammar
