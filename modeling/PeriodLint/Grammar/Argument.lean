import PeriodLint.Grammar.Opening

/-!
# Arguments

Elements of arrays, hashes and argument lists, with or without brackets around
them. Between brackets, line breaks do not matter and a last comma may stand.
-/

namespace PeriodLint.Grammar

/-- The level of an element between brackets, which binds more strongly than a modifier. -/
def elementLevel : Nat := 2

/-- The level of an argument without brackets, which binds more strongly than the words that join
statements. -/
def argumentLevel : Nat := 10

/-- The level of a value in a list of values, which is no assignment. -/
def valueLevel : Nat := 20

/-- The level of an operand without operators. -/
def operandLevel : Nat := 90

/-- Elements with commas between them, up to a closing bracket. An element is told whether it is
the first. -/
def bracketed (kind opener closer : String) (element : Bool → Reading Node) : Reading Node := do
  let children ← repeatFrom [← token opener] fun parts => do
    let before ← extras
    match ← token? closer with
    | last :: _ => return .done (parts ++ before ++ [last])
    | [] =>
        let one ← element (parts.length == 1)
        let after ← extras
        match ← token? "," with
        | comma :: _ => return .more (parts ++ before ++ one :: after ++ [comma])
        | [] => return .done (parts ++ before ++ one :: after ++ [← token closer])
  return Node.over kind children

/-- Elements with commas between them, of which there is at least one. -/
def listed (ctx : Context) (element : Bool → Reading Node) : Reading (List Node) := do
  repeatFrom [] fun parts => do
    let parts := parts ++ [← element parts.isEmpty]
    let cursor ← get
    let g ← gap
    if !ctx.endsAt g && (← isNext ",") then
      let comma ← token ","
      return .more (parts ++ g.extras ++ comma :: (← extras))
    else
      set cursor
      return .done parts

/-- A value behind a mark, or the mark alone. -/
def marked (ctx : Context) (kind mark : String) (level : Nat) : Reading Node := do
  let first ← token mark
  let cursor ← get
  let before ← extras
  if ctx.startsOperand (← rest) || (← isNext "..") then
    return Node.over kind (first :: before ++ [← nested ctx.operand level])
  else
    set cursor
    return Node.over kind [first]

/-- The pair of a key and the value behind a mark. The value may be left out. -/
def pairWith (ctx : Context) (key : List Node) (level : Nat) : Reading Node := do
  let cursor ← get
  let before ← extras
  if ctx.startsOperand (← rest) || (← isNext "..") then
    let value ← nested ctx.operand level
    return Node.over "pair" (key ++ before ++ [value.playing "value"])
  else
    set cursor
    return Node.over "pair" key

/-- Whether one colon comes next. -/
def isLabelMark : List Char → Bool
  | ':' :: ':' :: _ => false
  | ':' :: _ => true
  | _ => false

/-- A value, or the pair that it is the key of. -/
def valueOrPair (ctx : Context) (level : Nat) : Reading Node := do
  let value ← nested ctx level
  let key := value.playing "key"
  if value.kind == "string" && isLabelMark (← rest) then
    return ← pairWith ctx [key, ← token ":"] level
  let cursor ← get
  let g ← gap
  if !ctx.endsAt g && (← isNext "=>") then
    pairWith ctx (key :: g.extras ++ [← token "=>"]) level
  else
    set cursor
    return value

/-- The token that passes on all arguments. -/
def forwarded : Reading Node := do
  guard (← lookahead do
    let _ ← token "..."
    let _ ← gap
    isNext ")")
  leaf "forward_argument" 3

/-- An argument or an element. -/
def argument (ctx : Context) (level : Nat) : Reading Node := do
  let cs ← rest
  match cs with
  | '*' :: '*' :: _ => marked ctx "hash_splat_argument" "**" level
  | '*' :: _ => marked ctx "splat_argument" "*" level
  | '&' :: _ => marked ctx "block_argument" "&" level
  | '.' :: _ => forwarded <|> valueOrPair ctx level
  | _ =>
      match labelAt cs with
      | [] => valueOrPair ctx level
      | name =>
          let key ← leaf "hash_key_symbol" name.length
          pairWith ctx [key.playing "key", ← token ":"] level

/-- An array. -/
def array : Reading Node :=
  bracketed "array" "[" "]" fun _ => argument Context.element elementLevel

/-- A hash. -/
def hash : Reading Node :=
  bracketed "hash" "\x7b" "\x7d" fun _ => argument Context.element elementLevel

/-- Arguments in parentheses. The first may be a call with arguments of its own. -/
def argumentList : Reading Node :=
  bracketed "argument_list" "(" ")" fun first =>
    argument { Context.element with commands := first } elementLevel

/-- Arguments without parentheses. The first may be a call with arguments of its own. -/
def looseArguments (ctx : Context) : Reading Node := do
  let parts ← listed ctx fun first =>
    argument { ctx.single with commands := first } argumentLevel
  return Node.over "argument_list" parts

end PeriodLint.Grammar
