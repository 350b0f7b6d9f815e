import PeriodLint.Grammar.Pattern

/-!
# Expressions

Operators bind by level: an expression of a level is an operand followed by
operators of at least that level, each with an expression on its right. What
qualifies a statement is an operator too, of the lowest level. An assignment
binds its target most strongly and its value weakly.
-/

namespace PeriodLint.Grammar

/-- An operator between two operands. The right operand is of the next level, or of the same level
if the operator groups to the right. -/
structure Operator where
  sign : String
  level : Nat
  groupsRight : Bool := false

/-- The lowest level of a right operand. -/
def Operator.rightLevel (op : Operator) : Nat := if op.groupsRight then op.level else op.level + 1

/-- The level of the operators of ranges. -/
def rangeLevel : Nat := 25

/-- The level of a choice between two values. -/
def choiceLevel : Nat := 20

/-- Operators between values, so that none comes before a longer one that it starts. -/
def operators : List Operator :=
  [⟨"**", 80, true⟩, ⟨"*", 70, false⟩, ⟨"/", 70, false⟩, ⟨"%", 70, false⟩, ⟨"+", 65, false⟩,
    ⟨"-", 65, false⟩, ⟨"<<", 60, false⟩, ⟨">>", 60, false⟩, ⟨"&&", 35, false⟩, ⟨"&", 55, false⟩,
    ⟨"||", 30, false⟩, ⟨"|", 50, false⟩, ⟨"^", 50, false⟩, ⟨"<=>", 40, true⟩, ⟨"<=", 45, false⟩,
    ⟨"<", 45, false⟩, ⟨">=", 45, false⟩, ⟨">", 45, false⟩, ⟨"===", 40, true⟩, ⟨"==", 40, true⟩,
    ⟨"=~", 40, true⟩, ⟨"!=", 40, true⟩, ⟨"!~", 40, true⟩]

/-- Words between statements or conditions. -/
def wordOperators : List Operator :=
  [⟨"and", 2, false⟩, ⟨"or", 2, false⟩, ⟨"if", 1, false⟩, ⟨"unless", 1, false⟩,
    ⟨"while", 1, false⟩, ⟨"until", 1, false⟩, ⟨"rescue", 1, false⟩]

/-- The kind of the node for an operator. -/
def Operator.kind (op : Operator) : String :=
  if op.level == 1 then op.sign ++ "_modifier" else "binary"

/-- Signs that assign the result of an operator, longest first. -/
def assigningOperators : List String :=
  ["||=", "&&=", "**=", "<<=", ">>=", "+=", "-=", "*=", "/=", "%=", "|=", "&=", "^="]

/-- The sign of an assignment, if one comes next. -/
def assignmentSign? (cs : List Char) : Option String :=
  if startsAssignment cs then some "=" else firstOf assigningOperators cs

/-- The kinds of node that a value can be assigned to. -/
def targetKinds : List String :=
  ["identifier", "constant", "instance_variable", "class_variable", "global_variable", "self",
    "super", "nil", "true", "false", "call", "element_reference", "scope_resolution",
    "left_assignment_list", "destructured_left_assignment", "rest_assignment"]

/-- Whether a value can be assigned to a node. -/
def isTarget (n : Node) : Bool := targetKinds.contains n.kind

/-- A target of an assignment, which may take all that is left. -/
def target (ctx : Context) : Reading Node := do
  if ← isNext "*" then
    let mark ← token "*"
    let cs ← rest
    if !(wordAt cs).isEmpty || cs.head?.any "@$(".toList.contains then
      return Node.over "rest_assignment" [mark, ← nested ctx.operand operandLevel]
    else
      return Node.over "rest_assignment" [mark]
  else
    nested ctx.operand operandLevel

/-- The value behind a sign of assignment. A statement that fails may have a second value, and
several values make a list. -/
def assignedValue (ctx : Context) : Reading Node := do
  let first ←
    if ctx.lists && (← isNext "*") then marked ctx "splat_argument" "*" argumentLevel
    else nested ctx.assigned argumentLevel
  let cursor ← get
  let g ← gap
  if ctx.endsAt g then
    set cursor
    return first
  else if ctx.lists && (← isNext ",") then
    let comma ← token ","
    let before ← extras
    let others ← listed ctx fun _ => do
      if ← isNext "*" then marked ctx "splat_argument" "*" argumentLevel
      else nested ctx.operand argumentLevel
    return Node.over "right_assignment_list" (first :: g.extras ++ comma :: before ++ others)
  else if (← nextWord) == "rescue" then
    let word ← keyword "rescue"
    let before ← extras
    let value ← nested ctx.single argumentLevel
    return Node.over "rescue_modifier" (first :: g.extras ++ word :: before ++ [value])
  else
    set cursor
    return first

/-- The targets behind the first one and a comma. A last comma may stand. -/
def furtherTargets (ctx : Context) : Reading (List Node) := do
  repeatFrom [] fun parts => do
    let cursor ← get
    let g ← gap
    if ctx.endsAt g || !(← isNext ",") then
      set cursor
      return .done parts
    let comma ← token ","
    let parts := parts ++ g.extras ++ [comma]
    let cursor ← get
    let before ← extras
    let cs ← rest
    if startsAssignment cs || cs.head? == some ')' then
      set cursor
      return .more parts
    else
      return .more (parts ++ before ++ [← target ctx])

/-- What stands on the left of an assignment, with the assignment if it is one. -/
def assigned (ctx : Context) (left : Node) : Reading Node := do
  let cursor ← get
  let g ← gap
  let cs ← rest
  if ctx.endsAt g || !isTarget left then
    set cursor
    return left
  match assignmentSign? cs with
  | some sign =>
      let mark ← token sign
      let before ← extras
      let value ← assignedValue ctx
      let kind := if sign == "=" then "assignment" else "operator_assignment"
      return Node.over kind
        (left.playing "left" :: g.extras ++ mark :: before ++ [value.playing "right"])
  | none =>
      set cursor
      return left

/-- The first operand of a statement may be the first of several targets. -/
def assignedOrListed (ctx : Context) (left : Node) : Reading Node := do
  if !ctx.targets || !isTarget left then return ← assigned ctx left
  let others ← furtherTargets ctx
  if others.isEmpty && left.kind != "rest_assignment" then
    let n ← assigned ctx left
    guard (n.kind != "destructured_left_assignment" || ctx.grouped)
    return n
  let targets := Node.over "left_assignment_list" (left :: others)
  let n ← assigned ctx targets
  if n.kind == "left_assignment_list" then
    guard (ctx.grouped && (← lookahead do
      let _ ← gap
      isNext ")"))
  return n

/-- An operator in front of an operand. -/
def unary (ctx : Context) (mark : Node) (level : Nat) : Reading Node := do
  let before ← extras
  return Node.over "unary"
    (mark.playing "operator" :: before ++ [(← nested ctx.single level).playing "operand"])

/-- A range without a first value. -/
def beginless (ctx : Context) : Reading Node := do
  let mark ← rangeMark
  let before ← extras
  let last ← nested ctx.operand rangeLevel
  return Node.over "range" (mark.playing "operator" :: before ++ [last.playing "end"])

/-- Whether a number with a sign comes next. -/
def startsSignedNumber : List Char → Bool
  | '-' :: c :: _ => c.isDigit
  | '+' :: c :: _ => c.isDigit
  | _ => false

/-- A word in front of a condition. With parentheses it starts a chain like a call. -/
def wordUnary (ctx : Context) (word : String) (level : Nat) : Reading Node := do
  let mark ← token word
  let cursor ← get
  let before ← extras
  if ← isNext "(" then
    let start := Node.over "unary" (mark.playing "operator" :: before ++ [← parenthesized])
    repeatFrom { node := start } (linked ctx)
  else
    set cursor
    unary ctx mark level

/-- An operand with the operators in front of it, or an assignment. On the level of operands there
are no assignments. -/
def operand (ctx : Context) (level : Nat) : Reading Node := do
  let cs ← rest
  if startsSignedNumber cs then return ← chain ctx
  match cs with
  | '-' :: '>' :: _ => chain ctx
  | '-' :: _ => unary ctx.operand (← token "-") 75
  | '+' :: _ => unary ctx.operand (← token "+") 75
  | '!' :: _ => unary ctx (← token "!") 85
  | '~' :: _ => unary ctx.operand (← token "~") 85
  | '.' :: _ => beginless ctx
  | '*' :: _ =>
      guard ctx.targets
      assignedOrListed ctx (← target ctx)
  | _ =>
      match String.ofList (nameAt cs) with
      | "not" => wordUnary ctx "not" 5
      | "defined?" => wordUnary ctx "defined?" 10
      | _ =>
          let first ← chain ctx
          if level < operandLevel then assignedOrListed ctx first else return first

/-- A range with a first value, which may be without a last one. -/
def rangeFrom (ctx : Context) (first : Node) (before : List Node) : Reading Node := do
  let mark ← rangeMark
  let start := first.playing "begin" :: before ++ [mark.playing "operator"]
  let cursor ← get
  let g ← gap
  if !ctx.endsAt g && ctx.startsOperand (← rest) then
    let last ← nested ctx.operand rangeLevel
    return Node.over "range" (start ++ g.extras ++ [last.playing "end"])
  else
    set cursor
    return Node.over "range" start

/-- A choice between two values. -/
def choiceFrom (ctx : Context) (condition : Node) (before : List Node) : Reading Node := do
  let mark ← token "?"
  let afterMark ← extras
  let first ← nested { ctx.operand with lines := false } choiceLevel
  let between ← extras
  let colon ← token ":"
  let afterColon ← extras
  let second ← nested ctx.operand choiceLevel
  return Node.over "conditional"
    (condition :: before ++ mark :: afterMark ++ first :: between ++ colon :: afterColon ++
      [second])

/-- A pattern that a value is compared with. -/
def comparedWith (ctx : Context) (sign : String) (value : Node) (before : List Node) :
    Reading Node := do
  let mark ← token sign
  let between ← extras
  let pattern ← (← read).pattern { ctx with lists := true }
  return Node.over "match_pattern" (value :: before ++ mark :: between ++ [pattern])

/-- An operation with its right operand. -/
def operation (ctx : Context) (op : Operator) (left : Node) (before : List Node) :
    Reading Node := do
  let mark ← token op.sign
  let between ← extras
  let ctx := if op.level ≤ 2 then ctx.single else ctx.operand
  let right ← nested ctx op.rightLevel
  return Node.over op.kind
    (left.playing "left" :: before ++ mark.playing "operator" :: between ++ [right.playing "right"])

/-- The operator of at least a level that comes next. -/
def operatorAt? (level : Nat) (cs : List Char) : Option Operator :=
  let word := String.ofList (wordAt cs)
  let op :=
    if word.isEmpty then
      if (assignmentSign? cs).isSome then none
      else operators.find? fun op => op.sign.toList.isPrefixOf cs
    else wordOperators.find? (·.sign == word)
  op.filter (level ≤ ·.level)

/-- Go on with an expression of at least a level behind an operand. -/
def operated (ctx : Context) (level : Nat) (left : Node) : Reading (Round Node Node) := do
  let cursor ← get
  let g ← gap
  let cs ← rest
  let stop : Reading (Round Node Node) := do
    set cursor
    return .done left
  if ctx.endsAt g then return ← stop
  match operatorAt? level cs with
  | some op => return .more (← operation ctx op left g.extras)
  | none =>
      if level ≤ rangeLevel && "..".toList.isPrefixOf cs then
        return .more (← rangeFrom ctx left g.extras)
      else if level ≤ choiceLevel && cs.head? == some '?' then
        return .more (← choiceFrom ctx left g.extras)
      else if level ≤ 1 && "=>".toList.isPrefixOf cs then
        return .more (← comparedWith ctx "=>" left g.extras)
      else if level ≤ 2 && wordAt cs == "in".toList && !ctx.closers.contains "in" then
        return .more (← comparedWith ctx "in" left g.extras)
      else
        stop

/-- An expression whose operators are of at least a level. -/
def expression (ctx : Context) (level : Nat) : Reading Node := do
  repeatFrom (← operand ctx level) (operated ctx.single level)

end PeriodLint.Grammar
