import PeriodLint.Grammar.Block

/-!
# Conditionals, loops and cases

Constructs that a word opens and another word ends.
-/

namespace PeriodLint.Grammar

/-- The expression that a construct depends on, up to a word that goes on with the construct. -/
def subject (closers : List String) : Reading (List Node) := do
  let before ← extras
  return before ++ [← nested (Context.body closers).single 1]

/-- The condition of a loop, up to the word before its statements. -/
def loopSubject : Reading (List Node) := do
  let before ← extras
  let ctx := { (Context.body ["do"]).single with doBlocks := false }
  return before ++ [← nested ctx 1]

/-- The alternatives of a conditional and the word that ends it. -/
def alternatives (closers : List String) (parts : List Node) : Reading (List Node) := do
  repeatFrom parts fun parts => do
    match ← nextWord with
    | "end" => return .done (parts ++ [← keyword "end"])
    | "elsif" =>
        let first ← keyword "elsif"
        let condition ← subject ["then"]
        let mark ← separator "then"
        let statements ← nestedBody closers
        return .more (parts ++ [Node.over "elsif" (first :: condition ++ mark ++ statements)])
    | word =>
        guard (word == "else")
        let first ← keyword word
        return .more (parts ++ [Node.over "else" (first :: (← nestedBody closers))])

/-- A conditional. -/
def conditional (word : String) : Reading Node := do
  let first ← keyword word
  let condition ← subject ["then"]
  let mark ← separator "then"
  let closers := ["elsif", "else", "end"]
  let statements ← nestedBody closers
  return Node.over word (← alternatives closers (first :: condition ++ mark ++ statements))

/-- Statements and the word that ends them. -/
def endedBody : Reading (List Node) := do
  let statements ← nestedBody ["end"]
  return statements ++ [← keyword "end"]

/-- A loop with a condition. -/
def conditionLoop (word : String) : Reading Node := do
  let first ← keyword word
  let condition ← loopSubject
  let mark ← separator "do"
  return Node.over word (first :: condition ++ mark ++ (← endedBody))

/-- A loop over values. -/
def valueLoop : Reading Node := do
  let first ← keyword "for"
  let before ← extras
  let ctx := { (Context.body ["in"]).operand with lines := false }
  let targets ← listed ctx fun _ => do
    if ← isNext "*" then marked ctx "splat_argument" "*" operandLevel
    else nested ctx operandLevel
  let between ← extras
  let link ← keyword "in"
  let values ← loopSubject
  let mark ← separator "do"
  return Node.over "for"
    (first :: before ++ targets ++ between ++ link :: values ++ mark ++ (← endedBody))

/-- Line breaks and semicolons between a heading and what follows. -/
def terminators : Reading (List Node) := do
  repeatFrom [] fun parts => do
    let before ← extras
    match ← token? ";" with
    | [] => return .done (parts ++ before)
    | mark => return .more (parts ++ before ++ mark)

/-- The words that end the statements of one case. -/
def caseWords : List String := ["when", "in", "else", "end"]

/-- A case that is chosen by one of several values. -/
def whenClause : Reading Node := do
  let first ← keyword "when"
  let before ← extras
  let ctx := (Context.body ["then"]).operand
  let values ← listed ctx fun _ => do
    if ← isNext "*" then marked ctx "splat_argument" "*" argumentLevel
    else nested ctx argumentLevel
  let mark ← separator "then"
  let statements ← nestedBody caseWords
  return Node.over "when" (first :: before ++ values ++ mark ++ statements)

/-- The condition behind a pattern, if there is one. -/
def patternGuard : Reading (List Node) := do
  let cursor ← get
  let g ← gap
  let word ← nextWord
  if !g.broken && (word == "if" || word == "unless") then
    return g.extras ++ [← keyword word] ++ (← subject ["then"])
  else
    set cursor
    return []

/-- A case that is chosen by a pattern. -/
def inClause : Reading Node := do
  let first ← keyword "in"
  let before ← extras
  let pattern ← (← read).pattern (Context.body ["then"])
  let condition ← patternGuard
  let mark ← separator "then"
  let statements ← nestedBody caseWords
  return Node.over "in_clause" (first :: before ++ pattern :: condition ++ mark ++ statements)

/-- A choice between cases. -/
def choice : Reading Node := do
  let first ← keyword "case"
  let before ← extras
  let value ←
    if caseWords.contains (← nextWord) || (← isNext ";") then pure []
    else pure [← nested (Context.body caseWords).single 1]
  let between ← terminators
  repeatFrom (first :: before ++ value ++ between) fun parts => do
    match ← nextWord with
    | "when" => return .more (parts ++ [← whenClause])
    | "in" => return .more (parts ++ [← inClause])
    | "end" => return .done (Node.over "case" (parts ++ [← keyword "end"]))
    | word =>
        guard (word == "else")
        let mark ← keyword word
        return .more (parts ++ [Node.over "else" (mark :: (← nestedBody caseWords))])

/-- Statements that are run once. -/
def once : Reading Node := do
  let first ← keyword "begin"
  return Node.over "begin" (first :: (← handledBody))

end PeriodLint.Grammar
