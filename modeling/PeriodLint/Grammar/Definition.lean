import PeriodLint.Grammar.Compound

/-!
# Definitions

Methods, classes and modules, and the statements that rename or remove methods.
-/

namespace PeriodLint.Grammar

/-- The length of the name of a method to define. A name with an assignment sign is a setter. -/
def definedNameLength? (cs : List Char) : Option Nat :=
  match nameAt cs with
  | [] => (firstOf methodOperators cs).map String.length
  | name => some (name.length + if startsAssignment (cs.drop name.length) then 1 else 0)

/-- The name of a method to define. -/
def definedName : Reading Node := do leaf "identifier" (← definedNameLength? (← rest))

/-- The object that a method is defined for, and the operator behind it. -/
def definedOwner : Reading (List Node) := do
  let owner ← match ← rest with
    | '(' :: _ =>
        let element (_ : Bool) : Reading Node := nested Context.element elementLevel
        bracketed "parenthesized_statements" "(" ")" element
    | cs => match variableLength? cs, wordAt cs with
      | some count, _ => leaf (variableKind cs) count
      | none, [] => failure
      | none, word => leaf (if isConstant word then "constant" else "identifier") word.length
  let before ← extras
  let mark ← token "." <|> token "::"
  return owner :: before ++ mark :: (← extras)

/-- The parameters of a method, if there are any. -/
def definedParameters : Reading (List Node) := do
  let cursor ← get
  let g ← gap
  if ← isNext "(" then
    return g.extras ++ [← parenthesizedParameters "method_parameters" [","]]
  else if !g.crossed && startsParameter (← rest) then
    return g.extras ++ (← parameterList elementLevel [","])
  else
    set cursor
    return []

/-- A method whose body is one expression or ends with a word. -/
def method (ctx : Context) : Reading Node := do
  let first ← keyword "def"
  let before ← extras
  let owner ← definedOwner <|> pure []
  let name ← definedName
  let heading := first :: before ++ owner ++ [name.playing "name"]
  let parameters ← definedParameters
  let cursor ← get
  let g ← gap
  if !ctx.endsAt g && startsAssignment (← rest) then
    let sign ← token "="
    let between ← extras
    let value ← nested { ctx.single with commands := true } argumentLevel
    return Node.over "method" (heading ++ parameters ++ g.extras ++ sign :: between ++ [value])
  else
    set cursor
    return Node.over "method" (heading ++ parameters ++ (← handledBody))

/-- The class that another one extends. -/
def superclass : Reading (List Node) := do
  let cursor ← get
  let g ← gap
  if !g.broken && (← isNext "<") then
    let mark ← token "<"
    let before ← extras
    let value ← nested (Context.body []).single argumentLevel
    return g.extras ++ [Node.over "superclass" (mark :: before ++ [value])]
  else
    set cursor
    return []

/-- The name of a class or a module, with the names of its scopes. -/
def definedConstant : Reading Node := do
  let name ← nested (Context.body []).operand operandLevel
  guard (name.kind == "constant" || name.kind == "scope_resolution")
  return name.playing "name"

/-- A class, or the methods of a single object. -/
def classDefinition : Reading Node := do
  let first ← keyword "class"
  let before ← extras
  if ← isNext "<<" then
    let mark ← token "<<"
    let between ← extras
    let value ← nested (Context.body []).single argumentLevel
    return Node.over "singleton_class"
      (first :: before ++ mark :: between ++ value :: (← handledBody))
  else
    let name ← definedConstant
    let parent ← superclass
    return Node.over "class" (first :: before ++ name :: parent ++ (← handledBody))

/-- A module. -/
def moduleDefinition : Reading Node := do
  let first ← keyword "module"
  let before ← extras
  let name ← definedConstant
  return Node.over "module" (first :: before ++ name :: (← handledBody))

/-- A method that is named by its bare name, a symbol or a variable with a mark. -/
def methodReference : Reading Node := do
  match ← rest with
  | ':' :: _ => symbol
  | '$' :: _ => markedVariable
  | _ => definedName

/-- A second name for a method. -/
def aliasStatement : Reading Node := do
  let first ← keyword "alias"
  let before ← extras
  let name ← methodReference
  let between ← extras
  return Node.over "alias" (first :: before ++ name :: between ++ [← methodReference])

/-- Methods to remove. -/
def undefStatement : Reading Node := do
  let first ← keyword "undef"
  let before ← extras
  let names ← listed (Context.body []) fun _ => methodReference
  return Node.over "undef" (first :: before ++ names)

/-- Statements to run at the start or at the end of the program. -/
def programHook (word kind : String) : Reading Node := do
  let first ← keyword word
  let before ← extras
  let mark ← token "\x7b"
  let statements ← nestedBody []
  return Node.over kind (first :: before ++ mark :: statements ++ [← token "\x7d"])

end PeriodLint.Grammar
