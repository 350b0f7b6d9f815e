import PeriodLint.Grammar.Literal

/-!
# What can open an operand

An open range needs to know whether an operand follows, and a call without
parentheses whether an argument does. After a method name many marks could
also be operators: they open an argument when a blank stands before them and
none behind them.
-/

namespace PeriodLint.Grammar

/-- Whether a word can open an operand. -/
def Context.opensOperand (ctx : Context) (word : String) : Bool :=
  !ctx.closers.contains word && !joiningWords.contains word

/-- Whether no blank comes next. -/
def touches (cs : List Char) : Bool := cs.head?.any fun c => !isSpace c

/-- Whether a mark stands close to an operand, and no assignment sign follows. -/
def clings : List Char → Bool
  | '=' :: _ => false
  | cs => touches cs

/-- Whether an operand may follow. -/
def Context.startsOperand (ctx : Context) (cs : List Char) : Bool :=
  match wordAt cs with
  | [] =>
      match cs with
      | [] => false
      | ':' :: ':' :: cs => touches cs
      | ':' :: _ => startsSymbol cs
      | '<' :: _ => (heredocAt? cs).isSome
      | '%' :: _ => (percentOpening? cs).isSome
      | '?' :: _ => (characterLength? cs).isSome
      | '/' :: cs => clings cs
      | '!' :: '=' :: _ => false
      | '!' :: '~' :: _ => false
      | '=' :: _ => false
      | c :: _ => c.isDigit || "\"\x27\x60@$[(\x7b-+!~".contains c
  | word => ctx.opensOperand (String.ofList word) || !(labelAt cs).isEmpty

/-- Whether an argument may follow a method name and a blank. -/
def Context.startsArgument (ctx : Context) (cs : List Char) : Bool :=
  match cs with
  | '\x7b' :: _ => false
  | '+' :: _ => false
  | '-' :: '>' :: _ => true
  | '-' :: cs => clings cs
  | '*' :: '*' :: cs => clings cs
  | '*' :: cs => clings cs
  | '&' :: '&' :: _ => false
  | '&' :: '.' :: _ => false
  | '&' :: cs => clings cs
  | '%' :: '=' :: _ => false
  | '%' :: c :: _ => !isSpace c && ctx.startsOperand cs
  | _ => ctx.startsOperand cs

end PeriodLint.Grammar
