import PeriodLint.Text.Blank

/-!
# Names and words

Any character that is no control, blank or mark may stand in a name, so names
of other scripts need no table. A word is reserved only where the program could
go on with it; elsewhere it is a name like any other.
-/

namespace PeriodLint.Grammar

/-- The marks of the grammar, which no name holds. -/
def marks : List Char := ":;\x60\"\x27@$#.,|^&<=>+-*/\\%?!~()[]\x7b\x7d".toList

/-- A blank between two words. The separators of files, groups, records and units are none. -/
def isSpace (c : Char) : Bool := Text.isBlank c && !(0x1C ≤ c.toNat && c.toNat ≤ 0x1F)

/-- A character of a name. -/
def isNameChar (c : Char) : Bool := 0x1F < c.toNat && !isSpace c && !marks.contains c

/-- The word that a text starts with, or the empty word. -/
def wordAt (cs : List Char) : List Char :=
  if cs.head?.any Char.isDigit then [] else cs.takeWhile isNameChar

/-- Whether a text goes on with a sign of equality that is no operator of two or more signs. -/
def startsAssignment : List Char → Bool
  | '=' :: '=' :: _ => false
  | '=' :: '~' :: _ => false
  | '=' :: '>' :: _ => false
  | '=' :: _ => true
  | _ => false

/-- The question or exclamation mark at the end of a name. One that is followed by an assignment
sign is an operator instead. -/
def nameMark : List Char → List Char
  | '?' :: cs => if startsAssignment cs then [] else ['?']
  | '!' :: '=' :: '>' :: _ => ['!']
  | '!' :: '=' :: _ => []
  | '!' :: '~' :: _ => []
  | '!' :: _ => ['!']
  | _ => []

/-- The name that a text starts with, with its mark. -/
def nameAt (cs : List Char) : List Char :=
  match wordAt cs with
  | [] => []
  | word => word ++ nameMark (cs.drop word.length)

/-- A name in front of a single colon, which labels a value. -/
def labelAt (cs : List Char) : List Char :=
  match nameAt cs with
  | [] => []
  | name =>
      match cs.drop name.length with
      | ':' :: ':' :: _ => []
      | ':' :: _ => name
      | _ => []

/-- Whether a name stands for a constant. -/
def isConstant (name : List Char) : Bool := name.head?.any Char.isUpper

/-- The operators that can be defined as methods, longest first. -/
def methodOperators : List String :=
  ["[]=", "<=>", "===", "[]", "**", "==", "=~", "!=", "!~", "<<", ">>", "<=", ">=", "+@", "-@",
    "~@", "!@", "+", "-", "*", "/", "%", "&", "|", "^", "<", ">", "!", "~", "\x60"]

/-- The first of several texts that a text starts with. -/
def firstOf (texts : List String) (cs : List Char) : Option String :=
  texts.find? fun t => t.toList.isPrefixOf cs

/-- Words that join or qualify what stands before them. -/
def joiningWords : List String :=
  ["and", "or", "if", "unless", "while", "until", "rescue", "do", "in"]

end PeriodLint.Grammar
