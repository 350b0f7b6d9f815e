import PeriodLint.Rule

/-!
# Settings

Settings are a table of named values. The tool reads texts, integers, truth
values, lists and tables. Values of the other types only need to be told apart,
so that a report can name the type that was found. There is no limit to the
digits of an integer or to the depth of lists and tables.
-/

namespace PeriodLint

/-- A value in a settings table. A table keeps its entries in document order. -/
inductive Setting where
  | null
  | bool (b : Bool)
  | int (n : Int)
  | float
  | str (s : String)
  | date
  | dateTime
  | time
  | list (items : List Setting)
  | table (entries : List (String × Setting))
  deriving Inhabited, Repr

/-- The entries of a settings table. -/
abbrev Table := List (String × Setting)

/-- Why settings cannot be used. Each cause names the type of the value that was found. -/
inductive SettingError where
  | notCollection (type : String)
  | notText (type : String)
  | notTable (type : String)
  | noEntries (type : String)
  deriving DecidableEq, Repr

/-- The words for a cause. -/
def SettingError.message : SettingError → String
  | notCollection type => s!"'{type}' object is not iterable"
  | notText type => s!"'{type}' object has no attribute 'upper'"
  | notTable type => s!"'{type}' object has no attribute 'items'"
  | noEntries type => s!"'{type}' object has no attribute 'get'"

namespace Setting

/-- The name of a value's type in reports. -/
def typeName : Setting → String
  | null => "NoneType"
  | bool _ => "bool"
  | int _ => "int"
  | float => "float"
  | str _ => "str"
  | date => "datetime.date"
  | dateTime => "datetime.datetime"
  | time => "datetime.time"
  | list _ => "list"
  | table _ => "dict"

/-- The value as an option of a rule. Only integers, truth values and texts are options. -/
def scalar? : Setting → Option Scalar
  | bool b => some (.bool b)
  | int n => some (.int n)
  | str s => some (.str s)
  | _ => none

/-- The members of a collection: the items of a list, the characters of a text or the keys of a
table. -/
def members : Setting → Except SettingError (List Setting)
  | list items => .ok items
  | str s => .ok (s.toList.map fun c => str (String.singleton c))
  | table entries => .ok (entries.map fun (key, _) => str key)
  | v => .error (.notCollection v.typeName)

/-- The upper case of a text. -/
def upperText : Setting → Except SettingError String
  | str s => .ok (Text.upper s)
  | v => .error (.notText v.typeName)

/-- The rule IDs that a collection of texts names. -/
def ruleIds (v : Setting) : Except SettingError (List String) := do
  (← v.members).mapM upperText

/-- The options among the entries of a table. -/
def optionsOf (entries : Table) : Options :=
  entries.filterMap fun (name, value) => value.scalar?.map (name, ·)

end Setting

end PeriodLint
