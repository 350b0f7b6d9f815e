import PeriodLint.Settings.Value

/-!
# Configuration

A configuration says which rules run and with which options. It is read from a
settings table, whose rule IDs may be in any letter case. A rule runs when the
selection is absent or holds it and it is not ignored.
-/

namespace PeriodLint

/-- Which rules run, and their options. Without a selection every rule is selected. -/
structure Config where
  select : Option (List String) := none
  ignore : List String := []
  ruleOptions : List (String × Options) := []
  deriving Repr

namespace Config

/-- Whether a rule is to run. -/
def isEnabled (c : Config) (ruleId : String) : Bool :=
  (match c.select with
    | none => true
    | some ids => ids.contains ruleId) && !c.ignore.contains ruleId

/-- The options of a rule. -/
def optionsFor (c : Config) (ruleId : String) : Options :=
  (c.ruleOptions.lookup ruleId).getD []

/-- Give a rule its options. A rule has the options that it was given last. -/
def setOptions (all : List (String × Options)) (ruleId : String) (options : Options) :
    List (String × Options) :=
  all.filter (·.1 != ruleId) ++ [(ruleId, options)]

/-- The options in the entries of the table of rules. Entries that are no tables are passed
over. -/
def optionsOfRules (rules : Table) : List (String × Options) :=
  rules.foldl (fun all (ruleId, value) =>
    match value with
    | .table entries => setOptions all (Text.upper ruleId) (Setting.optionsOf entries)
    | _ => all) []

/-- The selection of a settings table. A null value counts as absent. -/
def selectOf (settings : Table) : Except SettingError (Option (List String)) :=
  match settings.lookup "select" with
  | none => .ok none
  | some .null => .ok none
  | some v => v.ruleIds.map some

/-- The ignored rules of a settings table. -/
def ignoreOf (settings : Table) : Except SettingError (List String) :=
  match settings.lookup "ignore" with
  | none => .ok []
  | some v => v.ruleIds

/-- The rule options of a settings table. -/
def rulesOf (settings : Table) : Except SettingError (List (String × Options)) :=
  match settings.lookup "rules" with
  | none => .ok []
  | some (.table rules) => .ok (optionsOfRules rules)
  | some v => .error (.notTable v.typeName)

/-- The configuration in a settings table. Of several unusable settings the selection is reported
before the ignored rules, and these before the rule options. -/
def ofTable (settings : Table) : Except SettingError Config := do
  let select ← selectOf settings
  let ignore ← ignoreOf settings
  let ruleOptions ← rulesOf settings
  return { select, ignore, ruleOptions }

/-- The configuration in any value, which must be a table. -/
def ofSetting : Setting → Except SettingError Config
  | .table settings => ofTable settings
  | v => .error (.noEntries v.typeName)

/-- A rule as it is configured. Without options a rule is left as it is. -/
def configureRule (c : Config) (rule : Rule) : Logged Rule :=
  match c.optionsFor rule.id with
  | [] => pure rule
  | options => rule.configure options

theorem configureRule_eq (c : Config) (rule : Rule) :
    c.configureRule rule =
      if c.optionsFor rule.id = [] then pure rule else rule.configure (c.optionsFor rule.id) := by
  rw [configureRule]
  split
  · next hnone => rw [if_pos hnone]
  · next hsome => rw [if_neg hsome]

/-- The rules that are to run, in their order and with their options applied. -/
def activeRules (c : Config) (rules : List Rule) : Logged (List Rule) :=
  (rules.filter fun rule => c.isEnabled rule.id).mapM (configureRule c)

end Config

end PeriodLint
