import PeriodLint.Proofs.Edit.Resolution
import PeriodLint.Proofs.Settings.Loading
import PeriodLint.Proofs.Text.Classes

/-!
# Rules that a table chooses

A settings table names rules in any letter case. Of the rules of a registry those
run, in the order of the registry, that are selected and not ignored. The last
of the tables that name a rule holds its options, and these are the entries of
the table that are integers, truth values or texts.
-/

namespace PeriodLint

/-- The value in a table that a value of an option is read from. -/
def Scalar.setting : Scalar → Setting
  | int n => .int n
  | bool b => .bool b
  | str s => .str s

/-- An option of a rule as the entry of a table. -/
def Scalar.entry (option : String × Scalar) : String × Setting := (option.1, option.2.setting)

theorem Scalar.entry_injective : Function.Injective Scalar.entry := by
  rintro ⟨name, s⟩ ⟨name', s'⟩ h
  obtain ⟨rfl, hsetting⟩ := Prod.mk.inj h
  cases s <;> cases s' <;> cases hsetting <;> rfl

namespace Setting

/-- Whether a value is an integer, a truth value or a text. -/
def isScalar : Setting → Bool
  | int _ => true
  | bool _ => true
  | str _ => true
  | _ => false

theorem setting_of_scalar? {v : Setting} {s : Scalar} (h : v.scalar? = some s) :
    s.setting = v := by
  cases v <;> cases h <;> rfl

theorem isSome_scalar? (v : Setting) : v.scalar?.isSome = v.isScalar := by
  cases v <;> rfl

/-- The options of a table are exactly its entries that are scalars, in their order. -/
theorem map_entry_optionsOf (entries : Table) :
    (optionsOf entries).map Scalar.entry = entries.filter (·.2.isScalar) := by
  induction entries with
  | nil => rfl
  | cons entry entries ih =>
      obtain ⟨name, v⟩ := entry
      rw [optionsOf, List.filter_cons, ← isSome_scalar?]
      cases hv : v.scalar? with
      | none =>
          rw [List.filterMap_cons_none (by simp [hv])]
          exact ih
      | some s =>
          rw [List.filterMap_cons_some (by simp [hv]; rfl), List.map_cons, Scalar.entry,
            setting_of_scalar? hv]
          exact congrArg ((name, v) :: ·) ih

theorem IsTextList.exists_eq_map {v : Setting} (h : v.IsTextList) :
    ∃ texts : List String, v = .list (texts.map .str) := by
  obtain ⟨items, rfl, hitems⟩ := h
  choose! text htext using hitems
  refine ⟨items.map text, congrArg list ?_⟩
  rw [List.map_map]
  exact (List.map_id items).symm.trans (List.map_congr_left htext)

/-- A list of texts names the rules whose IDs are the upper cases of the texts. -/
theorem ruleIds_list (texts : List String) :
    ruleIds (.list (texts.map .str)) = .ok (texts.map Text.upper) := by
  rw [ruleIds]
  change (texts.map str).mapM upperText = _
  rw [List.mapM_map]
  exact mapM_eq_ok fun text _ => rfl

end Setting

namespace Config

/-! ## What a table says -/

/-- The list of texts at a key of a settings table has one whose upper case is an ID. -/
def IsNamedAt (settings : Table) (key id : String) : Prop :=
  ∃ texts : List String, settings.lookup key = some (.list (texts.map .str)) ∧
    ∃ text ∈ texts, Text.upper text = id

/-- A rule is selected, or nothing is, and it is not ignored. -/
def Runs (settings : Table) (id : String) : Prop :=
  (settings.lookup "select" = none ∨ IsNamedAt settings "select" id) ∧
    ¬ IsNamedAt settings "ignore" id

/-- The tables among the rules whose keys name a rule, in document order. -/
def tablesFor (rules : Table) (id : String) : List Table :=
  rules.filterMap fun (key, value) =>
    match value with
    | .table entries => if Text.upper key = id then some entries else none
    | _ => none

/-- The table that holds the options of a rule, which is the last one that names it. -/
def tableFor (settings : Table) (id : String) : Table :=
  match settings.lookup "rules" with
  | some (.table rules) => (tablesFor rules id).getLast?.getD []
  | _ => []

/-- Values that name the same rules in the same order, in any letter case. -/
inductive NameAlike : Option Setting → Option Setting → Prop where
  | absent : NameAlike none none
  | listed {texts texts' : List String}
      (h : List.Forall₂ (fun a b => Text.upper a = Text.upper b) texts texts') :
      NameAlike (some (.list (texts.map .str))) (some (.list (texts'.map .str)))

/-- Tables of rules that differ at most in the letter case of the keys. -/
inductive HoldAlike : Option Setting → Option Setting → Prop where
  | absent : HoldAlike none none
  | table {rules rules' : Table}
      (h : List.Forall₂ (fun a b => Text.upper a.1 = Text.upper b.1 ∧ a.2 = b.2) rules rules') :
      HoldAlike (some (.table rules)) (some (.table rules'))

/-- Settings tables that differ at most in the letter case of the IDs of rules. -/
structure SpelledAlike (settings settings' : Table) : Prop where
  select : NameAlike (settings.lookup "select") (settings'.lookup "select")
  ignore : NameAlike (settings.lookup "ignore") (settings'.lookup "ignore")
  rules : HoldAlike (settings.lookup "rules") (settings'.lookup "rules")

section Parts

variable {settings settings' rules rules' : Table} {id : String} {texts : List String}

theorem isNamedAt_of_lookup {key : String}
    (h : settings.lookup key = some (.list (texts.map .str))) :
    IsNamedAt settings key id ↔ id ∈ texts.map Text.upper := by
  rw [List.mem_map]
  constructor
  · rintro ⟨others, hothers, hid⟩
    have hlists : texts.map Setting.str = others.map Setting.str :=
      Setting.list.inj (Option.some.inj (h.symm.trans hothers))
    rwa [List.map_injective_iff.mpr (fun _ _ => Setting.str.inj) hlists]
  · intro hid
    exact ⟨texts, h, hid⟩

theorem not_isNamedAt_of_lookup_eq_none {key : String} (h : settings.lookup key = none) :
    ¬ IsNamedAt settings key id := by
  rintro ⟨texts, htexts, -⟩
  rw [h] at htexts
  cases htexts

/-! ## The selection and the ignored rules -/

theorem exists_selectOf (h : ∀ v, settings.lookup "select" = some v → v.IsTextList) :
    ∃ select, selectOf settings = .ok select ∧
      ∀ id, (∀ ids, select = some ids → id ∈ ids) ↔
        settings.lookup "select" = none ∨ IsNamedAt settings "select" id := by
  rw [selectOf]
  cases hselect : settings.lookup "select" with
  | none => exact ⟨none, rfl, fun id => by simp⟩
  | some v =>
      obtain ⟨texts, rfl⟩ := (h v hselect).exists_eq_map
      refine ⟨some (texts.map Text.upper), ?_, fun id => ?_⟩
      · simp only [Setting.ruleIds_list]
        rfl
      · simp [isNamedAt_of_lookup hselect]

theorem exists_ignoreOf (h : ∀ v, settings.lookup "ignore" = some v → v.IsTextList) :
    ∃ ignore, ignoreOf settings = .ok ignore ∧
      ∀ id, id ∈ ignore ↔ IsNamedAt settings "ignore" id := by
  rw [ignoreOf]
  cases hignore : settings.lookup "ignore" with
  | none =>
      exact ⟨[], rfl, fun id => by simp [not_isNamedAt_of_lookup_eq_none hignore]⟩
  | some v =>
      obtain ⟨texts, rfl⟩ := (h v hignore).exists_eq_map
      exact ⟨_, Setting.ruleIds_list texts, fun id => (isNamedAt_of_lookup hignore).symm⟩

theorem ruleIds_congr {texts texts' : List String}
    (h : List.Forall₂ (fun a b => Text.upper a = Text.upper b) texts texts') :
    Setting.ruleIds (.list (texts'.map .str)) = Setting.ruleIds (.list (texts.map .str)) := by
  have hupper : texts.map Text.upper = texts'.map Text.upper := by
    rw [← List.forall₂_eq_eq_eq, List.forall₂_map_left_iff, List.forall₂_map_right_iff]
    exact h
  rw [Setting.ruleIds_list, Setting.ruleIds_list, hupper]

theorem NameAlike.selectOf_eq
    (h : NameAlike (settings.lookup "select") (settings'.lookup "select")) :
    selectOf settings' = selectOf settings := by
  rw [selectOf, selectOf]
  generalize settings.lookup "select" = v at h
  generalize settings'.lookup "select" = v' at h
  cases h with
  | absent => rfl
  | listed h => exact congrArg (Except.map some) (ruleIds_congr h)

theorem NameAlike.ignoreOf_eq
    (h : NameAlike (settings.lookup "ignore") (settings'.lookup "ignore")) :
    ignoreOf settings' = ignoreOf settings := by
  rw [ignoreOf, ignoreOf]
  generalize settings.lookup "ignore" = v at h
  generalize settings'.lookup "ignore" = v' at h
  cases h with
  | absent => rfl
  | listed h => exact ruleIds_congr h

/-! ## The options -/

theorem lookup_setOptions (all : List (String × Options)) (ruleId other : String)
    (options : Options) :
    (setOptions all ruleId options).lookup other =
      if ruleId = other then some options else all.lookup other :=
  lookup_filter_bne_append all ruleId other options

theorem tablesFor_append (rules rules' : Table) (id : String) :
    tablesFor (rules ++ rules') id = tablesFor rules id ++ tablesFor rules' id :=
  List.filterMap_append

/-- Of the tables that name a rule the last one gives the options. -/
theorem lookup_optionsOfRules (rules : Table) (id : String) :
    (optionsOfRules rules).lookup id = (tablesFor rules id).getLast?.map Setting.optionsOf := by
  -- What has been read of the rules so far is told from the left, the last table from the right.
  induction rules using List.reverseRecOn with
  | nil => rfl
  | append_singleton rules entry ih =>
      obtain ⟨key, value⟩ := entry
      rw [optionsOfRules] at ih ⊢
      rw [List.foldl_append, tablesFor_append, List.getLast?_append, Option.map_or, ← ih]
      cases value with
      | table entries =>
          rw [List.foldl_cons, List.foldl_nil, lookup_setOptions]
          by_cases hkey : Text.upper key = id
          · simp [tablesFor, hkey]
          · simp [tablesFor, hkey]
      | _ => rfl

theorem tableFor_of_lookup (h : settings.lookup "rules" = some (.table rules)) :
    tableFor settings id = (tablesFor rules id).getLast?.getD [] := by
  rw [tableFor, h]

theorem exists_rulesOf
    (h : ∀ v, settings.lookup "rules" = some v → ∃ entries, v = .table entries) :
    ∃ all, rulesOf settings = .ok all ∧
      ∀ id, (all.lookup id).getD [] = Setting.optionsOf (tableFor settings id) := by
  rw [rulesOf]
  cases hrules : settings.lookup "rules" with
  | none => exact ⟨[], rfl, fun id => by rw [tableFor, hrules]; rfl⟩
  | some v =>
      obtain ⟨rules, rfl⟩ := h v hrules
      refine ⟨optionsOfRules rules, rfl, fun id => ?_⟩
      rw [lookup_optionsOfRules, tableFor_of_lookup hrules]
      cases (tablesFor rules id).getLast? <;> rfl

theorem optionsOfRules_congr
    (h : List.Forall₂ (fun a b => Text.upper a.1 = Text.upper b.1 ∧ a.2 = b.2) rules rules') :
    optionsOfRules rules' = optionsOfRules rules := by
  rw [optionsOfRules, optionsOfRules]
  generalize ([] : List (String × Options)) = all
  induction h generalizing all with
  | nil => rfl
  | @cons entry entry' rules rules' hentry _ ih =>
      obtain ⟨key, value⟩ := entry
      obtain ⟨key', value'⟩ := entry'
      obtain ⟨hkey, rfl⟩ := hentry
      rw [List.foldl_cons, List.foldl_cons, ih]
      simp only [hkey]

theorem HoldAlike.rulesOf_eq
    (h : HoldAlike (settings.lookup "rules") (settings'.lookup "rules")) :
    rulesOf settings' = rulesOf settings := by
  rw [rulesOf, rulesOf]
  generalize settings.lookup "rules" = v at h
  generalize settings'.lookup "rules" = v' at h
  cases h with
  | absent => rfl
  | table h => exact congrArg Except.ok (optionsOfRules_congr h)

/-! ## The configuration -/

/-- Settings of the right type come to a configuration that says what the table says. -/
theorem exists_ofTable (h : AreTyped settings) :
    ∃ c, ofTable settings = .ok c ∧ (∀ id, c.isEnabled id = true ↔ Runs settings id) ∧
      ∀ id, c.optionsFor id = Setting.optionsOf (tableFor settings id) := by
  obtain ⟨select, hselect, hselected⟩ := exists_selectOf h.select
  obtain ⟨ignore, hignore, hignored⟩ := exists_ignoreOf h.ignore
  obtain ⟨all, hall, hoptions⟩ := exists_rulesOf h.rules
  refine ⟨⟨select, ignore, all⟩, ?_, fun id => ?_, hoptions⟩
  · rw [ofTable, hselect, hignore, hall]
    rfl
  · rw [Runs, ← hselected, ← hignored]
    cases select <;> simp [isEnabled]

/-- The letter case of IDs makes no difference to a configuration. -/
theorem SpelledAlike.ofTable_eq (h : SpelledAlike settings settings') :
    ofTable settings' = ofTable settings := by
  rw [ofTable, ofTable, h.select.selectOf_eq, h.ignore.ignoreOf_eq, h.rules.rulesOf_eq]

end Parts

/-! ## Active rules -/

open Classical in
/-- A settings table with settings of the right type comes to a configuration, whose options for a
rule are exactly the scalars of the last table that names it. The active rules are those of the
registry that are selected, or all of them without a selection, and not ignored, in their order.
Each is configured with its options, and left as it is without any. No ignored rule is enabled, and
the letter case of the IDs in the table makes no difference, so that a rule whose ID is in upper
case is named by its ID in any case. -/
theorem table_chooses_rules {settings : Table} (htyped : AreTyped settings)
    (registry : List Rule) :
    ∃ c, ofTable settings = .ok c ∧
      (∀ id, (c.optionsFor id).map Scalar.entry = (tableFor settings id).filter (·.2.isScalar)) ∧
      (c.activeRules registry =
        (registry.filter fun rule => Runs settings rule.id).mapM fun rule =>
          if c.optionsFor rule.id = [] then pure rule else rule.configure (c.optionsFor rule.id)) ∧
      (∀ id, IsNamedAt settings "ignore" id → c.isEnabled id = false) ∧
      (∀ settings', SpelledAlike settings settings' → ofTable settings' = .ok c) ∧
      ∀ rule ∈ registry, Text.upper rule.id = rule.id →
        ∀ text, Text.asciiLower text = Text.asciiLower rule.id → Text.upper text = rule.id := by
  obtain ⟨c, hc, henabled, hoptions⟩ := exists_ofTable htyped
  have hfilter : registry.filter (fun rule => c.isEnabled rule.id) =
      registry.filter fun rule => Runs settings rule.id :=
    List.filter_congr fun rule _ => by rw [Bool.eq_iff_iff, henabled, decide_eq_true_iff]
  refine ⟨c, hc, fun id => ?_, ?_, fun id hignored => ?_,
    fun settings' halike => halike.ofTable_eq.trans hc, fun rule _ hupper text htext => ?_⟩
  · rw [hoptions, Setting.map_entry_optionsOf]
  · rw [activeRules, hfilter, funext c.configureRule_eq]
  · rw [Bool.eq_false_iff]
    intro hrun
    exact ((henabled id).mp hrun).2 hignored
  · rw [← Text.upper_asciiLower, htext, Text.upper_asciiLower, hupper]

/-! ## IDs in several cases -/

/-- A rule that reports its options. -/
def showing (id : String) (options : Options) : Rule :=
  .custom id (shown id options) fun given => pure (id, shown id given)
where
  shown (id : String) (options : Options) : Report := fun _ _ =>
    options.map fun (name, value) => ⟨id, s!"{name} = {value.shown}", .hint, ⟨1, 0, 1, 0⟩, none⟩

/-- Two tables for a rule, an entry that is none, and a table for another rule. -/
def mixedRules (key : String) : Table :=
  [("DTR001", .table [("severity", .str "error")]),
    (key, .table [("level", .float), ("severity", .str "hint"), ("depth", .int 3)]),
    ("Dtr001", .bool true),
    ("Len1", .table [("most", .int 80), ("words", .list []), ("strict", .bool true)])]

/-- Settings that select three rules and ignore one of them. -/
def mixedSettings (select ignore key : String) : Table :=
  [("select", .list [.str select, .str "Oth001", .str "Len1"]),
    ("ignore", .list [.str ignore]),
    ("rules", .table (mixedRules key))]

section Mixed

theorem areTyped_mixedSettings (select ignore key : String) :
    AreTyped (mixedSettings select ignore key) := by
  refine ⟨?_, ?_, ?_⟩
  · rintro v ⟨⟩
    exact ⟨_, rfl, by simp⟩
  · rintro v ⟨⟩
    exact ⟨_, rfl, by simp⟩
  · rintro v ⟨⟩
    exact ⟨_, rfl⟩

theorem spelledAlike_mixedSettings :
    SpelledAlike (mixedSettings "dtr001" "oth001" "dtR001")
      (mixedSettings "DTR001" "OTH001" "DTR001") where
  select := @NameAlike.listed ["dtr001", "Oth001", "Len1"] ["DTR001", "Oth001", "Len1"]
    (.cons (by decide +kernel) (.cons rfl (.cons rfl .nil)))
  ignore := @NameAlike.listed ["oth001"] ["OTH001"] (.cons (by decide +kernel) .nil)
  rules := .table (.cons ⟨rfl, rfl⟩ (.cons ⟨by decide +kernel, rfl⟩
    (.cons ⟨rfl, rfl⟩ (.cons ⟨rfl, rfl⟩ .nil))))

theorem runs_mixedSettings_iff (select ignore key id : String) :
    Runs (mixedSettings select ignore key) id ↔
      id ∈ [select, "Oth001", "Len1"].map Text.upper ∧ id ∉ [ignore].map Text.upper := by
  have hselect : IsNamedAt (mixedSettings select ignore key) "select" id ↔
      id ∈ [select, "Oth001", "Len1"].map Text.upper :=
    isNamedAt_of_lookup rfl
  have hignore : IsNamedAt (mixedSettings select ignore key) "ignore" id ↔
      id ∈ [ignore].map Text.upper :=
    isNamedAt_of_lookup rfl
  rw [Runs, hselect, hignore, or_iff_right (by simp [mixedSettings])]

theorem tablesFor_mixedRules {key : String} (hkey : Text.upper key = "DTR001") :
    tablesFor (mixedRules key) "DTR001" =
        [[("severity", .str "error")],
          [("level", .float), ("severity", .str "hint"), ("depth", .int 3)]] ∧
      tablesFor (mixedRules key) "LEN1" =
        [[("most", .int 80), ("words", .list []), ("strict", .bool true)]] := by
  have hday : Text.upper "DTR001" = "DTR001" := by decide +kernel
  have hlength : Text.upper "Len1" = "LEN1" := by decide +kernel
  simp [tablesFor, mixedRules, hkey, hday, hlength]

/-- The options of two rules, of which the first has two tables. -/
theorem optionsFor_mixedSettings {select ignore key : String} {c : Config}
    (hkey : Text.upper key = "DTR001")
    (h : ∀ id, (c.optionsFor id).map Scalar.entry =
      (tableFor (mixedSettings select ignore key) id).filter (·.2.isScalar)) :
    c.optionsFor "DTR001" = [("severity", .str "hint"), ("depth", .int 3)] ∧
      c.optionsFor "LEN1" = [("most", .int 80), ("strict", .bool true)] := by
  obtain ⟨hday, hlength⟩ := tablesFor_mixedRules hkey
  have hentries := List.map_injective_iff.mpr Scalar.entry_injective
  constructor
  · refine hentries ((h "DTR001").trans ?_)
    rw [tableFor_of_lookup rfl, hday]
    rfl
  · refine hentries ((h "LEN1").trans ?_)
    rw [tableFor_of_lookup rfl, hlength]
    rfl

end Mixed

open Classical in
/-- The last table that names a rule configures it, and what is ignored does not run. -/
theorem table_chooses_rules_mixed :
    let settings := mixedSettings "dtr001" "oth001" "dtR001"
    let settings' := mixedSettings "DTR001" "OTH001" "DTR001"
    let registry := [showing "OTH001" [], showing "LEN1" [], .wholePeriod .warning]
    AreTyped settings ∧ SpelledAlike settings settings' ∧
      ∃ c, ofTable settings = .ok c ∧ ofTable settings' = .ok c ∧
        c.activeRules registry =
          ⟨[showing "LEN1" [("most", .int 80), ("strict", .bool true)], .wholePeriod .hint], []⟩ := by
  intro settings settings' registry
  have htyped : AreTyped settings := areTyped_mixedSettings ..
  obtain ⟨c, hc, hoptions, hactive, -, hcase, -⟩ := table_chooses_rules htyped registry
  refine ⟨htyped, spelledAlike_mixedSettings, c, hc, hcase settings' spelledAlike_mixedSettings, ?_⟩
  have hother : ¬ Runs settings "OTH001" := mt (runs_mixedSettings_iff ..).mp (by decide +kernel)
  have hlength : Runs settings "LEN1" := (runs_mixedSettings_iff ..).mpr (by decide +kernel)
  have hday : Runs settings "DTR001" := (runs_mixedSettings_iff ..).mpr (by decide +kernel)
  have hkept : registry.filter (fun rule => Runs settings rule.id) =
      [showing "LEN1" [], .wholePeriod .warning] := by
    simp [registry, Rule.id, showing, Rule.wholePeriodId, hother, hlength, hday]
  obtain ⟨hhint, hmost⟩ := optionsFor_mixedSettings (by decide +kernel) hoptions
  rw [hactive, hkept, List.mapM_cons, List.mapM_cons, List.mapM_nil]
  simp only [Rule.id, showing, Rule.wholePeriodId, hhint, hmost]
  rfl

end Config

end PeriodLint
