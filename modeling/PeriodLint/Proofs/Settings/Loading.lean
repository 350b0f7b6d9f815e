import Mathlib
import PeriodLint.Proofs.Results
import PeriodLint.Proofs.Files.Shape
import PeriodLint.Proofs.Text.Encoding

/-!
# Loading settings

What a configuration file has to hold for its settings to be used, and what
loading comes to otherwise. A file that cannot be opened, and a text that is no
document, count as absent and are noted. Bytes that are no text and settings of
the wrong type are neither: they end loading, or they are used as if they had
the right type.
-/

namespace PeriodLint

open Utf8

theorem Failure.exists_lift_eq_ok_iff {ε α : Type} {wrap : ε → Failure} {x : Except ε α} :
    (∃ a, Failure.lift wrap x = .ok a) ↔ ∃ a, x = .ok a := by
  cases x with
  | error e => simp [Failure.lift]
  | ok a => simp [Failure.lift]

/-! ## Values that name rules -/

namespace Setting

/-- A list of texts. -/
def IsTextList (v : Setting) : Prop := ∃ items, v = .list items ∧ ∀ item ∈ items, ∃ s, item = .str s

/-- A value whose members are texts. Those of a text are its characters and those of a table its
keys, so that such values pass for lists of texts. -/
inductive YieldsTexts : Setting → Prop where
  | list {items : List Setting} (h : ∀ item ∈ items, ∃ s, item = .str s) : YieldsTexts (.list items)
  | str (s : String) : YieldsTexts (.str s)
  | table (entries : Table) : YieldsTexts (.table entries)

theorem IsTextList.yieldsTexts {v : Setting} (h : v.IsTextList) : v.YieldsTexts := by
  obtain ⟨items, rfl, hitems⟩ := h
  exact .list hitems

theorem exists_upperText_iff {v : Setting} :
    (∃ text, v.upperText = .ok text) ↔ ∃ s, v = .str s := by
  cases v <;> simp [upperText]

theorem exists_mapM_upperText_iff {items : List Setting} :
    (∃ ids, items.mapM upperText = .ok ids) ↔ ∀ item ∈ items, ∃ s, item = .str s := by
  constructor
  · rintro ⟨ids, hids⟩ item hitem
    exact exists_upperText_iff.mp (exists_eq_ok_of_mapM_eq_ok hids item hitem)
  · intro h
    exact exists_mapM_eq_ok fun item hitem => exists_upperText_iff.mpr (h item hitem)

/-- Rule IDs are read off exactly those values whose members are texts. -/
theorem exists_ruleIds_iff {v : Setting} : (∃ ids, v.ruleIds = .ok ids) ↔ v.YieldsTexts := by
  rw [ruleIds, exists_bind_eq_ok_iff]
  simp only [exists_mapM_upperText_iff]
  constructor
  · rintro ⟨items, hitems, htexts⟩
    cases v with
    | list =>
        obtain rfl := Except.ok.inj hitems
        exact .list htexts
    | str s => exact .str s
    | table entries => exact .table entries
    | _ => cases hitems
  · rintro (@⟨items, htexts⟩ | s | entries)
    · exact ⟨items, rfl, htexts⟩
    · exact ⟨_, rfl, List.forall_mem_map.mpr fun c _ => ⟨String.singleton c, rfl⟩⟩
    · exact ⟨_, rfl, List.forall_mem_map.mpr fun entry _ => ⟨entry.1, rfl⟩⟩

end Setting

/-! ## Settings of the right type -/

namespace Config

/-- Settings of the types that they are documented to have. Other entries among the rules and other
options of a rule are passed over, so these may have any type. -/
structure AreTyped (settings : Table) : Prop where
  select : ∀ v, settings.lookup "select" = some v → v.IsTextList
  ignore : ∀ v, settings.lookup "ignore" = some v → v.IsTextList
  rules : ∀ v, settings.lookup "rules" = some v → ∃ entries, v = .table entries

/-- Settings that a configuration can be made of. -/
structure AreUsable (settings : Table) : Prop where
  select : ∀ v, settings.lookup "select" = some v → v = .null ∨ v.YieldsTexts
  ignore : ∀ v, settings.lookup "ignore" = some v → v.YieldsTexts
  rules : ∀ v, settings.lookup "rules" = some v → ∃ entries, v = .table entries

/-- The table at a key. A key that is absent stands for an empty table. -/
def TableAt (t : Table) (key : String) (entries : Table) : Prop :=
  t.lookup key = some (.table entries) ∨ t.lookup key = none ∧ entries = []

/-- The settings of the tool in a document: all of it, or a table in a document that is shared. -/
inductive SettingsIn (path : Path) (document : Table) : Table → Prop where
  | own (hname : path.name ≠ sharedFile) : SettingsIn path document document
  | shared {tools settings : Table} (hname : path.name = sharedFile)
      (htools : TableAt document "tool" tools) (hsettings : TableAt tools "allday" settings) :
      SettingsIn path document settings

section Usable

variable {settings document entries : Table} {path : Path} {key : String}

theorem AreTyped.areUsable (h : AreTyped settings) : AreUsable settings where
  select v hv := Or.inr (h.select v hv).yieldsTexts
  ignore v hv := (h.ignore v hv).yieldsTexts
  rules := h.rules

theorem exists_selectOf_iff :
    (∃ ids, selectOf settings = .ok ids) ↔
      ∀ v, settings.lookup "select" = some v → v = .null ∨ v.YieldsTexts := by
  rw [selectOf]
  cases settings.lookup "select" with
  | none => simp
  | some v =>
      simp only [Option.some.injEq, forall_eq', ← Setting.exists_ruleIds_iff]
      cases v with
      | null => simp
      | _ => simp only [reduceCtorEq, false_or, exists_map_eq_ok_iff]

theorem exists_ignoreOf_iff :
    (∃ ids, ignoreOf settings = .ok ids) ↔
      ∀ v, settings.lookup "ignore" = some v → v.YieldsTexts := by
  rw [ignoreOf]
  cases settings.lookup "ignore" with
  | none => simp
  | some v => simp [← Setting.exists_ruleIds_iff]

theorem exists_rulesOf_iff :
    (∃ options, rulesOf settings = .ok options) ↔
      ∀ v, settings.lookup "rules" = some v → ∃ entries, v = .table entries := by
  rw [rulesOf]
  cases settings.lookup "rules" with
  | none => simp
  | some v => cases v <;> simp

theorem exists_ofTable_iff : (∃ c, ofTable settings = .ok c) ↔ AreUsable settings := by
  rw [ofTable, exists_bind_eq_ok_iff]
  simp only [exists_bind_eq_ok_iff]
  constructor
  · rintro ⟨select, hselect, ignore, hignore, rules, hrules, -⟩
    exact ⟨exists_selectOf_iff.mp ⟨select, hselect⟩, exists_ignoreOf_iff.mp ⟨ignore, hignore⟩,
      exists_rulesOf_iff.mp ⟨rules, hrules⟩⟩
  · intro h
    obtain ⟨select, hselect⟩ := exists_selectOf_iff.mpr h.select
    obtain ⟨ignore, hignore⟩ := exists_ignoreOf_iff.mpr h.ignore
    obtain ⟨rules, hrules⟩ := exists_rulesOf_iff.mpr h.rules
    exact ⟨select, hselect, ignore, hignore, rules, hrules, _, rfl⟩

theorem tableAt_eq_table_iff :
    tableAt document key = .table entries ↔ TableAt document key entries := by
  rw [tableAt, TableAt]
  cases document.lookup key with
  | none => simp [eq_comm]
  | some v => simp

theorem exists_ofSetting_iff {v : Setting} :
    (∃ c, ofSetting v = .ok c) ↔ ∃ settings, v = .table settings ∧ AreUsable settings := by
  cases v with
  | table settings => simp [ofSetting, exists_ofTable_iff]
  | _ => simp [ofSetting]

theorem sharedSettings_eq_ok_iff {v : Setting} :
    sharedSettings document = .ok v ↔
      ∃ tools, TableAt document "tool" tools ∧ tableAt tools "allday" = v := by
  simp only [← tableAt_eq_table_iff]
  rw [sharedSettings]
  cases tableAt document "tool" with
  | table tools => simp
  | _ => simp

/-- A configuration is made of a document exactly if the settings in it can be used. -/
theorem exists_ofDocument_iff :
    (∃ c, ofDocument path document = .ok c) ↔
      ∃ settings, SettingsIn path document settings ∧ AreUsable settings := by
  rw [ofDocument]
  by_cases hname : path.name = sharedFile
  · rw [if_pos (beq_iff_eq.mpr hname), exists_bind_eq_ok_iff]
    simp only [sharedSettings_eq_ok_iff, exists_ofSetting_iff]
    constructor
    · rintro ⟨v, ⟨tools, htools, rfl⟩, settings, hsettings, husable⟩
      exact ⟨settings, .shared hname htools (tableAt_eq_table_iff.mp hsettings), husable⟩
    · rintro ⟨settings, hin, husable⟩
      cases hin with
      | own hother => exact absurd hname hother
      | @shared tools _ _ htools hsettings =>
          exact ⟨_, ⟨tools, htools, rfl⟩, settings, tableAt_eq_table_iff.mpr hsettings, husable⟩
  · rw [if_neg (by simpa using hname), exists_ofTable_iff]
    constructor
    · intro husable
      exact ⟨document, .own hname, husable⟩
    · rintro ⟨settings, hin, husable⟩
      cases hin with
      | own => exact husable
      | shared hshared => exact absurd hshared hname

end Usable

/-! ## Files -/

/-- A file opens, is text, and holds a document with settings of the right type. -/
def IsSound (path : Path) (answer : Except FileError Bytes) : Prop :=
  ∃ bytes cs document settings, answer = .ok bytes ∧ decode bytes = .ok cs ∧
    Toml.parse cs = some document ∧ SettingsIn path document settings ∧ AreTyped settings

/-- The cause for which a file is unreadable. It is the error of a file that does not open. -/
def causeOf (path : Path) : Except FileError Bytes → Option String
  | .error e => some (e.message path.toString)
  | .ok _ => none

/-- Loading a file yields a configuration. If the file is not sound, it is the one without settings,
and the file is noted with the cause. -/
def FailsSoftly (path : Path) (answer : Except FileError Bytes) : Prop :=
  (∃ c, (ofFile path answer).value = .ok c) ∧
    (¬ IsSound path answer →
      (ofFile path answer).value = .ok {} ∧
        .unreadableConfiguration path.toString (causeOf path answer) ∈ (ofFile path answer).log)

section File

variable {path : Path} {answer : Except FileError Bytes} {bytes : Bytes} {cs : List Char}
  {document settings : Table}

theorem ofFile_of_text_error {e : DecodeError} (h : decode bytes = .error e) :
    ofFile path (.ok bytes) = ⟨.error (.text e), []⟩ := by
  rw [ofFile, ofBytes, h]
  rfl

theorem ofFile_of_no_document (hdecode : decode bytes = .ok cs) (hparse : Toml.parse cs = none) :
    ofFile path (.ok bytes) = ⟨.ok {}, [.unreadableConfiguration path.toString none]⟩ := by
  rw [ofFile, ofBytes, hdecode]
  simp only [hparse]
  rfl

theorem ofFile_of_document (hdecode : decode bytes = .ok cs)
    (hparse : Toml.parse cs = some document) :
    ofFile path (.ok bytes) =
      ⟨Failure.lift .setting (ofDocument path document),
        [.loadedConfiguration path.toString]⟩ := by
  rw [ofFile, ofBytes, hdecode]
  simp only [hparse]
  rfl

/-- A document yields a configuration or the cause why its settings cannot be used. -/
theorem usable_or_setting_error (path : Path) (document : Table) :
    ((∃ settings, SettingsIn path document settings ∧ AreUsable settings) ∧
        ∃ c, Failure.lift .setting (ofDocument path document) = .ok c) ∨
      (¬ ∃ settings, SettingsIn path document settings ∧ AreUsable settings) ∧
        ∃ e, Failure.lift .setting (ofDocument path document) = .error (.setting e) := by
  rw [← exists_ofDocument_iff, Failure.exists_lift_eq_ok_iff]
  cases ofDocument path document with
  | error e => exact Or.inr ⟨by simp, e, rfl⟩
  | ok c => exact Or.inl ⟨⟨c, rfl⟩, c, rfl⟩

theorem isSound_iff (hdecode : decode bytes = .ok cs) (hparse : Toml.parse cs = some document) :
    IsSound path (.ok bytes) ↔
      ∃ settings, SettingsIn path document settings ∧ AreTyped settings := by
  constructor
  · rintro ⟨_, _, _, settings, hbytes, hcs, hdocument, hin, htyped⟩
    obtain rfl := Except.ok.inj hbytes
    obtain rfl := Except.ok.inj (hdecode.symm.trans hcs)
    obtain rfl := Option.some.inj (hparse.symm.trans hdocument)
    exact ⟨settings, hin, htyped⟩
  · rintro ⟨settings, hin, htyped⟩
    exact ⟨bytes, cs, document, settings, rfl, hdecode, hparse, hin, htyped⟩

/-- A file that opens is loaded softly exactly if it is text and its settings have the right type
where it holds any. -/
theorem failsSoftly_iff :
    FailsSoftly path answer ↔
      ∀ bytes, answer = .ok bytes → ∃ cs, decode bytes = .ok cs ∧
        ∀ document, Toml.parse cs = some document →
          ∃ settings, SettingsIn path document settings ∧ AreTyped settings := by
  cases answer with
  | error e =>
      have hsoft : FailsSoftly path (.error e) :=
        ⟨⟨_, rfl⟩, fun _ => ⟨rfl, List.mem_singleton_self _⟩⟩
      exact ⟨fun _ => nofun, fun _ => hsoft⟩
  | ok bytes =>
      simp only [Except.ok.injEq, forall_eq']
      cases hdecode : decode bytes with
      | error e => simp [FailsSoftly, ofFile_of_text_error hdecode]
      | ok cs =>
          simp only [Except.ok.injEq, exists_eq_left']
          cases hparse : Toml.parse cs with
          | none => simp [FailsSoftly, causeOf, ofFile_of_no_document hdecode hparse]
          | some document =>
              simp only [Option.some.injEq, forall_eq']
              rw [FailsSoftly, ofFile_of_document hdecode hparse, isSound_iff hdecode hparse,
                Failure.exists_lift_eq_ok_iff, exists_ofDocument_iff]
              constructor
              · rintro ⟨-, hnoted⟩
                -- Only that it was loaded is noted of a document.
                by_contra hnot
                exact absurd (hnoted hnot).2 (by simp)
              · rintro ⟨settings, hin, htyped⟩
                exact ⟨⟨settings, hin, htyped.areUsable⟩,
                  fun hnot => absurd ⟨settings, hin, htyped⟩ hnot⟩

end File

/-- Loading yields a configuration, and the one without settings with a note where the file cannot
be used, exactly if bytes that are read are text, and the settings of a document have the right
type. Otherwise bytes that are no text end loading without a note, and the settings of a document
end it or are used as they are, and the only note is that they were loaded. -/
theorem load_fails_softly_iff (fs : FileStore) (start : Path) :
    (find? fs start = none → load fs start = ⟨.ok {}, [.noConfiguration start.toString]⟩) ∧
    (∀ path, find? fs start = some path → load fs start = ofFile path (fs.read path)) ∧
    ∀ path answer,
      (FailsSoftly path answer ↔
        ∀ bytes, answer = .ok bytes → ∃ cs, decode bytes = .ok cs ∧
          ∀ document, Toml.parse cs = some document →
            ∃ settings, SettingsIn path document settings ∧ AreTyped settings) ∧
      ∀ bytes, answer = .ok bytes →
        (∀ e, decode bytes = .error e → ofFile path answer = ⟨.error (.text e), []⟩) ∧
        ∀ cs document, decode bytes = .ok cs → Toml.parse cs = some document →
          let usable := ∃ settings, SettingsIn path document settings ∧ AreUsable settings
          (ofFile path answer).log = [.loadedConfiguration path.toString] ∧
            (usable ∧ (∃ c, (ofFile path answer).value = .ok c) ∨
              ¬ usable ∧ ∃ e, (ofFile path answer).value = .error (.setting e)) := by
  refine ⟨fun hnone => ?_, fun path hpath => ?_, fun path answer => ⟨failsSoftly_iff, ?_⟩⟩
  · rw [load, hnone]
    rfl
  · rw [load, hpath]
  · rintro bytes rfl
    refine ⟨fun e => ofFile_of_text_error, fun cs document hdecode hparse => ?_⟩
    rw [ofFile_of_document hdecode hparse]
    exact ⟨rfl, usable_or_setting_error path document⟩

/-! ## Directories with a configuration -/

/-- A directory with a configuration of the tool's own. -/
def configuredStore (bytes : Bytes) : FileStore := { entries := [([ownFile], .file bytes)] }

/-- The path of this configuration. -/
def configuredPath : Path := ⟨"/", [ownFile]⟩

section Configured

theorem find?_configuredStore (bytes : Bytes) :
    find? (configuredStore bytes) (configuredStore bytes).cwdPath = some configuredPath :=
  FileStore.configFind?_of_own_at rfl rfl

theorem read_configuredStore (bytes : Bytes) :
    (configuredStore bytes).read configuredPath = .ok bytes :=
  FileStore.read_of_file_at rfl (by decide) rfl "/"

theorem load_configuredStore (bytes : Bytes) :
    load (configuredStore bytes) (configuredStore bytes).cwdPath =
      ofFile configuredPath (.ok bytes) :=
  FileStore.load_of_own_at rfl rfl

end Configured

/-- A selection of one rule is loaded softly. -/
theorem load_fails_softly_iff_selection :
    let fs := configuredStore (encode "select = [\"dtr001\"]\n".toList)
    find? fs fs.cwdPath = some configuredPath ∧
      load fs fs.cwdPath = ofFile configuredPath (fs.read configuredPath) ∧
      FailsSoftly configuredPath (fs.read configuredPath) := by
  intro fs
  have hfind : find? fs fs.cwdPath = some configuredPath := find?_configuredStore _
  have hparse : Toml.parse "select = [\"dtr001\"]\n".toList =
      some [("select", .list [.str "dtr001"])] := by
    cbv
  have htyped : AreTyped [("select", .list [.str "dtr001"])] := by
    refine ⟨?_, ?_, ?_⟩
    · simp [Setting.IsTextList]
    · simp [List.lookup_cons]
    · simp [List.lookup_cons]
  obtain ⟨-, hload, hsoft⟩ := load_fails_softly_iff fs fs.cwdPath
  refine ⟨hfind, hload configuredPath hfind, (hsoft _ _).1.mpr fun bytes hbytes => ?_⟩
  rw [read_configuredStore] at hbytes
  obtain rfl := Except.ok.inj hbytes
  refine ⟨_, decode_encode _, fun document hdocument => ?_⟩
  obtain rfl := Option.some.inj (hparse.symm.trans hdocument)
  exact ⟨_, .own (by decide), htyped⟩

/-- Bytes that are no text and a selection of the wrong type end loading, and a text in place of a
selection passes for the list of its characters. -/
theorem configuration_errors_escape :
    let fs (bytes : Bytes) := configuredStore bytes
    let loaded bytes := load (fs bytes) (fs bytes).cwdPath
    let number := encode "select = 5\n".toList
    let text := encode "select = \"A1\"\n".toList
    loaded [0xFF] = ⟨.error (.text ⟨.invalidStart, 0, 1, 0xFF⟩), []⟩ ∧
      loaded number = ⟨.error (.setting (.notCollection "int")),
        [.loadedConfiguration "/.allday.toml"]⟩ ∧
      loaded text = ⟨.ok { select := some ["A", "1"] }, [.loadedConfiguration "/.allday.toml"]⟩ ∧
      ∀ bytes ∈ [[0xFF], number, text],
        ¬ FailsSoftly configuredPath ((fs bytes).read configuredPath) := by
  intro fs loaded number text
  have hgarbled : decode [0xFF] = .error ⟨.invalidStart, 0, 1, 0xFF⟩ := by decide +kernel
  have hnumber : Toml.parse "select = 5\n".toList = some [("select", .int 5)] := by cbv
  have htext : Toml.parse "select = \"A1\"\n".toList = some [("select", .str "A1")] := by cbv
  have hnotList {v : Setting} (hv : ¬ v.IsTextList) :
      ¬ ∃ settings, SettingsIn configuredPath [("select", v)] settings ∧ AreTyped settings := by
    rintro ⟨settings, hin, htyped⟩
    cases hin with
    | own => exact hv (htyped.select v (by simp))
    | shared hshared => exact absurd hshared (by decide)
  refine ⟨?_, ?_, ?_, ?_⟩
  · exact (load_configuredStore _).trans (ofFile_of_text_error hgarbled)
  · refine (load_configuredStore _).trans (ofFile_of_document (decode_encode _) hnumber |>.trans ?_)
    rfl
  · refine (load_configuredStore _).trans (ofFile_of_document (decode_encode _) htext |>.trans ?_)
    rfl
  · intro bytes hbytes hsoft
    rw [read_configuredStore] at hsoft
    obtain ⟨cs, hdecode, hdocument⟩ := failsSoftly_iff.mp hsoft bytes rfl
    simp only [List.mem_cons, List.not_mem_nil, or_false] at hbytes
    rcases hbytes with rfl | rfl | rfl
    · rw [hgarbled] at hdecode
      cases hdecode
    · obtain rfl := Except.ok.inj ((decode_encode _).symm.trans hdecode)
      exact hnotList (by rintro ⟨_, h, -⟩; cases h) (hdocument _ hnumber)
    · obtain rfl := Except.ok.inj ((decode_encode _).symm.trans hdecode)
      exact hnotList (by rintro ⟨_, h, -⟩; cases h) (hdocument _ htext)

end Config

end PeriodLint
