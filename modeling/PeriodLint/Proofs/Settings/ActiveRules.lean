import PeriodLint.Proofs.Check.Mending
import PeriodLint.Proofs.Rule.StableOrder
import PeriodLint.Settings.Config

/-!
# Configured rules

A configuration drops rules and gives the library's own rule another severity.
Both can as well be done to the reports of the rules without configuration,
because a report names its rule, and neither its place in the order nor what
silences it depends on its severity. Options thus change nothing else in the
reports, and neither the mended text nor the printed lines.
-/

namespace PeriodLint

/-- A report without how grave it is. -/
def Diagnostic.content (d : Diagnostic) : String × String × Span × Option String :=
  (d.ruleId, d.message, d.span, d.fix)

namespace Rule

/-- All reports of a rule name it. -/
def IsLabelled (rule : Rule) : Prop :=
  ∀ tree source, ∀ d ∈ rule.check tree source, d.ruleId = rule.id

/-- A rule has another ID than the library's own rule, names itself in its reports, and is left as it
is by any options. -/
structure IsOther (rule : Rule) : Prop where
  id_ne : rule.id ≠ wholePeriodId
  isLabelled : rule.IsLabelled
  configure : ∀ options, (rule.configure options).value = rule

/-- Rules of which each is the library's own one with a given severity or another one. -/
def IsRegistry (severity : Severity) (rules : List Rule) : Prop :=
  ∀ rule ∈ rules, rule = .wholePeriod severity ∨ rule.IsOther

/-- The report with another severity, if it is one of the library's own rule. -/
def relabel (severity : Severity) (d : Diagnostic) : Diagnostic :=
  if d.ruleId = wholePeriodId then { d with severity } else d

section Relabel

variable {severity configured : Severity} {source : Bytes}

@[simp] theorem content_relabel (severity : Severity) (d : Diagnostic) :
    (relabel severity d).content = d.content := by
  rw [relabel]
  split <;> rfl

@[simp] theorem ruleId_relabel (severity : Severity) (d : Diagnostic) :
    (relabel severity d).ruleId = d.ruleId :=
  congrArg (·.1) (content_relabel severity d)

@[simp] theorem span_relabel (severity : Severity) (d : Diagnostic) :
    (relabel severity d).span = d.span :=
  congrArg (·.2.2.1) (content_relabel severity d)

theorem map_relabel_flag? (n : Node) :
    (flag? severity source n).map (relabel configured) = flag? configured source n := by
  rw [flag?, flag?, Option.map_map]
  rfl

theorem isLabelled_wholePeriod (severity : Severity) : (wholePeriod severity).IsLabelled := by
  intro tree source d hd
  obtain ⟨n, -, text, -, rfl⟩ := exists_node_of_mem_check hd
  rfl

theorem IsRegistry.isLabelled {rules : List Rule} (h : IsRegistry severity rules) :
    ∀ rule ∈ rules, rule.IsLabelled := by
  intro rule hrule
  rcases h rule hrule with rfl | hother
  · exact isLabelled_wholePeriod severity
  · exact hother.isLabelled

theorem map_content_relabel (severity : Severity) (ds : List Diagnostic) :
    (ds.map (relabel severity)).map Diagnostic.content = ds.map Diagnostic.content := by
  rw [List.map_map]
  exact List.map_congr_left fun d _ => content_relabel severity d

/-- The reports of another rule are left as they are. -/
theorem IsOther.map_relabel {rule : Rule} (h : rule.IsOther) (tree : Node) (source : String) :
    (rule.check tree source).map (relabel configured) = rule.check tree source := by
  refine (List.map_congr_left fun d hd => ?_).trans (List.map_id _)
  have hne : d.ruleId ≠ wholePeriodId := by
    rw [h.isLabelled tree source d hd]
    exact h.id_ne
  exact if_neg hne

end Relabel

end Rule

/-! ## Active rules -/

namespace Config

section Reports

variable {c : Config} {severity configured : Severity} {rule : Rule} {registry : List Rule}

/-- To leave a rule as it is comes to configuring it with no options, if these leave it as it is. -/
theorem value_configureRule (c : Config) (hnone : (rule.configure []).value = rule) :
    (c.configureRule rule).value = (rule.configure (c.optionsFor rule.id)).value := by
  rw [configureRule_eq]
  split
  · next h =>
      rw [h, hnone]
      rfl
  · rfl

theorem check_configureRule
    (hconfigured : ((Rule.wholePeriod severity).configure (c.optionsFor Rule.wholePeriodId)).value =
      .wholePeriod configured)
    (hrule : rule = .wholePeriod severity ∨ rule.IsOther) (tree : Node) (source : String) :
    (c.configureRule rule).value.check tree source =
      (rule.check tree source).map (Rule.relabel configured) := by
  rcases hrule with rfl | hother
  · rw [value_configureRule c rfl, Rule.id, hconfigured, Rule.check, Rule.check,
      List.map_filterMap]
    simp only [Rule.map_relabel_flag?]
  · rw [value_configureRule c (hother.configure []), hother.configure, hother.map_relabel]

/-- Dropping labelled rules is dropping their reports. -/
theorem reports_filter {rules : List Rule} (hrules : ∀ rule ∈ rules, rule.IsLabelled)
    (enabled : String → Bool) (tree : Node) (source : String) :
    Analysis.reports (rules.filter (enabled ·.id)) tree source =
      (Analysis.reports rules tree source).filter (enabled ·.ruleId) := by
  rw [Analysis.reports, Analysis.reports]
  induction rules with
  | nil => rfl
  | cons rule rules ih =>
      obtain ⟨hrule, hrules⟩ := List.forall_mem_cons.mp hrules
      have hlabel : (rule.check tree source).filter (enabled ·.ruleId) =
          (rule.check tree source).filter fun _ => enabled rule.id :=
        List.filter_congr fun d hd => congrArg enabled (hrule tree source d hd)
      rw [List.flatMap_cons, List.filter_append, ← ih hrules, hlabel, List.filter_cons]
      cases enabled rule.id with
      | true => rw [List.filter_true, if_pos rfl, List.flatMap_cons]
      | false => rw [List.filter_false, if_neg Bool.false_ne_true, List.nil_append]

theorem reports_activeRules (hregistry : Rule.IsRegistry severity registry)
    (hconfigured : ((Rule.wholePeriod severity).configure (c.optionsFor Rule.wholePeriodId)).value =
      .wholePeriod configured) (tree : Node) (source : String) :
    Analysis.reports (c.activeRules registry).value tree source =
      ((Analysis.reports registry tree source).filter (c.isEnabled ·.ruleId)).map
        (Rule.relabel configured) := by
  rw [← reports_filter hregistry.isLabelled, activeRules, Logged.value_mapM, Analysis.reports,
    Analysis.reports, List.flatMap_map, List.map_flatMap]
  refine List.flatMap_congr fun rule hrule => ?_
  exact check_configureRule hconfigured (hregistry rule (List.mem_filter.mp hrule).1) tree source

theorem ofTree_activeRules (hregistry : Rule.IsRegistry severity registry)
    (hconfigured : ((Rule.wholePeriod severity).configure (c.optionsFor Rule.wholePeriodId)).value =
      .wholePeriod configured) (tree : Node) (source : String) :
    Analysis.ofTree (c.activeRules registry).value tree source =
      ((Analysis.ofTree registry tree source).filter (c.isEnabled ·.ruleId)).map
        (Rule.relabel configured) := by
  have hsilences : ∀ s : Suppressions,
      (fun d => !s.silences d) ∘ Rule.relabel configured = fun d => !s.silences d := by
    intro s
    funext d
    simp [Suppressions.silences]
  simp only [Analysis.ofTree]
  rw [reports_activeRules hregistry hconfigured, List.filter_map, hsilences, List.filter_filter,
    filter_mergeSort Analysis.precedes_trans Analysis.precedes_total, List.filter_filter]
  simp only [Bool.and_comm]
  -- The order does not look at severities.
  refine (List.map_mergeSort fun a _ b _ => ?_).symm
  simp [Analysis.precedes]

theorem analyze_activeRules (hregistry : Rule.IsRegistry severity registry)
    (hconfigured : ((Rule.wholePeriod severity).configure (c.optionsFor Rule.wholePeriodId)).value =
      .wholePeriod configured) (parse : Parser) (source : String) :
    (analyze parse (c.activeRules registry).value source).value =
      ((analyze parse registry source).value.filter (c.isEnabled ·.ruleId)).map
        (Rule.relabel configured) := by
  cases hok : (parse source).hasError with
  | true =>
      rw [analyze_eq_nil hok, analyze_eq_nil hok]
      rfl
  | false =>
      rw [analyze_eq_ofTree hok, analyze_eq_ofTree hok]
      exact ofTree_activeRules hregistry hconfigured (parse source) source

end Reports

end Config

/-! ## What depends on the content of reports alone -/

section Content

variable {ds es : List Diagnostic}

theorem Edit.proposals_congr (h : ds.map Diagnostic.content = es.map Diagnostic.content) :
    Edit.proposals ds = Edit.proposals es := by
  have hcontent : ∀ cs : List Diagnostic, Edit.proposals cs =
      (cs.map Diagnostic.content).filterMap fun (_, _, span, fix) => fix.map (span, ·) := by
    intro cs
    rw [List.filterMap_map]
    rfl
  rw [hcontent, hcontent, h]

theorem applyFixes_congr (h : ds.map Diagnostic.content = es.map Diagnostic.content)
    (source : String) : applyFixes source ds = applyFixes source es :=
  applyFixes_of_proposals_eq (Edit.proposals_congr h)

theorem Check.map_reportLine_congr (h : ds.map Diagnostic.content = es.map Diagnostic.content)
    (path : Path) : ds.map (Check.reportLine path) = es.map (Check.reportLine path) := by
  have hcontent : ∀ cs : List Diagnostic, cs.map (Check.reportLine path) =
      (cs.map Diagnostic.content).map fun (ruleId, message, span, _) =>
        s!"{path.toString}:{span.line}:{span.col}: {ruleId} {message}" := by
    intro cs
    rw [List.map_map]
    rfl
  rw [hcontent, hcontent, h]

end Content

namespace Check

/-- The analyses with either rules differ at most in how grave the reports are. -/
def ReportAlike (parse : Parser) (rules others : List Rule) : Prop :=
  ∀ source, (analyze parse rules source).value.map Diagnostic.content =
    (analyze parse others source).value.map Diagnostic.content

/-- A text and its reports without how grave they are. -/
def contentOf (outcome : String × List Diagnostic) :
    String × List (String × String × Span × Option String) :=
  (outcome.1, outcome.2.map Diagnostic.content)

section Alike

variable {parse : Parser} {rules others : List Rule}

theorem ReportAlike.mend (h : ReportAlike parse rules others) (passes : Nat) {source : String}
    {ds es : List Diagnostic} (hds : ds.map Diagnostic.content = es.map Diagnostic.content) :
    (mend parse rules passes source ds).value.map contentOf =
      (mend parse others passes source es).value.map contentOf := by
  induction passes generalizing source ds es with
  | zero => exact congrArg (fun content => Except.ok (source, content)) hds
  | succ passes ih =>
      rw [Check.mend, Check.mend, applyFixes_congr hds]
      cases applyFixes source es with
      | error e => rfl
      | ok fixed =>
          simp only [Logged.value_bind]
          split
          · exact congrArg (fun content => Except.ok (source, content)) hds
          · exact ih (h fixed.value)

theorem ReportAlike.examine (h : ReportAlike parse rules others) (fix : Bool) (source : String) :
    (examine parse rules fix source).value.map contentOf =
      (examine parse others fix source).value.map contentOf := by
  cases fix with
  | false => exact congrArg (fun content => Except.ok (source, content)) (h source)
  | true => exact h.mend maxPasses (h source)

theorem eq_error_or_eq_ok_of_map_eq {ε α β : Type} {f : α → β} {x y : Except ε α}
    (h : x.map f = y.map f) :
    (∃ e, x = .error e ∧ y = .error e) ∨ ∃ a b, x = .ok a ∧ y = .ok b ∧ f a = f b := by
  cases x with
  | error e =>
      cases y with
      | error e' =>
          obtain rfl := Except.error.inj h
          exact Or.inl ⟨e, rfl, rfl⟩
      | ok b => cases h
  | ok a =>
      cases y with
      | error e => cases h
      | ok b => exact Or.inr ⟨a, b, rfl, rfl, Except.ok.inj h⟩

/-- With rules that report alike the check of a file comes to the same. -/
theorem ReportAlike.file (h : ReportAlike parse rules others) (fix : Bool) (fs : FileStore)
    (path : Path) :
    (file parse rules fix fs path).value = (file parse others fix fs path).value := by
  cases hread : fs.read path with
  | error e => rw [file_of_read_error hread, file_of_read_error hread]
  | ok bytes =>
      cases htext : readText bytes with
      | error e => rw [file_of_text_error hread htext, file_of_text_error hread htext]
      | ok source =>
          rcases eq_error_or_eq_ok_of_map_eq (h.examine fix source) with
            ⟨e, hrules, hothers⟩ | ⟨outcome, other, hrules, hothers, hcontent⟩
          · rw [file_of_examine_error hread htext hrules,
              file_of_examine_error hread htext hothers]
          · obtain ⟨hfinal, hds⟩ := Prod.mk.inj hcontent
            rw [file_of_examine hread htext hrules, file_of_examine hread htext hothers, hfinal,
              map_reportLine_congr hds]

end Alike

end Check

namespace Config

/-- Whatever the options, the active rules report alike. -/
theorem reportAlike_activeRules {severity : Severity} {registry : List Rule}
    (hregistry : Rule.IsRegistry severity registry) (parse : Parser) (c : Config)
    (options : List (String × Options)) :
    Check.ReportAlike parse (c.activeRules registry).value
      (({ c with ruleOptions := options }).activeRules registry).value := by
  intro source
  rw [analyze_activeRules hregistry rfl, analyze_activeRules hregistry rfl,
    Rule.map_content_relabel, Rule.map_content_relabel]
  rfl

/-- To configure rules is to filter and relabel what they report. The enabled reports are kept in
their order, and those of the library's own rule get the severity that it is configured with. Other
options would change neither the contents of the reports nor the text with its fixes, and every
check of a file comes to the same. -/
theorem settings_filter_and_relabel {severity : Severity} {registry : List Rule}
    (hregistry : Rule.IsRegistry severity registry) (parse : Parser) (c : Config) :
    let active := (c.activeRules registry).value
    (∃ configured,
      ((Rule.wholePeriod severity).configure (c.optionsFor Rule.wholePeriodId)).value =
        .wholePeriod configured ∧
      ∀ source, (analyze parse active source).value =
        ((analyze parse registry source).value.filter (c.isEnabled ·.ruleId)).map
          (Rule.relabel configured)) ∧
    ∀ options, let others := (({ c with ruleOptions := options }).activeRules registry).value
      (∀ source, (analyze parse active source).value.map Diagnostic.content =
          (analyze parse others source).value.map Diagnostic.content ∧
        applyFixes source (analyze parse active source).value =
          applyFixes source (analyze parse others source).value) ∧
      ∀ fix fs path, (Check.file parse active fix fs path).value =
        (Check.file parse others fix fs path).value := by
  intro active
  refine ⟨⟨_, rfl, analyze_activeRules hregistry rfl parse⟩, ?_⟩
  intro options others
  have halike := reportAlike_activeRules hregistry parse c options
  exact ⟨fun source => ⟨halike source, applyFixes_congr (halike source) source⟩, halike.file⟩

/-- A rule that reports every source at one place. -/
def everywhere (id : String) (span : Span) : Rule :=
  .plain id fun _ _ => [⟨id, "everywhere", .hint, span, none⟩]

theorem isOther_everywhere {id : String} (h : id ≠ Rule.wholePeriodId) (span : Span) :
    (everywhere id span).IsOther := by
  refine ⟨h, fun tree source d hd => ?_, fun options => rfl⟩
  rw [List.mem_singleton.mp hd]
  rfl

theorem settings_filter_and_relabel_tied :
    let span := twoLineRange.span (Utf8.encode twoLineText.toList)
    let registry : List Rule := [everywhere "A" span, .wholePeriod .warning, everywhere "B" span]
    let c : Config :=
      { ignore := ["B"], ruleOptions := [(Rule.wholePeriodId, [("severity", .str "Error")])] }
    Rule.IsRegistry .warning registry ∧
      (analyze (fun _ => twoLineRange) (c.activeRules registry).value twoLineText).value =
        [⟨"A", "everywhere", .hint, span, none⟩, Rule.report .error span "é.all_day"] := by
  intro span registry c
  have hregistry : Rule.IsRegistry .warning registry := by
    intro rule hrule
    simp only [registry, List.mem_cons, List.not_mem_nil, or_false] at hrule
    rcases hrule with rfl | rfl | rfl
    · exact Or.inr (isOther_everywhere (by decide) span)
    · exact Or.inl rfl
    · exact Or.inr (isOther_everywhere (by decide) span)
  refine ⟨hregistry, ?_⟩
  obtain ⟨⟨configured, hconfigured, hanalyze⟩, -⟩ :=
    settings_filter_and_relabel hregistry (fun _ => twoLineRange) c
  have hreports : Analysis.reports registry twoLineRange twoLineText =
      [⟨"A", "everywhere", .hint, span, none⟩, Rule.report .warning span "é.all_day",
        ⟨"B", "everywhere", .hint, span, none⟩] := by
    rw [Analysis.reports, List.flatMap_cons, List.flatMap_cons, isSoleRange_twoLineRange.check_eq]
    rfl
  have herror : configured = .error := by
    have hchosen : (Rule.chosenSeverity (c.optionsFor Rule.wholePeriodId)).value = some .error := by
      decide +kernel
    rw [Rule.configure, Logged.value_bind, hchosen] at hconfigured
    exact (Rule.wholePeriod.inj hconfigured).symm
  have hsorted : (Analysis.reports registry twoLineRange twoLineText).Pairwise
      (Analysis.precedes · ·) := by
    rw [hreports]
    simp [Analysis.precedes, Rule.report]
  rw [hanalyze, analyze_eq_ofTree isSoleRange_twoLineRange.hasError,
    isSoleRange_twoLineRange.ofTree_eq_mergeSort, List.mergeSort_of_pairwise hsorted, hreports,
    herror]
  rfl

end Config

end PeriodLint
