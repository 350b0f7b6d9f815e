import PeriodLint.Proofs.Check.Singles

/-!
# Files that a run changes

Without mending a run changes no file. With mending it changes the files that it
checks and for which the first analysis has something to report, and no others:
a pass over such a text makes it shorter, later passes never bring it back, and
any other text is left by the first pass as it is.
-/

namespace PeriodLint

open Utf8 Text

/-- Something is left to report of a program for which a rule reports what no directive silences,
and of no other source. -/
theorem analyze_ne_nil_iff {parse : Parser} {rules : List Rule} {source : String} :
    (analyze parse rules source).value ≠ [] ↔
      (parse source).hasError = false ∧
        ∃ rule ∈ rules, ∃ d ∈ rule.check (parse source) source,
          (Suppressions.ofTree (encode source.toList) (parse source)).silences d = false := by
  rw [Ne, List.eq_nil_iff_forall_not_mem, not_forall_not]
  cases hok : (parse source).hasError with
  | true => simp [analyze_eq_nil hok]
  | false =>
      simp only [analyze_eq_ofTree hok, Analysis.ofTree, Analysis.reports, List.mem_mergeSort,
        List.mem_filter, List.mem_flatMap, Bool.not_eq_eq_eq_not, Bool.not_true, true_and]
      constructor
      · rintro ⟨d, ⟨rule, hrule, hd⟩, hsilent⟩
        exact ⟨rule, hrule, d, hd, hsilent⟩
      · rintro ⟨rule, hrule, d, hd, hsilent⟩
        exact ⟨d, ⟨rule, hrule, hd⟩, hsilent⟩

namespace Check

/-- The first analysis of a file, by the rules that are configured, reports a range that is better
written as a whole period. -/
def IsReported (parse : Parser) (fs : FileStore) (p : Path) : Prop :=
  ∃ config bytes source, (Config.load fs fs.cwdPath).value = .ok config ∧
    fs.read p = .ok bytes ∧ readText bytes = .ok source ∧
    ∃ d ∈ (analyze parse (config.activeRules Rule.registry).value source).value,
      d.ruleId = Rule.wholePeriodId

section Reported

variable {parse : Parser} {fs : FileStore} {config : Config} {p q : Path} {bytes : Bytes}
  {source : String}

theorem isReported_congr (h : fs.read p = fs.read q) :
    IsReported parse fs p ↔ IsReported parse fs q := by
  rw [IsReported, IsReported, h]

theorem IsReported.exists_locate (h : IsReported parse fs p) :
    ∃ place, fs.locate p = .ok place := by
  obtain ⟨_, bytes, _, -, hread, -⟩ := h
  obtain ⟨place, hplace, -⟩ := FileStore.exists_locate_of_read hread
  exact ⟨place, hplace⟩

/-- With a configuration only diagnostics of the library's own rule are reported. -/
theorem isReported_iff (hload : (Config.load fs fs.cwdPath).value = .ok config)
    (hread : fs.read p = .ok bytes) (htext : readText bytes = .ok source) :
    IsReported parse fs p ↔
      (analyze parse (config.activeRules Rule.registry).value source).value ≠ [] := by
  constructor
  · rintro ⟨config', bytes', source', hload', hread', htext', d, hd, -⟩
    obtain rfl := Except.ok.inj (hload.symm.trans hload')
    obtain rfl := Except.ok.inj (hread.symm.trans hread')
    obtain rfl := Except.ok.inj (htext.symm.trans htext')
    exact List.ne_nil_of_mem hd
  · intro hne
    obtain ⟨d, hd⟩ := List.exists_mem_of_ne_nil _ hne
    obtain ⟨severity, n, -, text, -, rfl⟩ :=
      exists_node_of_mem_analyze (isWholePeriod_of_mem_activeRules config) hd
    exact ⟨config, bytes, source, hload, hread, htext, _, hd, rfl⟩

end Reported

/-! ## What a part changes -/

section Part

variable {parse : Parser} {fs : FileStore} {config : Config} {p : Path} {r : Part}
  {bytes : Bytes} {source final : String} {ds : List Diagnostic}

/-- With a configuration mending changes exactly the texts with something to report. -/
theorem eq_iff_of_examine_activeRules (hwf : ∀ source, (parse source).IsWellFormed source.toList)
    (h : (examine parse (config.activeRules Rule.registry).value true source).value =
      .ok (final, ds)) :
    final = source ↔
      (analyze parse (config.activeRules Rule.registry).value source).value = [] := by
  rcases activeRules_eq config with hnone | ⟨severity, hrules⟩
  · rw [hnone] at h ⊢
    have hnil : (analyze parse [] source).value = [] := by
      by_contra hne
      obtain ⟨-, rule, hrule, -⟩ := analyze_ne_nil_iff.mp hne
      cases hrule
    exact iff_of_true (eq_of_examine_of_eq_nil h hnil) hnil
  · rw [hrules] at h ⊢
    exact eq_iff_of_examine hwf h

/-- What mending leaves of a text that was read has other bytes, if it is another text. -/
theorem ne_encode_of_examine {rules : List Rule} (hrules : ∀ rule ∈ rules, rule.IsWholePeriod)
    (htext : readText bytes = .ok source)
    (h : (examine parse rules true source).value = .ok (final, ds)) (hne : final ≠ source) :
    bytes ≠ encode final.toList := by
  rintro rfl
  obtain ⟨-, n, -, hmended, -⟩ := exists_mended_of_mend h
  have hfinal : '\r' ∉ final.toList := hmended.not_mem hrules (not_mem_of_readText htext)
  exact hne (Except.ok.inj ((readText_encode hfinal).symm.trans htext))

/-- A part with mending changes the place of its file exactly if the file is reported. -/
theorem exists_changes_iff (hwf : ∀ source, (parse source).IsWellFormed source.toList)
    (hload : (Config.load fs fs.cwdPath).value = .ok config)
    (hpart : part parse (config.activeRules Rule.registry).value true p (fs.read p) = .ok r)
    {place : Place} :
    (∃ e, r.Changes fs p place e) ↔ fs.locate p = .ok place ∧ IsReported parse fs p := by
  simp only [Part.Changes]
  rcases part_cases hpart with
    ⟨e, hread, rfl⟩ | ⟨bytes, source, final, ds, hread, htext, hexamine, rfl⟩
  · simp [IsReported, hread]
  · rw [isReported_iff hload hread htext, Ne, ← eq_iff_of_examine_activeRules hwf hexamine]
    by_cases hsame : final = source
    · simp [hsame]
    · have hne : bytes ≠ encode final.toList :=
        ne_encode_of_examine (isWholePeriod_of_mem_activeRules config) htext hexamine hsame
      simp [hsame, hread, hne]

/-- Without mending a part has nothing to write. -/
theorem bytes_of_part_false {rules : List Rule} {answer : Except FileError Bytes}
    (hpart : part parse rules false p answer = .ok r) : r.bytes = none := by
  rcases part_cases hpart with ⟨e, -, rfl⟩ | ⟨bytes, source, final, ds, -, -, hexamine, rfl⟩
  · rfl
  · obtain ⟨rfl, -⟩ := Prod.mk.inj (Except.ok.inj hexamine)
    exact if_pos rfl

end Part

/-! ## What a run changes -/

section Run

variable {parse : Parser} {fs : FileStore} {request : CheckRequest} {changed : Logged (List Path)}

/-- A run without mending leaves the store. -/
theorem store_of_files_false {rules : List Rule} {o : Outcome} {paths : List Path} :
    (files parse rules false o paths).value.store = o.store := by
  induction paths generalizing o with
  | nil => rfl
  | cons p paths ih =>
      cases hpart : part parse rules false p (o.store.read p) with
      | error e => rw [files_cons_error (file_of_part_error hpart)]
      | ok r =>
          have hstore : r.store o.store p = o.store := by
            rw [Part.store, bytes_of_part_false hpart]
          rw [files_cons_ok (file_of_part hpart), ih]
          exact hstore

theorem shape_of_run :
    (run parse Rule.registry fs request changed).value.store.shape = fs.shape := by
  cases hload : (Config.load fs fs.cwdPath).value with
  | error e => rw [store_of_load_error hload]
  | ok config =>
      rw [(lines_store_of_load hload).2]
      exact shape_files

theorem store_of_run_false (hfix : request.fix = false) :
    (run parse Rule.registry fs request changed).value.store = fs := by
  cases hload : (Config.load fs fs.cwdPath).value with
  | error e => exact store_of_load_error hload
  | ok config =>
      rw [(lines_store_of_load hload).2, hfix]
      exact store_of_files_false

/-- A run with mending changes exactly the places of the reported files. -/
theorem exists_changedTo_run_iff (hwf : ∀ source, (parse source).IsWellFormed source.toList)
    (htext : ∀ p ∈ checkedFiles fs request changed, ∀ e, ¬ IsGarbled fs p e)
    (hfix : request.fix = true) {place : Place} :
    (∃ e, fs.ChangedTo (run parse Rule.registry fs request changed).value.store place e) ↔
      ∃ p ∈ checkedFiles fs request changed, fs.locate p = .ok place ∧ IsReported parse fs p := by
  cases hload : (Config.load fs fs.cwdPath).value with
  | error e =>
      rw [store_of_load_error hload]
      simp [FileStore.not_changedTo_self, IsReported, hload]
  | ok config =>
      obtain ⟨parts, hparts⟩ := exists_parts parse config true htext
      have hapart := pairwise_apart_checkedFiles fs request changed
      rw [(lines_store_of_load hload).2, hfix]
      simp only [changedTo_files_iff (o := { store := fs }) hapart hparts]
      rw [exists_comm]
      refine exists_congr fun p => ?_
      rw [exists_and_left]
      exact and_congr_right fun hp => exists_changes_iff hwf hload (hparts p hp)

end Run

/-- A run without mending changes no file. A run with mending over files that can be read as text
where they open changes what lies at a place exactly if a checked file lies there for which the
first analysis has something to report. The analysis has none to report of a file that is no program
or for which every report of the configured rules, if there is any, is suppressed. -/
theorem mending_changes_reported_files {parse : Parser}
    (hwf : ∀ source, (parse source).IsWellFormed source.toList) {fs : FileStore}
    {request : CheckRequest} {changed : Logged (List Path)}
    (htext : ∀ p ∈ checkedFiles fs request changed, ∀ e, ¬ IsGarbled fs p e) :
    let left := (run parse Rule.registry fs request changed).value.store
    left.shape = fs.shape ∧
    (request.fix = false → left = fs) ∧
    (request.fix = true →
      (∀ place, left.entryAt? place ≠ fs.entryAt? place ↔
        ∃ p ∈ checkedFiles fs request changed, fs.locate p = .ok place ∧ IsReported parse fs p) ∧
      ∀ p ∈ checkedFiles fs request changed,
        left.read p ≠ fs.read p ↔ IsReported parse fs p) ∧
    ∀ config p bytes source, (Config.load fs fs.cwdPath).value = .ok config →
      fs.read p = .ok bytes → readText bytes = .ok source →
        (IsReported parse fs p ↔ (parse source).hasError = false ∧
          ∃ rule ∈ (config.activeRules Rule.registry).value, ∃ d ∈ rule.check (parse source) source,
            (Suppressions.ofTree (encode source.toList) (parse source)).silences d = false) := by
  intro left
  have hshape : left.shape = fs.shape := shape_of_run
  refine ⟨hshape, store_of_run_false, fun hfix => ?_, fun config p bytes source hload hread h => ?_⟩
  · have hplaces : ∀ place, left.entryAt? place ≠ fs.entryAt? place ↔
        ∃ p ∈ checkedFiles fs request changed, fs.locate p = .ok place ∧ IsReported parse fs p :=
      fun place => FileStore.exists_changedTo_iff.symm.trans
        (exists_changedTo_run_iff hwf htext hfix)
    refine ⟨hplaces, fun p hp => ?_⟩
    rw [FileStore.read_ne_iff hshape]
    constructor
    · rintro ⟨place, hplace, hchanged⟩
      obtain ⟨q, -, hq, hreported⟩ := (hplaces place).mp hchanged
      exact (isReported_congr (FileStore.read_eq_of_locate_eq (hplace.trans hq.symm))).mpr hreported
    · intro hreported
      obtain ⟨place, hplace⟩ := hreported.exists_locate
      exact ⟨place, hplace, (hplaces place).mpr ⟨p, hp, hplace, hreported⟩⟩
  · exact (isReported_iff hload hread h).trans analyze_ne_nil_iff

theorem isWellFormed_parseOnly {text : String} {tree : Node} (h : tree.IsWellFormed text.toList)
    (source : String) : (parseOnly text tree source).IsWellFormed source.toList := by
  rw [parseOnly]
  split
  · next hsource =>
      rw [hsource]
      exact h
  · have hzero := zero_mem_boundaries source.toList
    exact Node.isWellFormed_leaf ⟨Nat.le_refl 0, hzero, hzero⟩ rfl

/-- The program with a range is changed, and the one without keeps its line ends. -/
theorem mending_changes_reported_files_pairStore :
    let parse := parseOnly dayText dayRange
    let request : CheckRequest := { paths := pairPaths, fix := true }
    let left := (run parse Rule.registry pairStore request (pure [])).value.store
    ((∀ source, (parse source).IsWellFormed source.toList) ∧
        ∀ p ∈ checkedFiles pairStore request (pure []), ∀ e, ¬ IsGarbled pairStore p e) ∧
      left.read (pathTo "a.rb") ≠ .ok (encode dayText.toList) ∧
      left.read (pathTo "b.rb") = .ok (encode "x = 1\r\n".toList) := by
  intro parse request left
  have hwf : ∀ source, (parse source).IsWellFormed source.toList :=
    isWellFormed_parseOnly isSoleRange_dayRange.isWellFormed
  have hchecked : checkedFiles pairStore request (pure []) = pairPaths :=
    checkedFiles_of_ok resolveFiles_pairStore
  have htext : ∀ p ∈ checkedFiles pairStore request (pure []), ∀ e, ¬ IsGarbled pairStore p e := by
    rw [hchecked]
    exact not_isGarbled_pairStore
  have hfirst : IsReported parse pairStore (pathTo "a.rb") := by
    have hsole : (parse dayText).IsSoleRange dayText "date.all_day" := by
      rw [show parse dayText = dayRange from parseOnly_self dayText dayRange]
      exact isSoleRange_dayRange
    refine (isReported_iff load_pairStore read_pairStore_first (readText_encode_eq _)).mpr ?_
    exact ne_of_eq_of_ne (hsole.analyze_eq parse .warning) (List.cons_ne_nil _ _)
  have hsecond : ¬ IsReported parse pairStore (pathTo "b.rb") := by
    refine mt (isReported_iff load_pairStore read_pairStore_second (readText_encode_eq _)).mp ?_
    rw [not_ne_iff]
    exact analyze_parseOnly_eq_nil (by decide) dayRange .warning
  obtain ⟨-, -, hmended, -⟩ := mending_changes_reported_files hwf htext
  obtain ⟨-, hread⟩ := hmended rfl
  rw [hchecked] at hread
  refine ⟨⟨hwf, htext⟩, ?_, ?_⟩
  · rw [← read_pairStore_first]
    exact (hread _ List.mem_cons_self).mpr hfirst
  · rw [← read_pairStore_second]
    have hmem : pathTo "b.rb" ∈ pairPaths := List.mem_cons_of_mem _ (List.mem_singleton_self _)
    exact not_ne_iff.mp (mt (hread _ hmem).mp hsecond)

end Check

end PeriodLint
