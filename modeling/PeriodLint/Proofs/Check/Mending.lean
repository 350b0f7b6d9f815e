import PeriodLint.Check.File
import PeriodLint.Proofs.Edit.AnyTree
import PeriodLint.Proofs.Edit.Pass

/-!
# Mending

Each pass of mending that changes a text is a step from it to the next text.
What mending leaves is reached by such steps, with its own diagnostics, and
either all passes were such steps or a further pass would change nothing. Under
the library's own rule every step makes the text shorter.
-/

namespace PeriodLint

open Utf8 Text

namespace Check

/-- The fixes of its diagnostics turn a text into another. -/
def Fixes (parse : Parser) (rules : List Rule) (source updated : String) : Prop :=
  ∃ fixed, applyFixes source (analyze parse rules source).value = .ok fixed ∧ fixed.value = updated

/-- A text comes out of another by so many passes that each change it. -/
inductive Mended (parse : Parser) (rules : List Rule) : Nat → String → String → Prop where
  | refl (source : String) : Mended parse rules 0 source source
  | step {n : Nat} {source updated final : String} (hfixes : Fixes parse rules source updated)
      (hchanged : updated ≠ source) (hrest : Mended parse rules n updated final) :
      Mended parse rules (n + 1) source final

section Steps

variable {parse : Parser} {rules : List Rule} {passes : Nat} {source updated : String}

theorem Fixes.unique {other : String} (h : Fixes parse rules source updated)
    (h' : Fixes parse rules source other) : updated = other := by
  obtain ⟨fixed, hfixed, hvalue⟩ := h
  obtain ⟨fixed', hfixed', hvalue'⟩ := h'
  rw [hfixed] at hfixed'
  rw [← hvalue, ← hvalue', Except.ok.inj hfixed']

theorem fixes_self_of_eq_nil (h : (analyze parse rules source).value = []) :
    Fixes parse rules source source := by
  have hkept : Edit.accepted source.toList [] = .ok (pure []) := by
    have hcandidates : Edit.candidates source.toList [] = .ok [] :=
      congrArg Except.ok List.mergeSort_nil
    rw [Edit.accepted, hcandidates]
    rfl
  obtain ⟨fixed, hfixed, hvalue⟩ := applyFixes_eq_ok hkept
  refine ⟨fixed, ?_, ?_⟩
  · rw [h]
    exact hfixed
  · rw [hvalue]
    exact String.ofList_toList

theorem mend_of_fixes_self (passes : Nat) (h : Fixes parse rules source source) :
    (mend parse rules passes source (analyze parse rules source).value).value =
      .ok (source, (analyze parse rules source).value) := by
  cases passes with
  | zero => rfl
  | succ passes =>
      obtain ⟨fixed, hfixed, hvalue⟩ := h
      rw [mend, hfixed]
      simp [hvalue]

theorem mend_of_fixes_ne (h : Fixes parse rules source updated) (hne : updated ≠ source) :
    (mend parse rules (passes + 1) source (analyze parse rules source).value).value =
      (mend parse rules passes updated (analyze parse rules updated).value).value := by
  obtain ⟨fixed, hfixed, hvalue⟩ := h
  rw [mend, hfixed]
  simp [hvalue, hne]

/-- The fixes of its diagnostics apply to a text or miss a line. -/
theorem exists_fixes_or_error (parse : Parser) (rules : List Rule) (source : String) :
    (∃ updated, Fixes parse rules source updated) ∨
      applyFixes source (analyze parse rules source).value = .error {} := by
  cases h : applyFixes source (analyze parse rules source).value with
  | error e => exact Or.inr rfl
  | ok fixed => exact Or.inl ⟨fixed.value, fixed, h, rfl⟩

/-- Mending leaves a text with its own diagnostics, either after all passes or where a further one
would change nothing. -/
theorem exists_mended_of_mend {final : String} {ds : List Diagnostic}
    (h : (mend parse rules passes source (analyze parse rules source).value).value =
      .ok (final, ds)) :
    ds = (analyze parse rules final).value ∧
      ∃ n ≤ passes, Mended parse rules n source final ∧
        (n = passes ∨ Fixes parse rules final final) := by
  induction passes generalizing source with
  | zero =>
      obtain ⟨rfl, rfl⟩ := Prod.mk.inj (Except.ok.inj h)
      exact ⟨rfl, 0, Nat.le_refl 0, Mended.refl source, Or.inl rfl⟩
  | succ passes ih =>
      rcases exists_fixes_or_error parse rules source with ⟨updated, hfixes⟩ | herror
      · by_cases hsame : updated = source
        · subst hsame
          rw [mend_of_fixes_self _ hfixes] at h
          obtain ⟨rfl, rfl⟩ := Prod.mk.inj (Except.ok.inj h)
          exact ⟨rfl, 0, Nat.zero_le _, Mended.refl updated, Or.inr hfixes⟩
        · rw [mend_of_fixes_ne hfixes hsame] at h
          obtain ⟨hds, n, hn, hmended, hend⟩ := ih h
          exact ⟨hds, n + 1, Nat.succ_le_succ hn, Mended.step hfixes hsame hmended,
            hend.imp_left (congrArg (· + 1))⟩
      · rw [mend, herror] at h
        cases h

/-- Mending leaves a text with nothing to report as it is. -/
theorem eq_of_examine_of_eq_nil {final : String} {ds : List Diagnostic}
    (h : (examine parse rules true source).value = .ok (final, ds))
    (hnil : (analyze parse rules source).value = []) : final = source := by
  have hstays := mend_of_fixes_self maxPasses (fixes_self_of_eq_nil hnil)
  exact (Prod.mk.inj (Except.ok.inj (h.symm.trans hstays))).1

/-- Whatever trees the parser delivers, mending with the library's own rule never fails. -/
theorem exists_mend_eq_ok (hrules : ∀ rule ∈ rules, rule.IsWholePeriod) (parse : Parser)
    (passes : Nat) (source : String) :
    ∃ outcome, (mend parse rules passes source (analyze parse rules source).value).value =
      .ok outcome := by
  induction passes generalizing source with
  | zero => exact ⟨_, rfl⟩
  | succ passes ih =>
      obtain ⟨fixed, hfixed⟩ := exists_applyFixes_analyze hrules parse source
      have hfixes : Fixes parse rules source fixed.value := ⟨fixed, hfixed, rfl⟩
      by_cases hsame : fixed.value = source
      · rw [hsame] at hfixes
        exact ⟨_, mend_of_fixes_self _ hfixes⟩
      · rw [mend_of_fixes_ne hfixes hsame]
        exact ih fixed.value

end Steps

/-! ## Mending under the library's own rule -/

section WholePeriod

variable {parse : Parser} {severity : Severity} {passes : Nat} {source : String}

/-- A source with something to report is followed by a shorter text. -/
theorem exists_fixes_shorter (hwf : (parse source).IsWellFormed source.toList)
    (hds : (analyze parse [.wholePeriod severity] source).value ≠ []) :
    ∃ updated, Fixes parse [.wholePeriod severity] source updated ∧
      updated.length < source.length := by
  cases hok : (parse source).hasError with
  | true => exact absurd (analyze_eq_nil hok _) hds
  | false =>
      rw [analyze_eq_ofTree hok] at hds
      obtain ⟨fixed, hfixed, hlt⟩ := Analysis.length_applyFixes_lt hwf hds
      refine ⟨fixed.value, ⟨fixed, ?_, rfl⟩, hlt⟩
      rw [analyze_eq_ofTree hok]
      exact hfixed

theorem Fixes.length_lt {updated : String} (hwf : (parse source).IsWellFormed source.toList)
    (h : Fixes parse [.wholePeriod severity] source updated) (hchanged : updated ≠ source) :
    updated.length < source.length := by
  have hds : (analyze parse [.wholePeriod severity] source).value ≠ [] := by
    intro hnil
    exact hchanged (h.unique (fixes_self_of_eq_nil hnil))
  obtain ⟨shorter, hfixes, hlt⟩ := exists_fixes_shorter hwf hds
  rwa [h.unique hfixes]

/-- Every pass takes at least one character away. -/
theorem Mended.length_add_le (hwf : ∀ source, (parse source).IsWellFormed source.toList) {n : Nat}
    {final : String} (h : Mended parse [.wholePeriod severity] n source final) :
    final.length + n ≤ source.length := by
  induction h with
  | refl source => exact Nat.le_refl _
  | step hfixes hchanged _ ih =>
      have hlt := hfixes.length_lt (hwf _) hchanged
      omega

/-- As every pass takes characters away, mending ends by itself with nothing left to report. -/
theorem exists_mend_eq_nil (hwf : ∀ source, (parse source).IsWellFormed source.toList)
    (severity : Severity) (source : String) :
    ∃ final, (analyze parse [.wholePeriod severity] final).value = [] ∧
      ∀ passes ≥ source.length,
        (mend parse [.wholePeriod severity] passes source
          (analyze parse [.wholePeriod severity] source).value).value = .ok (final, []) := by
  induction hlen : source.length using Nat.strongRecOn generalizing source with
  | ind length ih =>
      by_cases hds : (analyze parse [.wholePeriod severity] source).value = []
      · refine ⟨source, hds, fun passes _ => ?_⟩
        rw [mend_of_fixes_self passes (fixes_self_of_eq_nil hds), hds]
      · obtain ⟨updated, hfixes, hlt⟩ := exists_fixes_shorter (hwf source) hds
        obtain ⟨final, hfinal, hmend⟩ := ih updated.length (hlen ▸ hlt) updated rfl
        refine ⟨final, hfinal, fun passes hpasses => ?_⟩
        obtain ⟨passes, rfl⟩ := Nat.exists_eq_add_one_of_ne_zero (n := passes) (by omega)
        have hne : updated ≠ source := fun heq => Nat.lt_irrefl _ (heq ▸ hlt)
        rw [mend_of_fixes_ne hfixes hne]
        exact hmend passes (by omega)

theorem analyze_eq_nil_of_fixes_self (hwf : (parse source).IsWellFormed source.toList)
    (h : Fixes parse [.wholePeriod severity] source source) :
    (analyze parse [.wholePeriod severity] source).value = [] := by
  by_contra hds
  obtain ⟨updated, hfixes, hlt⟩ := exists_fixes_shorter hwf hds
  rw [hfixes.unique h] at hlt
  exact Nat.lt_irrefl _ hlt

/-- Mending changes exactly the texts with something to report. -/
theorem eq_iff_of_examine (hwf : ∀ source, (parse source).IsWellFormed source.toList)
    {final : String} {ds : List Diagnostic}
    (h : (examine parse [.wholePeriod severity] true source).value = .ok (final, ds)) :
    final = source ↔ (analyze parse [.wholePeriod severity] source).value = [] := by
  constructor
  · intro hsame
    obtain ⟨-, n, -, hmended, hend⟩ := exists_mended_of_mend h
    have hlen := hmended.length_add_le hwf
    rw [hsame] at hlen hend
    rcases hend with rfl | hself
    · -- All passes have changed the text, so it would have become shorter.
      exact absurd hlen (by simp [maxPasses])
    · exact analyze_eq_nil_of_fixes_self (hwf source) hself
  · intro hnil
    exact eq_of_examine_of_eq_nil h hnil

/-- A source with something to report has a first candidate, which is accepted. -/
theorem exists_first_accepted (hwf : (parse source).IsWellFormed source.toList)
    (hds : (analyze parse [.wholePeriod severity] source).value ≠ []) :
    let ds := (analyze parse [.wholePeriod severity] source).value
    ∃ first rest kept, Edit.candidates source.toList ds = .ok (first :: rest) ∧
      Edit.accepted source.toList ds = .ok kept ∧ kept.value.head? = some first := by
  cases hok : (parse source).hasError with
  | true => exact absurd (analyze_eq_nil hok _) hds
  | false =>
      rw [analyze_eq_ofTree hok, Analysis.ofTree_eq_map_flagged hwf] at hds
      have hcandidates := Analysis.candidates_eq_ok hwf severity
      have hne : ((Analysis.flagged (encode source.toList) (parse source)).map
          (Analysis.edit source)).mergeSort Edit.precedes ≠ [] := by
        rw [← List.length_pos_iff, List.length_mergeSort, List.length_map, List.length_pos_iff]
        exact mt (congrArg (List.map _)) hds
      obtain ⟨first, rest, hcons⟩ := List.exists_cons_of_ne_nil hne
      rw [hcons] at hcandidates
      obtain ⟨kept, haccepted, hhead⟩ := Edit.exists_accepted_of_candidates hcandidates
      rw [analyze_eq_ofTree hok]
      exact ⟨first, rest, kept, hcandidates, haccepted, hhead⟩

/-- A text that is examined and mended ends with nothing to report, or all passes changed it. -/
theorem exists_examine_eq_ok (hwf : ∀ source, (parse source).IsWellFormed source.toList)
    (severity : Severity) (source : String) :
    ∃ final ds n, (examine parse [.wholePeriod severity] true source).value = .ok (final, ds) ∧
      ds = (analyze parse [.wholePeriod severity] final).value ∧ n ≤ maxPasses ∧
      Mended parse [.wholePeriod severity] n source final ∧ (n < maxPasses → ds = []) := by
  have hrules : ∀ rule ∈ [Rule.wholePeriod severity], rule.IsWholePeriod :=
    List.forall_mem_singleton.mpr ⟨severity, rfl⟩
  obtain ⟨⟨final, ds⟩, hmend⟩ := exists_mend_eq_ok hrules parse maxPasses source
  obtain ⟨hds, n, hn, hmended, hend⟩ := exists_mended_of_mend hmend
  refine ⟨final, ds, n, hmend, hds, hn, hmended, fun hlt => ?_⟩
  have hself := hend.resolve_left (Nat.ne_of_lt hlt)
  rw [hds]
  exact analyze_eq_nil_of_fixes_self (hwf final) hself

end WholePeriod

/-! ## Files -/

section File

variable {parse : Parser} {rules : List Rule} {fix : Bool} {fs : FileStore} {path : Path}
  {bytes : Bytes} {source : String}

theorem file_of_read_error {e : FileError} (hread : fs.read path = .error e) :
    (file parse rules fix fs path).value =
      .ok { store := fs, error := some (e.message path.toString) } := by
  rw [file, hread]
  rfl

theorem file_of_text_error {e : Failure} (hread : fs.read path = .ok bytes)
    (htext : readText bytes = .error e) : (file parse rules fix fs path).value = .error e := by
  rw [file, hread]
  simp only [htext]
  rfl

theorem file_of_examine_error {e : Failure} (hread : fs.read path = .ok bytes)
    (htext : readText bytes = .ok source)
    (hexamine : (examine parse rules fix source).value = .error e) :
    (file parse rules fix fs path).value = .error e := by
  rw [file, hread]
  simp only [htext, Logged.value_bind, hexamine]
  rfl

theorem file_of_examine {final : String} {ds : List Diagnostic} (hread : fs.read path = .ok bytes)
    (htext : readText bytes = .ok source)
    (hexamine : (examine parse rules fix source).value = .ok (final, ds)) :
    (file parse rules fix fs path).value =
      .ok { store := (writeBack fs path source final).value, lines := ds.map (reportLine path) } := by
  rw [file, hread]
  simp only [htext, Logged.value_bind, hexamine]
  rfl

/-- A file can be read, and every pass of mending changes its text. -/
def UsesAllPasses (parse : Parser) (rules : List Rule) (fs : FileStore) (path : Path) : Prop :=
  ∃ bytes source final, fs.read path = .ok bytes ∧ readText bytes = .ok source ∧
    Mended parse rules maxPasses source final

/-- A file for which lines are left after mending has been changed by all passes. -/
theorem usesAllPasses_of_lines_ne_nil
    (hwf : ∀ source, (parse source).IsWellFormed source.toList) {severity : Severity}
    {one : FileOutcome} (hfile : (file parse [.wholePeriod severity] true fs path).value = .ok one)
    (hlines : one.lines ≠ []) : UsesAllPasses parse [.wholePeriod severity] fs path := by
  cases hread : fs.read path with
  | error e =>
      rw [file_of_read_error hread] at hfile
      obtain rfl := Except.ok.inj hfile
      exact absurd rfl hlines
  | ok bytes =>
      cases htext : readText bytes with
      | error e =>
          rw [file_of_text_error hread htext] at hfile
          cases hfile
      | ok source =>
          obtain ⟨final, ds, n, hexamine, -, hn, hmended, hnil⟩ :=
            exists_examine_eq_ok hwf severity source
          rw [file_of_examine hread htext hexamine] at hfile
          obtain rfl := Except.ok.inj hfile
          have hds : ds ≠ [] := mt (congrArg (List.map (reportLine path))) hlines
          obtain rfl := Nat.le_antisymm hn (Nat.le_of_not_lt (mt hnil hds))
          exact ⟨bytes, source, final, hread, htext, hmended⟩

end File

/-- Under the library's own rule mending goes on until nothing is left to report. Replacements are
shorter than what they replace and the first candidate is always accepted, so a source with
something to report becomes shorter. Mending would therefore end without a limit of passes, and with
the limit it leaves something to report only where every pass has changed the text. -/
theorem mending_ends_clean {parse : Parser}
    (hwf : ∀ source, (parse source).IsWellFormed source.toList) (severity : Severity) :
    let rules := [Rule.wholePeriod severity]
    (∀ source, ∀ n ∈ (parse source).ofKind "range", ∀ text,
      Rule.replacement? (encode source.toList) n = some text →
        text.length < (n.text (encode source.toList)).length) ∧
    (∀ source, let ds := (analyze parse rules source).value
      ds ≠ [] →
        (∃ first rest kept, Edit.candidates source.toList ds = .ok (first :: rest) ∧
          Edit.accepted source.toList ds = .ok kept ∧ kept.value.head? = some first) ∧
        ∃ fixed, applyFixes source ds = .ok fixed ∧ fixed.value.length < source.length) ∧
    (∀ source, ∃ final, (analyze parse rules final).value = [] ∧
      ∀ passes ≥ source.length,
        (mend parse rules passes source (analyze parse rules source).value).value =
          .ok (final, [])) ∧
    (∀ source, ∃ final ds n, (examine parse rules true source).value = .ok (final, ds) ∧
      ds = (analyze parse rules final).value ∧ n ≤ maxPasses ∧
      Mended parse rules n source final ∧ (n < maxPasses → ds = [])) ∧
    ∀ fs path one, (file parse rules true fs path).value = .ok one → one.lines ≠ [] →
      UsesAllPasses parse rules fs path := by
  intro rules
  refine ⟨?_, ?_, exists_mend_eq_nil hwf severity, exists_examine_eq_ok hwf severity, ?_⟩
  · intro source n hn text htext
    exact Rule.length_replacement?_lt ((hwf source).subtree (Node.mem_ofKind_iff.mp hn).1) htext
  · intro source ds hds
    obtain ⟨_, ⟨fixed, hfixed, rfl⟩, hlt⟩ := exists_fixes_shorter (hwf source) hds
    exact ⟨exists_first_accepted (hwf source) hds, fixed, hfixed, hlt⟩
  · intro fs path one hfile hlines
    exact usesAllPasses_of_lines_ne_nil hwf hfile hlines

/-- A parser that knows a single program. -/
def parseNested (source : String) : Node :=
  if source = Nested.source then Nested.tree else { kind := "program", start := 0, stop := 0 }

theorem mending_ends_clean_parseNested :
    (∀ source, (parseNested source).IsWellFormed source.toList) ∧
      ∃ final, (analyze parseNested [.wholePeriod .warning] final).value = [] ∧
        ∀ passes ≥ Nested.source.length,
          (mend parseNested [.wholePeriod .warning] passes Nested.source
            (analyze parseNested [.wholePeriod .warning] Nested.source).value).value =
              .ok (final, []) := by
  have hwf : ∀ source, (parseNested source).IsWellFormed source.toList := by
    intro source
    rw [parseNested]
    split
    · next h =>
        rw [h]
        exact Nested.isWellFormed_tree
    · intro n hn
      rw [Node.preorder_eq] at hn
      obtain rfl := List.mem_singleton.mp hn
      have hzero := zero_mem_boundaries source.toList
      exact ⟨⟨Nat.le_refl 0, hzero, hzero⟩, ⟨nofun, List.Pairwise.nil⟩⟩
  obtain ⟨-, -, hmend, -⟩ := mending_ends_clean hwf .warning
  exact ⟨hwf, hmend Nested.source⟩

end Check

end PeriodLint
