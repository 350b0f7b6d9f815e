import PeriodLint.Proofs.Edit.Pass
import PeriodLint.Proofs.Edit.Reported

/-!
# Rules in any order

Rules that run in another order report the same, and sorting leaves at most the
reports at one place in another order. Where the fixes of one stretch agree on
its text, the sorted edits do not depend on the order of the reports at all.
-/

namespace PeriodLint

open Text

namespace Edit

/-- The fixes of one stretch of a text put the same text in its place. -/
def FixesAgree (cs : List Char) (ds : List Diagnostic) : Prop :=
  ∀ es, reported cs ds = .ok es → ∀ a ∈ es, ∀ b ∈ es, a.stretch = b.stretch → a.text = b.text

section Permuted

variable {cs : List Char} {source : String} {ds ds' : List Diagnostic} {es : List Edit}

theorem exists_reported_of_perm (hperm : ds.Perm ds') (hes : reported cs ds = .ok es) :
    ∃ es', reported cs ds' = .ok es' ∧ es.Perm es' :=
  exists_mapM_eq_ok_of_perm (hperm.filterMap _) hes

theorem FixesAgree.eq_of_tied (h : FixesAgree cs ds) (hes : reported cs ds = .ok es) :
    ∀ a ∈ es, ∀ b ∈ es, tied precedes a b → a = b := by
  intro a ha b hb htied
  rw [tied_precedes, beq_iff_eq] at htied
  have htext := h es hes b hb a ha htied
  obtain ⟨hstart, hstop⟩ := stretch_eq_iff.mp htied
  rw [Edit.mk.injEq]
  exact ⟨hstart.symm, hstop.symm, htext.symm⟩

/-- Reports in another order lead to the same accepted edits. -/
theorem accepted_eq_of_perm (hperm : ds.Perm ds') (h : FixesAgree cs ds)
    (hes : reported cs ds = .ok es) : accepted cs ds = accepted cs ds' := by
  obtain ⟨es', hes', hpermEdits⟩ := exists_reported_of_perm hperm hes
  have hsorted : es.mergeSort precedes = es'.mergeSort precedes :=
    mergeSort_eq_of_perm precedes_trans precedes_total hpermEdits (h.eq_of_tied hes)
  rw [accepted_of_reported hes, accepted_of_reported hes', hsorted]

theorem exists_applyFixes_of_perm (hperm : ds.Perm ds')
    (hplaced : ∀ d ∈ ds, d.fix.isSome → d.span.IsPlaced source.toList)
    (h : FixesAgree source.toList ds) :
    ∃ fixed, applyFixes source ds = .ok fixed ∧ applyFixes source ds' = .ok fixed := by
  obtain ⟨es, hes⟩ := exists_reported_of_hasLines fun d hd hfix => (hplaced d hd hfix).hasLines
  obtain ⟨fixed, hfixed, -⟩ := applyFixes_eq_ok (accepted_of_reported hes)
  refine ⟨fixed, hfixed, ?_⟩
  rw [applyFixes] at hfixed ⊢
  rwa [← accepted_eq_of_perm hperm h hes]

end Permuted

end Edit

namespace Analysis

/-- The line and the column at which a report begins. -/
def place (d : Diagnostic) : Int × Int := (d.span.line, d.span.col)

/-- Two lists have the same reports, at most those at one place in another order. -/
structure SameUpToTies (ds ds' : List Diagnostic) : Prop where
  perm : ds.Perm ds'
  places_eq : ds.map place = ds'.map place

section Rules

variable {rules rules' : List Rule} {tree : Node} {source : String} {ds ds' : List Diagnostic}

/-- Sorted lists of the same reports differ at most at ties. -/
theorem sameUpToTies_of_perm (hperm : ds.Perm ds') (hds : ds.Pairwise (precedes · ·))
    (hds' : ds'.Pairwise (precedes · ·)) : SameUpToTies ds ds' := by
  refine ⟨hperm, ?_⟩
  have hplaces : ∀ {cs : List Diagnostic}, cs.Pairwise (precedes · ·) →
      (cs.map place).Pairwise fun p q => p.1 < q.1 ∨ p.1 = q.1 ∧ p.2 ≤ q.2 := by
    intro cs hcs
    rw [List.pairwise_map]
    exact hcs.imp precedes_iff.mp
  apply List.Perm.eq_of_pairwise _ (hplaces hds) (hplaces hds') (hperm.map place)
  rintro ⟨line, col⟩ ⟨line', col'⟩ - - hle hge
  rw [Prod.mk.injEq]
  omega

theorem pairwise_ofTree (rules : List Rule) (tree : Node) (source : String) :
    (ofTree rules tree source).Pairwise (precedes · ·) :=
  List.pairwise_mergeSort precedes_trans precedes_total _

theorem perm_ofTree (hrules : rules.Perm rules') :
    (ofTree rules tree source).Perm (ofTree rules' tree source) := by
  have hreports : (reports rules tree source).Perm (reports rules' tree source) :=
    hrules.flatMap_right _
  exact ((List.mergeSort_perm _ _).trans (hreports.filter _)).trans (List.mergeSort_perm _ _).symm

/-- The order of the rules decides at most the order of the reports at one place. -/
theorem sameUpToTies_analyze (hrules : rules.Perm rules') (parse : Parser) (source : String) :
    SameUpToTies (analyze parse rules source).value (analyze parse rules' source).value := by
  cases herror : (parse source).hasError with
  | true =>
      rw [analyze_eq_nil herror, analyze_eq_nil herror]
      exact ⟨List.Perm.refl _, rfl⟩
  | false =>
      rw [analyze_eq_ofTree herror, analyze_eq_ofTree herror]
      exact sameUpToTies_of_perm (perm_ofTree hrules) (pairwise_ofTree rules _ source)
        (pairwise_ofTree rules' _ source)

end Rules

end Analysis

/-- The order in which fixes are reported makes no difference to the text, provided that they name
places in it and that those of one stretch agree. So neither does the order of the rules, which
decides at most in which order the reports at one place come. -/
theorem order_makes_no_difference (source : String) :
    (∀ ds ds' : List Diagnostic, ds.Perm ds' →
      (∀ d ∈ ds, d.fix.isSome → d.span.IsPlaced source.toList) →
      Edit.FixesAgree source.toList ds →
        ∃ fixed, applyFixes source ds = .ok fixed ∧ applyFixes source ds' = .ok fixed) ∧
    ∀ (parse : Parser) (rules rules' : List Rule), rules.Perm rules' →
      let ds := (analyze parse rules source).value
      let ds' := (analyze parse rules' source).value
      Analysis.SameUpToTies ds ds' ∧
        ((∀ d ∈ ds, d.fix.isSome → d.span.IsPlaced source.toList) →
          Edit.FixesAgree source.toList ds →
            ∃ fixed, applyFixes source ds = .ok fixed ∧ applyFixes source ds' = .ok fixed) := by
  constructor
  · intro ds ds' hperm hplaced hagree
    exact Edit.exists_applyFixes_of_perm hperm hplaced hagree
  · intro parse rules rules' hrules ds ds'
    have hsame := Analysis.sameUpToTies_analyze hrules parse source
    exact ⟨hsame, fun hplaced hagree =>
      Edit.exists_applyFixes_of_perm hsame.perm hplaced hagree⟩

/-! ## Two rules that report the same range -/

namespace Tied

/-- A rule that mends the range as the library's own does, and the name on the next line. -/
def otherRule : Rule := .plain "X1" fun _ _ =>
  [⟨"X1", "day", .warning, ⟨1, 0, 1, 38⟩, some "date.all_day"⟩,
    ⟨"X1", "name", .error, ⟨2, 0, 2, 1⟩, some "y"⟩]

/-- What both rules report, the library's own first. -/
def reports : List Diagnostic :=
  Rule.report .hint ⟨1, 0, 1, 38⟩ "date.all_day" :: otherRule.check dayRange dayText

theorem analyze_eq :
    (analyze (fun _ => dayRange) [.wholePeriod .hint, otherRule] dayText).value = reports := by
  have hspan : dayRange.span (Utf8.encode dayText.toList) = ⟨1, 0, 1, 38⟩ := by decide +kernel
  have hreports : Analysis.reports [.wholePeriod .hint, otherRule] dayRange dayText = reports := by
    rw [Analysis.reports, List.flatMap_cons, List.flatMap_singleton,
      isSoleRange_dayRange.check_eq, hspan]
    rfl
  rw [analyze_eq_ofTree isSoleRange_dayRange.hasError, isSoleRange_dayRange.ofTree_eq_mergeSort,
    hreports]
  exact List.mergeSort_of_pairwise (by decide)

theorem reported_reports : Edit.reported dayText.toList reports =
    .ok [⟨0, 38, "date.all_day"⟩, ⟨0, 38, "date.all_day"⟩, ⟨39, 40, "y"⟩] := by
  decide

theorem value_of_applyFixes {fixed : Logged String}
    (h : applyFixes dayText reports = .ok fixed) : fixed.value = "date.all_day\ny = 1\n" := by
  have haccepted := Edit.accepted_of_reported reported_reports
  rw [List.mergeSort_of_pairwise (by decide)] at haccepted
  obtain ⟨fixed', hfixed, hvalue⟩ := applyFixes_eq_ok haccepted
  rw [h] at hfixed
  obtain rfl := Except.ok.inj hfixed
  rw [hvalue]
  decide

end Tied

theorem order_makes_no_difference_tied :
    let rules := [.wholePeriod .hint, Tied.otherRule]
    let rules' := [Tied.otherRule, .wholePeriod .hint]
    let ds := (analyze (fun _ => dayRange) rules dayText).value
    let ds' := (analyze (fun _ => dayRange) rules' dayText).value
    rules.Perm rules' ∧ (∀ d ∈ ds, d.fix.isSome → d.span.IsPlaced dayText.toList) ∧
      Edit.FixesAgree dayText.toList ds ∧ ds = Tied.reports ∧ Analysis.SameUpToTies ds ds' ∧
        ∃ fixed, applyFixes dayText ds = .ok fixed ∧ applyFixes dayText ds' = .ok fixed ∧
          fixed.value = "date.all_day\ny = 1\n" := by
  intro rules rules' ds ds'
  have hrules : rules.Perm rules' := List.Perm.swap _ _ _
  have hds : ds = Tied.reports := Tied.analyze_eq
  have hplaced : ∀ d ∈ ds, d.fix.isSome → d.span.IsPlaced dayText.toList := by
    rw [hds]
    decide
  have hagree : Edit.FixesAgree dayText.toList ds := by
    intro es hes
    rw [hds, Tied.reported_reports] at hes
    obtain rfl := Except.ok.inj hes
    decide
  obtain ⟨-, hruns⟩ := order_makes_no_difference dayText
  obtain ⟨hsame, hfixes⟩ := hruns (fun _ => dayRange) rules rules' hrules
  obtain ⟨fixed, hfixed, hfixed'⟩ := hfixes hplaced hagree
  refine ⟨hrules, hplaced, hagree, hds, hsame, fixed, hfixed, hfixed', ?_⟩
  exact Tied.value_of_applyFixes (hds ▸ hfixed)

end PeriodLint
