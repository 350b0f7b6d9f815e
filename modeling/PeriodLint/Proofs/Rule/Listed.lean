import PeriodLint.Proofs.Rule.AnyOrder
import PeriodLint.Proofs.Rule.Reports

/-!
# What an analysis lists

An analysis lists the reports of the rules that no directive silences, each as
often as it was made, by line and column. The reports at one place stand in the
order of their rules, and those of one rule in the order in which it made them.
Only one list meets all this.
-/

namespace PeriodLint

open Utf8

namespace Analysis

/-- A directive of the source silences a report. -/
def isSilenced (tree : Node) (source : String) (d : Diagnostic) : Bool :=
  (Suppressions.ofTree (encode source.toList) tree).silences d

/-- The reports that some rules make on a tree and no directive silences are listed by place. Where
several begin at one place, those of an earlier rule come first, and those of one rule as it made
them. -/
structure Lists (rules : List Rule) (tree : Node) (source : String) (ds : List Diagnostic) :
    Prop where
  perm : ds.Perm ((rules.flatMap fun rule => rule.check tree source).filter
    fun d => !isSilenced tree source d)
  sorted : ds.Pairwise fun a b =>
    a.span.line < b.span.line ∨ a.span.line = b.span.line ∧ a.span.col ≤ b.span.col
  ties : ∀ p, ds.filter (place · == p) = rules.flatMap fun rule =>
    (rule.check tree source).filter fun d => place d == p && !isSilenced tree source d

theorem tied_precedes (a : Diagnostic) : tied precedes a = fun d => place d == place a := by
  funext d
  rw [Bool.eq_iff_iff, tied_iff, precedes_iff, precedes_iff, beq_iff_eq, place, place,
    Prod.mk.injEq]
  omega

/-- At every place some report can begin. -/
theorem exists_place_eq (p : Int × Int) : ∃ d, place d = p :=
  ⟨⟨"", "", .hint, ⟨p.1, p.2, p.1, p.2⟩, none⟩, rfl⟩

/-- Sorting keeps the order of the reports at one place. -/
theorem filter_place_mergeSort (p : Int × Int) (ds : List Diagnostic) :
    (ds.mergeSort precedes).filter (place · == p) = ds.filter (place · == p) := by
  obtain ⟨a, rfl⟩ := exists_place_eq p
  rw [← tied_precedes]
  exact filter_tied_mergeSort precedes_trans precedes_total a ds

section Listed

variable {rules : List Rule} {tree : Node} {source : String} {ds ds' : List Diagnostic}

theorem lists_ofTree (rules : List Rule) (tree : Node) (source : String) :
    Lists rules tree source (ofTree rules tree source) where
  perm := List.mergeSort_perm _ _
  sorted := (pairwise_ofTree rules tree source).imp precedes_iff.mp
  ties := by
    intro p
    rw [ofTree, filter_place_mergeSort, List.filter_filter, reports, List.filter_flatMap]
    rfl

/-- A list by place is determined by what it lists at each place. -/
theorem Lists.unique (h : Lists rules tree source ds) (h' : Lists rules tree source ds') :
    ds = ds' := by
  refine eq_of_filter_tied_eq precedes_total (h.sorted.imp precedes_iff.mpr)
    (h'.sorted.imp precedes_iff.mpr) fun a => ?_
  rw [tied_precedes, h.ties, h'.ties]

end Listed

end Analysis

/-- The analysis of an error-free tree lists the reports that no directive silences by place, those
at one place in the order of the rules and of their reports, and no other list does. -/
theorem analysis_lists_unsilenced_reports (parse : Parser) (rules : List Rule) (source : String)
    (hok : (parse source).hasError = false) :
    let ds := (analyze parse rules source).value
    Analysis.Lists rules (parse source) source ds ∧
      ∀ ds', Analysis.Lists rules (parse source) source ds' → ds' = ds := by
  intro ds
  have hlists : Analysis.Lists rules (parse source) source ds := by
    have hds : ds = Analysis.ofTree rules (parse source) source := analyze_eq_ofTree hok rules
    rw [hds]
    exact Analysis.lists_ofTree rules (parse source) source
  exact ⟨hlists, fun ds' h => h.unique hlists⟩

/-! ## Two rules that report at one place -/

namespace Listed

/-- A report of another rule from a line and a column to a last line. -/
def remark (message : String) (line col endLine : Int) : Diagnostic :=
  ⟨"X1", message, .warning, ⟨line, col, endLine, 99⟩, none⟩

/-- A rule that reports from the back, and among others a stretch that begins on the line of the
directive. -/
def otherRule : Rule := .plain "X1" fun _ _ =>
  [remark "second" 3 0 3, remark "first" 2 1 3, remark "silenced" 1 5 2, remark "again" 2 1 2]

/-- What is listed: both reports of the other rule where the range begins, and then the range. -/
def listed : List Diagnostic :=
  [remark "first" 2 1 3, remark "again" 2 1 2,
    Rule.report .hint (Commented.week.span (encode Commented.source.toList)) "é.all_week(1)",
    remark "second" 3 0 3]

theorem isSilenced_eq (d : Diagnostic) :
    Analysis.isSilenced Commented.tree Commented.source d =
      (d.span.line ≤ 1 && 1 ≤ d.span.endLine) := by
  rw [Analysis.isSilenced, Commented.suppressions_tree]
  simp [Suppressions.silences, Suppressions.silencesRule, Scope.covers]

theorem span_week : Commented.week.span (encode Commented.source.toList) = ⟨2, 1, 3, 16⟩ := by
  decide +kernel

theorem span_day : Commented.day.span (encode Commented.source.toList) = ⟨1, 0, 1, 32⟩ := by
  decide +kernel

theorem lists_listed :
    Analysis.Lists [otherRule, .wholePeriod .hint] Commented.tree Commented.source listed := by
  constructor
  case perm =>
    simp only [List.flatMap_cons, List.flatMap_nil, Commented.check_tree, isSilenced_eq, listed,
      span_day, span_week]
    decide
  case sorted =>
    rw [listed, span_week]
    decide
  case ties =>
    intro p
    simp only [List.flatMap_cons, List.flatMap_nil, Commented.check_tree, isSilenced_eq, listed,
      span_day, span_week]
    by_cases hweek : (2, 1) = p
    · subst hweek
      decide
    · by_cases hsecond : (3, 0) = p
      · subst hsecond
        decide
      · simp [Analysis.place, Rule.report, otherRule, remark, hweek, hsecond]

end Listed

theorem analysis_lists_unsilenced_reports_tied :
    Commented.tree.hasError = false ∧
      (analyze (fun _ => Commented.tree) [Listed.otherRule, .wholePeriod .hint]
        Commented.source).value = Listed.listed := by
  have hok := Commented.hasError_tree
  obtain ⟨-, honly⟩ := analysis_lists_unsilenced_reports (fun _ => Commented.tree)
    [Listed.otherRule, .wholePeriod .hint] Commented.source hok
  exact ⟨hok, (honly Listed.listed Listed.lists_listed).symm⟩

end PeriodLint
