import PeriodLint.Proofs.Edit.Pass

/-!
# Which ranges are reported

A range amounts to a call for a whole period when its endpoints bound the period
and pass the same. The library's own rule reports just these ranges, and the
analysis of a well-formed tree keeps their order.
-/

namespace PeriodLint

open Utf8

namespace Node

/-- The endpoints ask receivers of one text for the first and the last instant of a period. -/
def Bounds (source : Bytes) (first last : Node) (receiver : String) (p : Period) : Prop :=
  ∃ r m r' m', first.Sends r m ∧ last.Sends r' m' ∧
    r.text source = receiver ∧ r'.text source = receiver ∧
    m.text source = p.beginMethod ∧ m'.text source = p.endMethod

/-- A range amounts to a call for the whole period that its endpoints bound. Either nothing is
passed, or the period is a week and both endpoints pass one argument of the same text. -/
def AmountsTo (source : Bytes) (n : Node) (text : String) : Prop :=
  ∃ first last receiver p, n.Joins first last ∧ Bounds source first last receiver p ∧
    (first.Passes [] ∧ last.Passes [] ∧ text = RangeExpr.wholeCall receiver p ∨
      p = .week ∧ ∃ a b, first.Passes [a] ∧ last.Passes [b] ∧ a.text source = b.text source ∧
        text = RangeExpr.wholeCall receiver p ++ "(" ++ a.text source ++ ")")

/-! ## The texts of the endpoints -/

theorem endpoint_eq {n receiver method : Node} (h : n.Sends receiver method) (source : Bytes) :
    n.endpoint source =
      ⟨some (receiver.text source), some (method.text source), n.argumentTexts source⟩ := by
  rw [endpoint, plainCall?_eq_some_iff.mpr h]

theorem exists_sends_of_receiver {source : Bytes} {n : Node} {receiver : String}
    (h : (n.endpoint source).receiver = some receiver) : ∃ r m, n.Sends r m := by
  rw [endpoint] at h
  split at h
  · cases h
  · next r m hcall => exact ⟨r, m, plainCall?_eq_some_iff.mp hcall⟩

theorem bounds_iff {source : Bytes} {first last : Node} {receiver : String} {p : Period} :
    Bounds source first last receiver p ↔
      (first.endpoint source).pairing? (last.endpoint source) = some (receiver, p) := by
  rw [Endpoint.pairing?_eq_some_iff]
  constructor
  · rintro ⟨r, m, r', m', hfirst, hlast, hr, hr', hm, hm'⟩
    rw [endpoint_eq hfirst, endpoint_eq hlast, hr, hr', hm, hm']
    exact ⟨⟨rfl, rfl⟩, rfl, rfl⟩
  · rintro ⟨⟨hr, hm⟩, hr', hm'⟩
    obtain ⟨r, m, hfirst⟩ := exists_sends_of_receiver hr
    obtain ⟨r', m', hlast⟩ := exists_sends_of_receiver hr'
    rw [endpoint_eq hfirst] at hr hm
    rw [endpoint_eq hlast] at hr' hm'
    exact ⟨r, m, r', m', hfirst, hlast, Option.some.inj hr, Option.some.inj hr',
      Option.some.inj hm, Option.some.inj hm'⟩

theorem passes_nil_iff {source : Bytes} {n : Node} :
    n.Passes [] ↔ n.argumentTexts source = [] := by
  rw [argumentTexts_eq_iff]
  simp

theorem passes_singleton_iff {source : Bytes} {n : Node} {text : String} :
    (∃ a, n.Passes [a] ∧ a.text source = text) ↔ n.argumentTexts source = [text] := by
  rw [argumentTexts_eq_iff]
  constructor
  · rintro ⟨a, hpasses, rfl⟩
    exact ⟨[a], hpasses, rfl⟩
  · rintro ⟨args, hpasses, htexts⟩
    obtain ⟨a, rfl, rfl⟩ := List.map_eq_singleton_iff.mp htexts
    exact ⟨a, hpasses, rfl⟩

end Node

namespace Rule

/-- A range has a replacement exactly when it has the form, and then the text that it amounts to. -/
theorem replacement?_eq_some_iff {source : Bytes} {n : Node} {text : String} :
    replacement? source n = some text ↔ n.AmountsTo source text := by
  constructor
  · intro h
    have hrange := (Option.ite_none_right_eq_some.mp h).1
    obtain ⟨first, last, receiver, p, hends, hpair, hargs⟩ := exists_endpoints_of_replacement? h
    have hbounds := Node.bounds_iff.mpr hpair
    have ⟨_, _, _, _, hfirst, hlast, _⟩ := hbounds
    rw [Node.endpoint_eq hfirst, Node.endpoint_eq hlast] at hargs
    refine ⟨first, last, receiver, p, Node.joins_iff.mpr ⟨eq_of_beq hrange, hends⟩, hbounds, ?_⟩
    rcases hargs with ⟨hf, hl, rfl⟩ | ⟨rfl, arg, hf, hl, rfl⟩
    · exact Or.inl ⟨Node.passes_nil_iff.mpr hf, Node.passes_nil_iff.mpr hl, rfl⟩
    · obtain ⟨a, ha, rfl⟩ := Node.passes_singleton_iff.mpr hf
      obtain ⟨b, hb, hab⟩ := Node.passes_singleton_iff.mpr hl
      exact Or.inr ⟨rfl, a, b, ha, hb, hab.symm, rfl⟩
  · rintro ⟨first, last, receiver, p, hjoins, hbounds, hargs⟩
    obtain ⟨hrange, hends⟩ := Node.joins_iff.mp hjoins
    have ⟨_, _, _, _, hfirst, hlast, _⟩ := hbounds
    have hpair := Node.bounds_iff.mp hbounds
    rw [replacement?, if_pos (by simp [hrange]), RangeExpr.replacement?_eq_some_iff]
    have hexpr : n.rangeExpr source =
        ⟨some (first.endpoint source), some (last.endpoint source)⟩ := by
      rw [Node.rangeExpr, hends]
      rfl
    rw [hexpr]
    refine ⟨first.endpoint source, last.endpoint source, receiver, p, rfl, rfl, hpair, ?_⟩
    rw [Node.endpoint_eq hfirst, Node.endpoint_eq hlast]
    rcases hargs with ⟨hf, hl, rfl⟩ | ⟨rfl, a, b, ha, hb, hab, rfl⟩
    · exact Or.inl ⟨Node.passes_nil_iff.mp hf, Node.passes_nil_iff.mp hl, rfl⟩
    · exact Or.inr ⟨rfl, a.text source, Node.passes_singleton_iff.mp ⟨a, ha, rfl⟩,
        Node.passes_singleton_iff.mp ⟨b, hb, hab.symm⟩, rfl⟩

instance (source : Bytes) (n : Node) : Decidable (∃ text, n.AmountsTo source text) :=
  decidable_of_iff ((replacement? source n).isSome = true) <| by
    simp only [Option.isSome_iff_exists, replacement?_eq_some_iff]

/-- One report for each node that amounts to a text, in the order of the nodes. -/
theorem forall₂_filterMap_flag? (severity : Severity) (source : Bytes) (ns : List Node) :
    List.Forall₂
      (fun n d => ∃ text, n.AmountsTo source text ∧ d = report severity (n.span source) text)
      (ns.filter fun n => ∃ text, n.AmountsTo source text)
      (ns.filterMap (flag? severity source)) := by
  induction ns with
  | nil => exact List.Forall₂.nil
  | cons n ns ih =>
      cases h : replacement? source n with
      | none =>
          have hflag : flag? severity source n = none := by rw [flag?, h, Option.map_none]
          have hnot : ¬ ∃ text, n.AmountsTo source text := by
            rintro ⟨text, htext⟩
            rw [replacement?_eq_some_iff.mpr htext] at h
            cases h
          rw [List.filterMap_cons_none hflag, List.filter_cons_of_neg (by simpa using hnot)]
          exact ih
      | some text =>
          have hflag : flag? severity source n = some (report severity (n.span source) text) := by
            rw [flag?, h, Option.map_some]
          have htext := replacement?_eq_some_iff.mp h
          have hform : ∃ text, n.AmountsTo source text := ⟨text, htext⟩
          rw [List.filterMap_cons_some hflag, List.filter_cons_of_pos (by simpa using hform)]
          exact List.Forall₂.cons ⟨text, htext, rfl⟩ ih

end Rule

/-- The library's own rule reports exactly the ranges that amount to a call, each with its span and
the call, in the order of the tree. On a well-formed tree the analysis keeps this order and drops
what is silenced. -/
theorem check_reports_amounting_ranges (severity : Severity) (source : String) (tree : Node) :
    let bytes := encode source.toList
    let ds := (Rule.wholePeriod severity).check tree source
    List.Forall₂
        (fun n d => ∃ text, n.AmountsTo bytes text ∧ d = Rule.report severity (n.span bytes) text)
        (tree.preorder.filter fun n => n.kind = "range" ∧ ∃ text, n.AmountsTo bytes text) ds ∧
      ∀ parse : Parser, parse source = tree → tree.hasError = false →
        tree.IsWellFormed source.toList →
        (analyze parse [.wholePeriod severity] source).value =
          ds.filter (!(Suppressions.ofTree bytes tree).silences ·) := by
  intro bytes ds
  constructor
  · have hranges :
        (tree.preorder.filter fun n => n.kind = "range" ∧ ∃ text, n.AmountsTo bytes text) =
          (tree.ofKind "range").filter fun n => ∃ text, n.AmountsTo bytes text := by
      rw [Node.ofKind, Node.walk_eq_preorder, List.filter_filter]
      apply List.filter_congr
      intro n _
      rw [Bool.decide_and, Bool.and_comm]
      rfl
    rw [hranges]
    exact Rule.forall₂_filterMap_flag? severity bytes (tree.ofKind "range")
  · rintro parse rfl hok hwf
    rw [analyze_eq_ofTree hok, Analysis.ofTree_eq_map_flagged hwf, Analysis.flagged,
      ← Analysis.filter_filterMap_flag?]
    rfl

/-! ## A silenced range and a commented one -/

namespace Commented

/-- A call with one argument of one character added. -/
def passing (call : Node) : Node :=
  { call with
    stop := call.stop + 3
    children := call.children ++ [
      { kind := "argument_list", start := call.stop, stop := call.stop + 3
        field := some "arguments"
        children := [
          { kind := "(", start := call.stop, stop := call.stop + 1, named := false },
          { kind := "integer", start := call.stop + 1, stop := call.stop + 2 },
          { kind := ")", start := call.stop + 2, stop := call.stop + 3, named := false }] }] }

def source : String :=
  "x.beginning_of_day..x.end_of_day # allday: noqa\n" ++
    "[é.beginning_of_week(1).. # from\né.end_of_week(1)]"

def noqa : Node := { kind := "comment", start := 33, stop := 47 }

def remark : Node := { kind := "comment", start := 75, stop := 81 }

/-- The range on the line of the directive. -/
def day : Node :=
  Nested.range (Nested.send { kind := "identifier", start := 0, stop := 1 } 16)
    (Nested.send { kind := "identifier", start := 20, stop := 21 } 10)

/-- The range with a comment behind its operator. -/
def week : Node where
  kind := "range"
  start := 49
  stop := 99
  children := [
    passing (Nested.send { kind := "identifier", start := 49, stop := 51 } 17),
    { kind := "..", start := 72, stop := 74, named := false },
    remark,
    passing (Nested.send { kind := "identifier", start := 82, stop := 84 } 11)]

def tree : Node where
  kind := "program"
  start := 0
  stop := 100
  children := [
    day,
    noqa,
    { kind := "array", start := 48, stop := 100
      children := [
        { kind := "[", start := 48, stop := 49, named := false },
        week,
        { kind := "]", start := 99, stop := 100, named := false }] }]

theorem replacement?_day : Rule.replacement? (encode source.toList) day = some "x.all_day" := by
  have hexpr : day.rangeExpr (encode source.toList) =
      ⟨some ⟨some "x", some "beginning_of_day", []⟩, some ⟨some "x", some "end_of_day", []⟩⟩ := by
    decide +kernel
  rw [Rule.replacement?, hexpr]
  decide

theorem replacement?_week :
    Rule.replacement? (encode source.toList) week = some "é.all_week(1)" := by
  have hexpr : week.rangeExpr (encode source.toList) =
      ⟨some ⟨some "é", some "beginning_of_week", ["1"]⟩,
        some ⟨some "é", some "end_of_week", ["1"]⟩⟩ := by
    decide +kernel
  rw [Rule.replacement?, hexpr]
  decide

theorem ranges_tree : tree.ofKind "range" = [day, week] := by
  rw [Node.ofKind_eq]
  rfl

theorem check_tree :
    (Rule.wholePeriod .hint).check tree source =
      [Rule.report .hint (day.span (encode source.toList)) "x.all_day",
        Rule.report .hint (week.span (encode source.toList)) "é.all_week(1)"] := by
  rw [Rule.check, ranges_tree]
  simp only [List.filterMap_cons, List.filterMap_nil, Rule.flag?, replacement?_day,
    replacement?_week, Option.map_some]

theorem comments_tree : tree.ofKind "comment" = [noqa, remark] := by
  rw [Node.ofKind_eq]
  rfl

theorem suppressions_tree :
    Suppressions.ofTree (encode source.toList) tree = ⟨[], [(1, .everyRule)]⟩ := by
  have hnoqa : Directive.ofComment? (noqa.text (encode source.toList)).toList =
      some ⟨false, .everyRule⟩ := by
    decide +kernel
  have hremark : Directive.ofComment? (remark.text (encode source.toList)).toList = none := by
    decide +kernel
  have hrow : rowAt (encode source.toList) noqa.start = 0 := by
    decide +kernel
  rw [Suppressions.ofTree, comments_tree, List.foldl_cons, List.foldl_cons, List.foldl_nil,
    Suppressions.addComment, Suppressions.addComment, hnoqa, hremark, hrow]
  rfl

/-- The directive is on the line of the first range and on none of the second. -/
theorem filter_check_tree :
    ((Rule.wholePeriod .hint).check tree source).filter
        (!(Suppressions.ofTree (encode source.toList) tree).silences ·) =
      [Rule.report .hint (week.span (encode source.toList)) "é.all_week(1)"] := by
  rw [check_tree, suppressions_tree, List.filter_cons_of_neg (by decide +kernel),
    List.filter_cons_of_pos (by decide +kernel), List.filter_nil]

theorem isWellFormed_tree : tree.IsWellFormed source.toList := by decide +kernel

theorem hasError_tree : tree.hasError = false := by
  rw [Node.hasError, Node.walk_eq_preorder]
  decide

end Commented

theorem check_reports_amounting_ranges_commented :
    (Commented.tree.hasError = false ∧ Commented.tree.IsWellFormed Commented.source.toList) ∧
      (analyze (fun _ => Commented.tree) [.wholePeriod .hint] Commented.source).value =
        [Rule.report .hint (Commented.week.span (encode Commented.source.toList))
          "é.all_week(1)"] := by
  have hok := Commented.hasError_tree
  have hwf := Commented.isWellFormed_tree
  obtain ⟨-, hanalyze⟩ := check_reports_amounting_ranges .hint Commented.source Commented.tree
  refine ⟨⟨hok, hwf⟩, ?_⟩
  rw [hanalyze (fun _ => Commented.tree) rfl hok hwf, Commented.filter_check_tree]

end PeriodLint
