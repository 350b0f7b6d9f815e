import PeriodLint.Proofs.Rule.Reports
import PeriodLint.Proofs.Suppression.InForce

/-!
# What fixes leave alone

A directive that silences a rule on some lines silences it on all stretches
over these lines. A range that is fixed is not silenced, so it holds neither a
silenced range nor a comment with a directive for the rule.
-/

namespace PeriodLint

open Utf8

/-- A report on more lines is silenced whenever one on fewer lines is. -/
theorem Suppressions.silencesRule_mono {s : Suppressions} {ruleId : String}
    {line endLine line' endLine' : Int} (hline : line' ≤ line) (hend : endLine ≤ endLine')
    (h : s.silencesRule ruleId line endLine = true) :
    s.silencesRule ruleId line' endLine' = true := by
  simp only [silencesRule, Bool.or_eq_true, List.any_eq_true, Bool.and_eq_true,
    decide_eq_true_eq] at h ⊢
  refine h.imp_right ?_
  rintro ⟨⟨row, scope⟩, hmem, ⟨hfirst, hlast⟩, hcovers⟩
  exact ⟨⟨row, scope⟩, hmem, ⟨by omega, by omega⟩, hcovers⟩

theorem rowAt_mono (source : Bytes) {offset other : Nat} (h : offset ≤ other) :
    rowAt source offset ≤ rowAt source other := by
  have hprefix : source.take offset <+: source.take other := List.take_prefix_take_left h
  exact hprefix.sublist.count_le lineFeed

/-- An edit replaces the whole text of a node. -/
def Edit.Covers (cs : List Char) (e : Edit) (n : Node) : Prop :=
  e.start ≤ charsBefore cs n.start ∧ charsBefore cs n.stop ≤ e.stop

/-- What is silenced inside a node is silenced on the whole node. -/
theorem Suppressions.silencesRule_of_within {s : Suppressions} {source : Bytes} {ruleId : String}
    {m n : Node} (hn : n.Within m)
    (h : s.silencesRule ruleId (n.span source).line (n.span source).endLine = true) :
    s.silencesRule ruleId (m.span source).line (m.span source).endLine = true := by
  have hstart := rowAt_mono source hn.1
  have hstop := rowAt_mono source hn.2
  apply silencesRule_mono _ _ h
  · simp only [Node.span]
    omega
  · simp only [Node.span]
    omega

/-- A directive in a comment inside a node is in force on the whole node. -/
theorem Suppressions.silencesRule_of_holds {source : Bytes} {ruleId : String} {tree m c : Node}
    {d : Directive} (hapart : LinesApart source tree.preorder) (hc : c ∈ tree.preorder)
    (hle : c.start ≤ c.stop) (hin : c.Within m) (hd : c.Holds source d)
    (hcovers : d.scope.covers ruleId = true) :
    (ofTree source tree).silencesRule ruleId (m.span source).line (m.span source).endLine =
      true := by
  have hstart := rowAt_mono source hin.1
  have hstop := rowAt_mono source (Nat.le_trans hle hin.2)
  rw [silencesRule_iff hapart]
  refine ⟨d, rowAt source c.start + 1, ⟨c, hc, hd, rfl⟩, hcovers, Or.inr ?_⟩
  simp only [Node.span]
  omega

namespace Analysis

section Spared

variable {source : String} {tree m n : Node}

/-- The edit of a range covers only what lies inside the range. -/
theorem within_of_covers (hm : m.IsLocated source.toList) (hn : n.IsLocated source.toList)
    (h : (edit source m).Covers source.toList n) : n.Within m := by
  have hstart := charsBefore_lt_iff hn.start_mem hm.start_mem
  have hstop := charsBefore_lt_iff hm.stop_mem hn.stop_mem
  simp only [Edit.Covers, start_edit, stop_edit] at h
  constructor <;> omega

theorem not_silenced_of_mem_flagged {source : Bytes} (h : m ∈ flagged source tree) :
    ¬ (Suppressions.ofTree source tree).silencesRule Rule.wholePeriodId (m.span source).line
      (m.span source).endLine = true := by
  have hflag := (List.mem_filter.mp h).2
  rw [isFlagged, Bool.and_eq_true, Bool.not_eq_true'] at hflag
  rw [hflag.2]
  exact Bool.false_ne_true

end Spared

end Analysis

/-- No accepted edit of the library's own rule replaces a range on which the rule is silenced or a
comment with a directive that covers the rule. -/
theorem accepted_edits_spare_suppressions {parse : Parser} {source : String}
    (hwf : (parse source).IsWellFormed source.toList) (hok : (parse source).hasError = false)
    (hapart : Suppressions.LinesApart (encode source.toList) (parse source).preorder)
    (severity : Severity) :
    let bytes := encode source.toList
    let tree := parse source
    ∃ kept, Edit.accepted source.toList (analyze parse [.wholePeriod severity] source).value =
        .ok kept ∧
      ∀ e ∈ kept.value,
        (∀ n ∈ tree.ofKind "range", ∀ report, Rule.flag? severity bytes n = some report →
          (Suppressions.ofTree bytes tree).silences report = true →
            ¬ e.Covers source.toList n) ∧
        ∀ c ∈ tree.preorder, ∀ d, c.Holds bytes d → d.scope.covers Rule.wholePeriodId = true →
          ¬ e.Covers source.toList c := by
  intro bytes tree
  obtain ⟨kept, haccepted, hkept⟩ := Analysis.accepted_eq_ok hwf severity
  refine ⟨kept, by rw [analyze_eq_ofTree hok, haccepted], fun e he => ?_⟩
  rw [hkept] at he
  obtain ⟨m, hm, rfl⟩ := List.mem_map.mp he
  have hflagged := Analysis.mem_flagged_of_mem_outermost hm
  have hlocated := Analysis.isLocated_of_mem_flagged hwf hflagged
  constructor
  · intro n hn report hreport hsilenced hcovers
    obtain ⟨text, -, rfl⟩ := Option.map_eq_some_iff.mp hreport
    have hin := Analysis.within_of_covers hlocated
      (hwf.isLocated (Node.mem_ofKind_iff.mp hn).1) hcovers
    exact Analysis.not_silenced_of_mem_flagged hflagged
      (Suppressions.silencesRule_of_within hin hsilenced)
  · intro c hc d hd hscope hcovers
    have hclocated := hwf.isLocated hc
    have hin := Analysis.within_of_covers hlocated hclocated hcovers
    exact Analysis.not_silenced_of_mem_flagged hflagged
      (Suppressions.silencesRule_of_holds hapart hc hclocated.start_le_stop hin hd hscope)

/-! ## A silenced range beside one that is fixed -/

namespace Commented

theorem linesApart_tree : Suppressions.LinesApart (encode source.toList) tree.preorder := by
  apply Suppressions.linesApart_of_pairwise
  rw [comments_tree]
  decide

theorem holds_noqa : noqa.Holds (encode source.toList) ⟨false, .everyRule⟩ := by
  have htext : (noqa.text (encode source.toList)).toList = "# allday: noqa".toList := by
    decide +kernel
  exact Node.holds_of_toList_text rfl htext (by decide +kernel)

theorem flag?_day :
    Rule.flag? .hint (encode source.toList) day =
      some (Rule.report .hint (day.span (encode source.toList)) "x.all_day") := by
  rw [Rule.flag?, replacement?_day, Option.map_some]

theorem silences_day :
    (Suppressions.ofTree (encode source.toList) tree).silences
      (Rule.report .hint (day.span (encode source.toList)) "x.all_day") = true := by
  rw [suppressions_tree]
  decide +kernel

theorem flagged_tree_ne_nil : Analysis.flagged (encode source.toList) tree ≠ [] := by
  apply List.ne_nil_of_mem (a := week)
  rw [Analysis.flagged, ranges_tree, List.mem_filter]
  refine ⟨by simp, ?_⟩
  rw [Analysis.isFlagged, replacement?_week, suppressions_tree]
  decide +kernel

end Commented

/-- There is an edit to accept, and neither the silenced range nor its directive is replaced. -/
theorem accepted_edits_spare_suppressions_commented :
    let bytes := encode Commented.source.toList
    (Commented.tree.IsWellFormed Commented.source.toList ∧ Commented.tree.hasError = false ∧
        Suppressions.LinesApart bytes Commented.tree.preorder) ∧
      ∃ kept, Edit.accepted Commented.source.toList
          (analyze (fun _ => Commented.tree) [.wholePeriod .hint] Commented.source).value =
            .ok kept ∧
        kept.value ≠ [] ∧
        ∀ e ∈ kept.value, ¬ e.Covers Commented.source.toList Commented.day ∧
          ¬ e.Covers Commented.source.toList Commented.noqa := by
  intro bytes
  have hwf := Commented.isWellFormed_tree
  have hok := Commented.hasError_tree
  have hapart := Commented.linesApart_tree
  obtain ⟨kept, haccepted, hspared⟩ := @accepted_edits_spare_suppressions
    (fun _ => Commented.tree) Commented.source hwf hok hapart .hint
  refine ⟨⟨hwf, hok, hapart⟩, kept, haccepted, ?_, fun e he => ?_⟩
  · obtain ⟨other, hother, hvalue⟩ := Analysis.accepted_eq_ok hwf .hint
    rw [analyze_eq_ofTree hok, hother] at haccepted
    rw [← Except.ok.inj haccepted, hvalue]
    exact mt List.map_eq_nil_iff.mp (Analysis.outermost_ne_nil hwf Commented.flagged_tree_ne_nil)
  · obtain ⟨hranges, hcomments⟩ := hspared e he
    constructor
    · apply hranges Commented.day _ _ Commented.flag?_day Commented.silences_day
      rw [Commented.ranges_tree]
      exact List.mem_cons_self
    · refine hcomments Commented.noqa ?_ _ Commented.holds_noqa rfl
      have hmem : Commented.noqa ∈ Commented.tree.ofKind "comment" := by
        rw [Commented.comments_tree]
        exact List.mem_cons_self
      exact (Node.mem_ofKind_iff.mp hmem).1

end PeriodLint
