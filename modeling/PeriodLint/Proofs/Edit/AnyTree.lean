import PeriodLint.Analysis
import PeriodLint.Proofs.Edit.Selection
import PeriodLint.Proofs.Rule.Replacement

/-!
# Fixes on any tree

The library's own rule takes its spans and its replacements from the source, so
that even on a tree that does not fit the source its fixes can be applied. They
bring no carriage return into a source that has none.
-/

namespace PeriodLint

open Utf8 Text

theorem rowAt_encode_le (cs : List Char) (offset : Nat) :
    rowAt (encode cs) offset ≤ cs.count '\n' := by
  rw [rowAt, ← count_encode encodeChar_lineFeed]
  exact (List.take_sublist offset (encode cs)).count_le lineFeed

/-- Every node starts and stops on lines of the source. -/
theorem Node.hasLines_span (cs : List Char) (n : Node) : (n.span (encode cs)).HasLines cs := by
  have hstart := rowAt_encode_le cs n.start
  have hstop := rowAt_encode_le cs n.stop
  have hlines := length_lines cs
  constructor <;> simp only [Node.span] <;> omega

/-- Whether a rule is the library's own one, with any severity. -/
def Rule.IsWholePeriod (rule : Rule) : Prop := ∃ severity, rule = .wholePeriod severity

section Diagnostics

variable {parse : Parser} {rules : List Rule} {source : String} {d : Diagnostic}

theorem mem_reports_of_mem_analyze (h : d ∈ (analyze parse rules source).value) :
    d ∈ Analysis.reports rules (parse source) source := by
  rw [analyze] at h
  split at h
  · cases h
  · exact (List.mem_filter.mp (List.mem_mergeSort.mp h)).1

theorem exists_node_of_mem_analyze (hrules : ∀ rule ∈ rules, rule.IsWholePeriod)
    (h : d ∈ (analyze parse rules source).value) :
    ∃ severity, ∃ n ∈ (parse source).ofKind "range", ∃ text,
      Rule.replacement? (encode source.toList) n = some text ∧
        d = Rule.report severity (n.span (encode source.toList)) text := by
  obtain ⟨rule, hrule, hd⟩ := List.mem_flatMap.mp (mem_reports_of_mem_analyze h)
  obtain ⟨severity, rfl⟩ := hrules rule hrule
  obtain ⟨n, hn, text, htext, rfl⟩ := Rule.exists_node_of_mem_check hd
  exact ⟨severity, n, hn, text, htext, rfl⟩

/-- Where the tree has no ranges, nothing is reported. -/
theorem analyze_eq_nil_of_no_ranges (hrules : ∀ rule ∈ rules, rule.IsWholePeriod)
    (h : (parse source).ofKind "range" = []) : (analyze parse rules source).value = [] := by
  refine List.eq_nil_iff_forall_not_mem.mpr fun d hd => ?_
  obtain ⟨rule, hrule, hd⟩ := List.mem_flatMap.mp (mem_reports_of_mem_analyze hd)
  obtain ⟨severity, rfl⟩ := hrules rule hrule
  obtain ⟨n, hn, -⟩ := Rule.exists_node_of_mem_check hd
  rw [h] at hn
  cases hn

/-- Whatever tree the parser delivers, the fixes apply. -/
theorem exists_applyFixes_analyze (hrules : ∀ rule ∈ rules, rule.IsWholePeriod)
    (parse : Parser) (source : String) :
    ∃ fixed, applyFixes source (analyze parse rules source).value = .ok fixed := by
  refine exists_applyFixes_eq_ok fun d hd => ?_
  obtain ⟨severity, n, -, text, -, rfl⟩ := exists_node_of_mem_analyze hrules hd
  exact n.hasLines_span source.toList

end Diagnostics

/-! ## Carriage returns -/

theorem encodeChar_carriageReturn : String.utf8EncodeChar '\r' = [13] := rfl

section CarriageReturn

variable {cs : List Char} {source : String}

theorem Node.not_mem_text (h : '\r' ∉ cs) (n : Node) : '\r' ∉ (n.text (encode cs)).toList := by
  intro hmem
  rw [Node.text, String.toList_ofList] at hmem
  have hbyte := mem_of_mem_decodeLossy encodeChar_carriageReturn (by decide) hmem
  have hsource := List.mem_of_mem_take (List.mem_of_mem_drop hbyte)
  exact h ((mem_encode_iff encodeChar_carriageReturn).mp hsource)

theorem RangeExpr.mem_wholeCall_iff {c : Char} {receiver : String} {p : Period}
    (hc : c ∉ ("." ++ p.wholeMethod).toList) :
    c ∈ (wholeCall receiver p).toList ↔ c ∈ receiver.toList := by
  rw [wholeCall, String.append_assoc, String.toList_append, List.mem_append, or_iff_left hc]

theorem Node.not_mem_receiver (h : '\r' ∉ cs) {n : Node} {receiver : String}
    (hreceiver : (n.endpoint (encode cs)).receiver = some receiver) : '\r' ∉ receiver.toList := by
  rw [Node.endpoint] at hreceiver
  split at hreceiver
  · cases hreceiver
  · obtain rfl := Option.some.inj hreceiver
    exact Node.not_mem_text h _

theorem Node.not_mem_argument (h : '\r' ∉ cs) {n : Node} {arg : String}
    (harg : arg ∈ (n.endpoint (encode cs)).args) : '\r' ∉ arg.toList := by
  rw [Node.endpoint] at harg
  split at harg
  · cases harg
  · simp only [Node.argumentTexts] at harg
    split at harg
    · cases harg
    · obtain ⟨a, -, rfl⟩ := List.mem_map.mp harg
      exact Node.not_mem_text h a

theorem Rule.not_mem_replacement? (h : '\r' ∉ cs) {n : Node} {text : String}
    (htext : Rule.replacement? (encode cs) n = some text) : '\r' ∉ text.toList := by
  obtain ⟨a, b, receiver, p, -, hpair, htext⟩ := Rule.exists_endpoints_of_replacement? htext
  obtain ⟨⟨har, -⟩, -⟩ := Endpoint.pairing?_eq_some_iff.mp hpair
  have hcall : '\r' ∉ (RangeExpr.wholeCall receiver p).toList := by
    rw [RangeExpr.mem_wholeCall_iff (by cases p <;> decide)]
    exact Node.not_mem_receiver h har
  rcases htext with ⟨-, -, rfl⟩ | ⟨-, arg, hargs, -, rfl⟩
  · exact hcall
  · have harg : '\r' ∉ arg.toList :=
      Node.not_mem_argument h (n := a) (by rw [hargs]; exact List.mem_singleton_self arg)
    have hopen : '\r' ∉ ("(").toList := by decide
    have hclose : '\r' ∉ (")").toList := by decide
    simp only [String.toList_append, List.mem_append]
    tauto

/-- Edits bring in nothing but their texts. -/
theorem Edit.mem_of_mem_applyAll {c : Char} {es : List Edit} (h : c ∈ Edit.applyAll es cs) :
    c ∈ cs ∨ ∃ e ∈ es, c ∈ e.text.toList := by
  induction es with
  | nil => exact Or.inl h
  | cons e es ih =>
      have hrest : c ∈ Edit.applyAll es cs → c ∈ cs ∨ ∃ f ∈ e :: es, c ∈ f.text.toList := by
        intro hc
        exact (ih hc).imp_right fun ⟨f, hf, hcf⟩ => ⟨f, List.mem_cons_of_mem e hf, hcf⟩
      rw [Edit.applyAll, List.foldr_cons, Edit.apply, List.mem_append, List.mem_append] at h
      rcases h with (hbefore | htext) | hafter
      · exact hrest (List.mem_of_mem_take hbefore)
      · exact Or.inr ⟨e, List.mem_cons_self, htext⟩
      · exact hrest (List.mem_of_mem_drop hafter)

theorem Edit.text_of_ofSpan {starts : List Nat} {span : Span} {text : String} {e : Edit}
    (h : Edit.ofSpan starts span text = .ok e) : e.text = text := by
  rw [Edit.ofSpan] at h
  cases hstart : Edit.offset starts span.line span.col with
  | error err =>
      rw [hstart] at h
      cases h
  | ok start =>
      cases hstop : Edit.offset starts span.endLine span.endCol with
      | error err =>
          rw [hstart, hstop] at h
          cases h
      | ok stop =>
          rw [hstart, hstop] at h
          obtain rfl := Except.ok.inj h
          rfl

/-- The text of an accepted edit is a fix of some diagnostic. -/
theorem Edit.exists_fix_of_mem_accepted {ds : List Diagnostic} {kept : Logged (List Edit)}
    (h : Edit.accepted cs ds = .ok kept) {e : Edit} (he : e ∈ kept.value) :
    ∃ d ∈ ds, d.fix = some e.text := by
  obtain ⟨es, hreported, rfl⟩ := Edit.exists_reported_of_accepted h
  have hmem := List.mem_mergeSort.mp ((Edit.keepFrom_sublist none _).subset he)
  obtain ⟨d, hd, text, hfix, hspan⟩ := Edit.exists_diagnostic_of_mem_reported hreported hmem
  rw [Edit.text_of_ofSpan hspan]
  exact ⟨d, hd, hfix⟩

/-- A pass brings no carriage return into a source. -/
theorem not_mem_applyFixes {parse : Parser} {rules : List Rule}
    (hrules : ∀ rule ∈ rules, rule.IsWholePeriod) (h : '\r' ∉ source.toList)
    {fixed : Logged String}
    (hfixed : applyFixes source (analyze parse rules source).value = .ok fixed) :
    '\r' ∉ fixed.value.toList := by
  obtain ⟨kept, haccepted, hvalue⟩ := exists_accepted_of_applyFixes hfixed
  rw [hvalue, String.toList_ofList]
  intro hmem
  rcases Edit.mem_of_mem_applyAll hmem with hsource | ⟨e, he, htext⟩
  · exact h hsource
  · obtain ⟨d, hd, hfix⟩ := Edit.exists_fix_of_mem_accepted haccepted he
    obtain ⟨severity, n, -, text, hreplacement, rfl⟩ := exists_node_of_mem_analyze hrules hd
    obtain rfl := Option.some.inj hfix
    exact Rule.not_mem_replacement? h hreplacement htext

end CarriageReturn

end PeriodLint
