import PeriodLint.Analysis
import PeriodLint.Proofs.Edit.Selection
import PeriodLint.Proofs.Edit.Weave
import PeriodLint.Proofs.Rule.Replacement

/-!
# One pass of fixes

The reports of the library's own rule on a well-formed tree come in the order of
the walk, so their edits need no sorting, and the edits that are kept are those
of the flagged ranges that no other flagged range encloses. A pass replaces just
these.
-/

namespace PeriodLint

open Utf8 Text

/-- One node covers the whole of another and more. -/
def Node.Encloses (outer inner : Node) : Prop :=
  inner.Within outer ∧ (outer.start < inner.start ∨ inner.stop < outer.stop)

instance (outer inner : Node) : Decidable (outer.Encloses inner) :=
  inferInstanceAs (Decidable (_ ∧ _))

namespace Analysis

/-- A range is flagged when it has a replacement and no directive silences the rule on it. -/
def isFlagged (source : Bytes) (tree n : Node) : Bool :=
  (Rule.replacement? source n).isSome &&
    !(Suppressions.ofTree source tree).silencesRule Rule.wholePeriodId (n.span source).line
      (n.span source).endLine

/-- The flagged ranges of a tree, in the order of the walk. -/
def flagged (source : Bytes) (tree : Node) : List Node :=
  (tree.ofKind "range").filter (isFlagged source tree)

/-- The flagged ranges that lie inside no other flagged range. -/
def outermost (source : Bytes) (tree : Node) : List Node :=
  (flagged source tree).filter fun n => ∀ m ∈ flagged source tree, ¬ m.Encloses n

/-- The text that should stand for a range, which is empty if there is none. -/
def proposal (source : Bytes) (n : Node) : String := (Rule.replacement? source n).getD ""

/-- The stretch of a range and what should stand in its place. -/
def patch (source : Bytes) (n : Node) : Patch Char := ⟨n.start, n.stop, (proposal source n).toList⟩

section Flagged

variable {source : Bytes} {tree n : Node}

theorem replacement?_of_mem_flagged (h : n ∈ flagged source tree) :
    Rule.replacement? source n = some (proposal source n) := by
  have hflag := (List.mem_filter.mp h).2
  rw [isFlagged, Bool.and_eq_true, Option.isSome_iff_exists] at hflag
  obtain ⟨⟨text, htext⟩, -⟩ := hflag
  rw [proposal, htext, Option.getD_some]

theorem mem_preorder_of_mem_flagged (h : n ∈ flagged source tree) : n ∈ tree.preorder :=
  (Node.mem_ofKind_iff.mp (List.mem_filter.mp h).1).1

/-- What is reported and not silenced, one report for each flagged range. -/
theorem filter_filterMap_flag? (severity : Severity) (ns : List Node) :
    ((ns.filterMap (Rule.flag? severity source)).filter
        (!(Suppressions.ofTree source tree).silences ·)) =
      (ns.filter (isFlagged source tree)).map fun n =>
        Rule.report severity (n.span source) (proposal source n) := by
  induction ns with
  | nil => rfl
  | cons n ns ih =>
      cases h : Rule.replacement? source n with
      | none =>
          have hflag : Rule.flag? severity source n = none := by rw [Rule.flag?, h, Option.map_none]
          have hnot : isFlagged source tree n = false := by simp [isFlagged, h]
          rw [List.filterMap_cons_none hflag, List.filter_cons_of_neg (by simp [hnot]), ih]
      | some text =>
          have hflag : Rule.flag? severity source n =
              some (Rule.report severity (n.span source) (proposal source n)) := by
            rw [Rule.flag?, h, proposal, h, Option.getD_some, Option.map_some]
          have hkeep : isFlagged source tree n = !(Suppressions.ofTree source tree).silences
              (Rule.report severity (n.span source) (proposal source n)) := by
            rw [isFlagged, h, Option.isSome_some, Bool.true_and]
            rfl
          cases hn : isFlagged source tree n with
          | false =>
              rw [List.filterMap_cons_some hflag, List.filter_cons_of_neg (by simp [← hkeep, hn]),
                List.filter_cons_of_neg (by simp [hn]), ih]
          | true =>
              rw [List.filterMap_cons_some hflag, List.filter_cons_of_pos (by rw [← hkeep, hn]),
                List.filter_cons_of_pos hn, ih, List.map_cons]

end Flagged

section WellFormed

variable {source : String} {tree n : Node}

theorem isLocated_of_mem_flagged (h : tree.IsWellFormed source.toList)
    (hn : n ∈ flagged (encode source.toList) tree) : n.IsLocated source.toList :=
  h.isLocated (mem_preorder_of_mem_flagged hn)

/-- The replacement of a flagged range is shorter than its text. -/
theorem length_proposal_lt (h : tree.IsWellFormed source.toList)
    (hn : n ∈ flagged (encode source.toList) tree) :
    (proposal (encode source.toList) n).length < n.width source.toList := by
  have hmem := mem_preorder_of_mem_flagged hn
  rw [← (h.isLocated hmem).length_text]
  exact Rule.length_replacement?_lt (h.subtree hmem) (replacement?_of_mem_flagged hn)

theorem start_lt_stop_of_mem_flagged (h : tree.IsWellFormed source.toList)
    (hn : n ∈ flagged (encode source.toList) tree) : n.start < n.stop :=
  (isLocated_of_mem_flagged h hn).start_lt_stop (Nat.zero_lt_of_lt (length_proposal_lt h hn))

/-- The later of two flagged ranges is enclosed by the earlier one or lies behind it. -/
theorem pairwise_flagged (h : tree.IsWellFormed source.toList) :
    (flagged (encode source.toList) tree).Pairwise fun a b => a.Encloses b ∨ a.stop ≤ b.start := by
  have hsub : (flagged (encode source.toList) tree).Sublist tree.preorder := by
    rw [← Node.walk_eq_preorder]
    exact List.filter_sublist.trans List.filter_sublist
  refine (h.pairwise_preorder.sublist hsub).imp_of_mem fun {a b} ha _ hab => ?_
  rcases hab with ⟨c, hc, hbc⟩ | hbehind
  · have hmem := mem_preorder_of_mem_flagged ha
    have hwf := h.subtree hmem
    have hca := hwf.isNested_self.inside c hc
    have hnot := Rule.not_within_child_of_replacement? hwf (replacement?_of_mem_flagged ha) hc
    refine Or.inl ⟨hbc.trans hca, ?_⟩
    obtain ⟨hstart, hstop⟩ := hbc
    by_contra hspan
    exact hnot ⟨by omega, by omega⟩
  · exact Or.inr hbehind

theorem pairwise_precedes_reports (h : tree.IsWellFormed source.toList) (severity : Severity) :
    ((flagged (encode source.toList) tree).map fun n =>
      Rule.report severity (n.span (encode source.toList))
        (proposal (encode source.toList) n)).Pairwise (precedes · ·) := by
  rw [List.pairwise_map]
  refine (pairwise_flagged h).imp_of_mem fun {a b} ha hb hab => ?_
  have hle : a.start ≤ b.start := by
    have := (isLocated_of_mem_flagged h ha).start_le_stop
    rcases hab with hin | hbehind
    · exact hin.1.1
    · omega
  have hpos := position_mono (isLocated_of_mem_flagged h ha).start_mem
    (isLocated_of_mem_flagged h hb).start_mem hle
  simp only [precedes, Rule.report, Node.span, Bool.or_eq_true, Bool.and_eq_true, beq_iff_eq]
  rcases hpos with hrow | ⟨hrow, hcol⟩
  · exact Or.inl (decide_eq_true (by omega))
  · exact Or.inr ⟨by omega, decide_eq_true (by omega)⟩

/-- The analysis reports the flagged ranges in the order of the walk. -/
theorem ofTree_eq_map_flagged (h : tree.IsWellFormed source.toList) (severity : Severity) :
    ofTree [.wholePeriod severity] tree source =
      (flagged (encode source.toList) tree).map fun n =>
        Rule.report severity (n.span (encode source.toList)) (proposal (encode source.toList) n) := by
  have hreports : reports [.wholePeriod severity] tree source =
      (tree.ofKind "range").filterMap (Rule.flag? severity (encode source.toList)) := by
    simp [reports, Rule.check]
  rw [ofTree, hreports, filter_filterMap_flag?]
  exact List.mergeSort_of_pairwise (pairwise_precedes_reports h severity)

/-! ## The edits of a pass -/

/-- The edit of a range, in characters. -/
def edit (source : String) (n : Node) : Edit :=
  ((patch (encode source.toList) n).chars source.toList).toEdit

theorem ofSpan_eq_edit (h : n.IsLocated source.toList) :
    Edit.ofSpan (lineStarts source.toList) (n.span (encode source.toList))
      (proposal (encode source.toList) n) = .ok (edit source n) := by
  rw [h.ofSpan_span, edit, Patch.toEdit, Patch.chars, patch, String.ofList_toList]

theorem candidates_eq_ok (h : tree.IsWellFormed source.toList) (severity : Severity) :
    Edit.candidates source.toList (ofTree [.wholePeriod severity] tree source) =
      .ok (((flagged (encode source.toList) tree).map (edit source)).mergeSort Edit.precedes) := by
  have hproposals : Edit.proposals (ofTree [.wholePeriod severity] tree source) =
      (flagged (encode source.toList) tree).map fun n =>
        (n.span (encode source.toList), proposal (encode source.toList) n) := by
    rw [ofTree_eq_map_flagged h, Edit.proposals, List.filterMap_map, ← List.filterMap_eq_map]
    rfl
  have hedits : ((flagged (encode source.toList) tree).map fun n =>
        (n.span (encode source.toList), proposal (encode source.toList) n)).mapM
          (fun p => Edit.ofSpan (lineStarts source.toList) p.1 p.2) =
      .ok ((flagged (encode source.toList) tree).map (edit source)) := by
    rw [List.mapM_map]
    exact mapM_eq_ok fun n hn => ofSpan_eq_edit (isLocated_of_mem_flagged h hn)
  rw [Edit.candidates, hproposals, hedits]
  rfl

theorem start_edit (n : Node) : (edit source n).start = charsBefore source.toList n.start := rfl

theorem stop_edit (n : Node) : (edit source n).stop = charsBefore source.toList n.stop := rfl

/-- Edits enclose each other as their ranges do. -/
theorem encloses_edit_iff {m : Node} (hm : m.IsLocated source.toList)
    (hn : n.IsLocated source.toList) :
    (edit source m).Encloses (edit source n) ↔ m.Encloses n := by
  have hstart := charsBefore_lt_iff hm.start_mem hn.start_mem
  have hstart' := charsBefore_lt_iff hn.start_mem hm.start_mem
  have hstop := charsBefore_lt_iff hm.stop_mem hn.stop_mem
  have hstop' := charsBefore_lt_iff hn.stop_mem hm.stop_mem
  simp only [Edit.Encloses, Node.Encloses, Node.Within, start_edit, stop_edit]
  omega

theorem areNested_edits (h : tree.IsWellFormed source.toList) :
    Edit.AreNested ((flagged (encode source.toList) tree).map (edit source)) := by
  constructor
  · intro e he
    obtain ⟨n, hn, rfl⟩ := List.mem_map.mp he
    have hlocated := isLocated_of_mem_flagged h hn
    have hlt := (charsBefore_lt_iff hlocated.start_mem hlocated.stop_mem).mpr
      (start_lt_stop_of_mem_flagged h hn)
    rw [start_edit, stop_edit]
    omega
  · rw [List.pairwise_map]
    refine (pairwise_flagged h).imp_of_mem fun {a b} ha hb hab => ?_
    rcases hab with hin | hbehind
    · exact Or.inl ((encloses_edit_iff (isLocated_of_mem_flagged h ha)
        (isLocated_of_mem_flagged h hb)).mpr hin)
    · have := charsBefore_mono source.toList hbehind
      rw [stop_edit, start_edit]
      exact Or.inr (by omega)

/-- The kept edits are those of the outermost flagged ranges. -/
theorem accepted_eq_ok (h : tree.IsWellFormed source.toList) (severity : Severity) :
    ∃ kept, Edit.accepted source.toList (ofTree [.wholePeriod severity] tree source) = .ok kept ∧
      kept.value = (outermost (encode source.toList) tree).map (edit source) := by
  have hnested := areNested_edits h
  have hsorted : ((flagged (encode source.toList) tree).map (edit source)).Pairwise
      (Edit.precedes · ·) := by
    refine hnested.inside_or_behind.imp_of_mem fun {a b} ha _ hab => ?_
    have hpos := hnested.start_lt_stop a ha
    simp only [Edit.precedes, Bool.or_eq_true, Bool.and_eq_true, beq_iff_eq]
    rcases hab with ⟨hstart, hstop, -⟩ | hbehind
    · rcases Int.lt_or_eq_of_le hstart with hlt | heq
      · exact Or.inl (decide_eq_true hlt)
      · exact Or.inr ⟨heq, decide_eq_true hstop⟩
    · exact Or.inl (decide_eq_true (by omega))
  have hkept : Edit.accepted source.toList (ofTree [.wholePeriod severity] tree source) =
      .ok (Edit.keepFrom none ((flagged (encode source.toList) tree).map (edit source))) := by
    rw [Edit.accepted, candidates_eq_ok h, List.mergeSort_of_pairwise hsorted]
    rfl
  refine ⟨_, hkept, ?_⟩
  rw [Edit.keepFrom_none_eq_filter hnested, List.filter_map, outermost]
  congr 1
  apply List.filter_congr
  intro n hn
  rw [Function.comp_apply, decide_eq_decide, Edit.IsOutermost, List.forall_mem_map]
  have hlocated := isLocated_of_mem_flagged h hn
  exact forall₂_congr fun m hm =>
    not_congr (encloses_edit_iff (isLocated_of_mem_flagged h hm) hlocated)

/-! ## The text after a pass -/

theorem mem_flagged_of_mem_outermost {bytes : Bytes} (h : n ∈ outermost bytes tree) :
    n ∈ flagged bytes tree :=
  (List.mem_filter.mp h).1

theorem pairwise_outermost (h : tree.IsWellFormed source.toList) :
    (outermost (encode source.toList) tree).Pairwise fun a b => a.stop ≤ b.start := by
  refine ((pairwise_flagged h).sublist List.filter_sublist).imp_of_mem fun {a b} ha hb hab => ?_
  have hout := of_decide_eq_true (List.mem_filter.mp hb).2
  exact hab.resolve_left (hout a (mem_flagged_of_mem_outermost ha))

/-- No flagged range encloses the one that is reported first. -/
theorem outermost_ne_nil (h : tree.IsWellFormed source.toList)
    (hne : flagged (encode source.toList) tree ≠ []) :
    outermost (encode source.toList) tree ≠ [] := by
  obtain ⟨n, ns, hcons⟩ := List.exists_cons_of_ne_nil hne
  have hmem : n ∈ flagged (encode source.toList) tree := by
    rw [hcons]
    exact List.mem_cons_self
  have hpos := start_lt_stop_of_mem_flagged h hmem
  have hpair := pairwise_flagged h
  rw [hcons, List.pairwise_cons] at hpair
  refine List.ne_nil_of_mem (List.mem_filter.mpr ⟨hmem, decide_eq_true fun m hm => ?_⟩)
  rw [hcons] at hm
  rintro ⟨⟨hstart, hstop⟩, hlt⟩
  rcases List.mem_cons.mp hm with rfl | hm
  · omega
  · rcases hpair.1 m hm with ⟨⟨hstart', hstop'⟩, -⟩ | hbehind
    · omega
    · omega

/-- The outermost flagged ranges follow one another in the source. -/
theorem follow_outermost (h : tree.IsWellFormed source.toList) :
    Follow (encode source.toList).length 0
      ((outermost (encode source.toList) tree).map (patch (encode source.toList))) := by
  apply follow_of_pairwise _ (Nat.zero_le _) (List.pairwise_map.mpr (pairwise_outermost h))
  rw [List.forall_mem_map]
  intro n hn
  have hlocated := isLocated_of_mem_flagged h (mem_flagged_of_mem_outermost hn)
  exact ⟨Nat.zero_le _, hlocated.start_le_stop, le_length_encode hlocated.stop_mem⟩

theorem isLocated_of_mem_patches (h : tree.IsWellFormed source.toList) :
    ∀ p ∈ (outermost (encode source.toList) tree).map (patch (encode source.toList)),
      p.IsLocated source.toList := by
  intro p hp
  obtain ⟨n, hn, rfl⟩ := List.mem_map.mp hp
  have hlocated := isLocated_of_mem_flagged h (mem_flagged_of_mem_outermost hn)
  exact ⟨hlocated.start_mem, hlocated.stop_mem⟩

theorem follow_chars_outermost (h : tree.IsWellFormed source.toList) :
    Follow source.toList.length 0
      (((outermost (encode source.toList) tree).map (patch (encode source.toList))).map
        (Patch.chars source.toList)) := by
  have hfollow := (follow_outermost h).chars (zero_mem_boundaries source.toList)
    (isLocated_of_mem_patches h)
  rwa [charsBefore_zero] at hfollow

/-- A pass weaves the source and the replacements of the outermost flagged ranges together. -/
theorem applyFixes_ofTree (h : tree.IsWellFormed source.toList) (severity : Severity) :
    ∃ fixed, applyFixes source (ofTree [.wholePeriod severity] tree source) = .ok fixed ∧
      fixed.value.toList = weave source.toList 0
        (((outermost (encode source.toList) tree).map (patch (encode source.toList))).map
          (Patch.chars source.toList)) := by
  obtain ⟨kept, haccepted, hkept⟩ := accepted_eq_ok h severity
  have hedits : kept.value = (((outermost (encode source.toList) tree).map
      (patch (encode source.toList))).map (Patch.chars source.toList)).map Patch.toEdit := by
    rw [hkept, List.map_map, List.map_map]
    rfl
  obtain ⟨fixed, hfixed, hvalue⟩ := applyFixes_eq_ok haccepted
  refine ⟨fixed, hfixed, ?_⟩
  rw [hvalue, String.toList_ofList, hedits, Edit.applyAll_eq_weave (follow_chars_outermost h),
    List.take_zero, List.nil_append]

/-- A pass over a source with something to report leaves fewer characters. -/
theorem length_applyFixes_lt (h : tree.IsWellFormed source.toList) {severity : Severity}
    (hne : ofTree [.wholePeriod severity] tree source ≠ []) :
    ∃ fixed, applyFixes source (ofTree [.wholePeriod severity] tree source) = .ok fixed ∧
      fixed.value.length < source.length := by
  obtain ⟨fixed, hfixed, hvalue⟩ := applyFixes_ofTree h severity
  rw [ofTree_eq_map_flagged h] at hne
  have hpos := List.length_pos_iff.mpr (outermost_ne_nil h (mt (congrArg (List.map _)) hne))
  have hle := length_weave_le (follow_chars_outermost h) <| by
    simp only [List.forall_mem_map]
    exact fun n hn => length_proposal_lt h (mem_flagged_of_mem_outermost hn)
  rw [← hvalue, List.length_map, List.length_map, String.length_toList, String.length_toList] at hle
  exact ⟨fixed, hfixed, by omega⟩

end WellFormed

end Analysis

theorem analyze_eq_ofTree {parse : Parser} {source : String}
    (hok : (parse source).hasError = false) (rules : List Rule) :
    (analyze parse rules source).value = Analysis.ofTree rules (parse source) source := by
  rw [analyze, hok]
  rfl

theorem analyze_eq_nil {parse : Parser} {source : String}
    (herror : (parse source).hasError = true) (rules : List Rule) :
    (analyze parse rules source).value = [] := by
  rw [analyze, herror]
  rfl

/-- A pass of the library's own rule over a source with a well-formed tree. The flagged ranges are
reported, no two of them cover the same stretch, the kept edits are those of the outermost ones, and
what comes out is the source with each of these replaced and everything else kept. -/
theorem applyFixes_analyze_eq_weave {parse : Parser} {source : String}
    (hwf : (parse source).IsWellFormed source.toList) (hok : (parse source).hasError = false)
    (severity : Severity) :
    let bytes := encode source.toList
    let ds := (analyze parse [.wholePeriod severity] source).value
    let flagged := Analysis.flagged bytes (parse source)
    let outermost := Analysis.outermost bytes (parse source)
    (ds = flagged.map fun n =>
        Rule.report severity (n.span bytes) (Analysis.proposal bytes n)) ∧
      flagged.Pairwise (fun a b => (a.start, a.stop) ≠ (b.start, b.stop)) ∧
      (∃ kept, Edit.accepted source.toList ds = .ok kept ∧
        kept.value = outermost.map (Analysis.edit source)) ∧
      (∀ n ∈ flagged, Rule.replacement? bytes n = some (Analysis.proposal bytes n)) ∧
      Follow bytes.length 0 (outermost.map (Analysis.patch bytes)) ∧
      ∃ fixed, applyFixes source ds = .ok fixed ∧
        encode fixed.value.toList =
          weave bytes 0 ((outermost.map (Analysis.patch bytes)).map Patch.bytes) := by
  intro bytes ds flagged outermost
  have hds : ds = Analysis.ofTree [.wholePeriod severity] (parse source) source :=
    analyze_eq_ofTree hok _
  have hfollow := Analysis.follow_outermost hwf
  have hdistinct : flagged.Pairwise fun a b => (a.start, a.stop) ≠ (b.start, b.stop) := by
    refine (Analysis.pairwise_flagged hwf).imp_of_mem fun {a b} _ hb hab heq => ?_
    obtain ⟨hstart, hstop⟩ := Prod.mk.inj heq
    have hpos := Analysis.start_lt_stop_of_mem_flagged hwf hb
    rcases hab with ⟨-, hlt⟩ | hbehind
    · omega
    · omega
  obtain ⟨fixed, hfixed, hvalue⟩ := Analysis.applyFixes_ofTree hwf severity
  have hbytes := encode_weave hfollow (zero_mem_boundaries source.toList)
    (Analysis.isLocated_of_mem_patches hwf)
  rw [charsBefore_zero] at hbytes
  rw [hds]
  refine ⟨Analysis.ofTree_eq_map_flagged hwf severity, hdistinct, Analysis.accepted_eq_ok hwf severity,
    fun n hn => Analysis.replacement?_of_mem_flagged hn, hfollow, fixed, hfixed, ?_⟩
  rw [hvalue]
  exact hbytes

/-! ## Ranges inside a range -/

namespace Nested

/-- A call without arguments on a receiver, given how long the name of the method is. -/
def send (receiver : Node) (length : Nat) : Node where
  kind := "call"
  start := receiver.start
  stop := receiver.stop + 1 + length
  children := [
    { receiver with field := some "receiver" },
    { kind := ".", start := receiver.stop, stop := receiver.stop + 1, named := false },
    { kind := "identifier", start := receiver.stop + 1, stop := receiver.stop + 1 + length
      field := some "method" }]

/-- The range between two endpoints with nothing but the operator between them. -/
def range (first last : Node) : Node where
  kind := "range"
  start := first.start
  stop := last.stop
  children := [first, { kind := "..", start := first.stop, stop := last.start, named := false }, last]

/-- A day in brackets that starts at an offset. -/
def day (start : Nat) : Node where
  kind := "parenthesized_statements"
  start := start
  stop := start + 36
  children := [
    { kind := "(", start := start, stop := start + 1, named := false },
    range (send { kind := "identifier", start := start + 1, stop := start + 3 } 16)
      (send { kind := "identifier", start := start + 22, stop := start + 24 } 10),
    { kind := ")", start := start + 35, stop := start + 36, named := false }]

/-- A range whose endpoints have ranges for receivers. -/
def source : String :=
  let day := "(é.beginning_of_day..é.end_of_day)"
  day ++ ".beginning_of_month.." ++ day ++ ".end_of_month"

def tree : Node := range (send (day 0) 18) (send (day 57) 12)

theorem isWellFormed_tree : tree.IsWellFormed source.toList := by decide

end Nested

theorem applyFixes_nested :
    (Nested.tree.IsWellFormed Nested.source.toList ∧ Nested.tree.hasError = false) ∧
      ∃ fixed, applyFixes Nested.source
          (analyze (fun _ => Nested.tree) [.wholePeriod .warning] Nested.source).value = .ok fixed ∧
        encode fixed.value.toList = weave (encode Nested.source.toList) 0
          (((Analysis.outermost (encode Nested.source.toList) Nested.tree).map
            (Analysis.patch (encode Nested.source.toList))).map Patch.bytes) := by
  have hwf := Nested.isWellFormed_tree
  have hok : Nested.tree.hasError = false := by
    rw [Node.hasError, Node.walk_eq_preorder]
    decide
  obtain ⟨-, -, -, -, -, hfixed⟩ :=
    @applyFixes_analyze_eq_weave (fun _ => Nested.tree) Nested.source hwf hok .warning
  exact ⟨⟨hwf, hok⟩, hfixed⟩

/-! ## Sources with a single range -/

/-- A tree is a range with a replacement and holds no other range, no comment and no error. -/
structure Node.IsSoleRange (tree : Node) (source replacement : String) : Prop where
  isWellFormed : tree.IsWellFormed source.toList
  hasError : tree.hasError = false
  ofKind_range : tree.ofKind "range" = [tree]
  ofKind_comment : tree.ofKind "comment" = []
  replacement?_eq : Rule.replacement? (encode source.toList) tree = some replacement

namespace Node.IsSoleRange

variable {source replacement : String}

theorem ofTree_eq_mergeSort {tree : Node} (h : tree.IsSoleRange source replacement)
    (rules : List Rule) :
    Analysis.ofTree rules tree source =
      (Analysis.reports rules tree source).mergeSort Analysis.precedes := by
  rw [Analysis.ofTree, Suppressions.ofTree, h.ofKind_comment]
  simp [Suppressions.silences, Suppressions.silencesRule]

theorem check_eq {tree : Node} (h : tree.IsSoleRange source replacement) (severity : Severity) :
    (Rule.wholePeriod severity).check tree source =
      [Rule.report severity (tree.span (encode source.toList)) replacement] := by
  rw [Rule.check, h.ofKind_range]
  simp [Rule.flag?, h.replacement?_eq]

theorem analyze_eq (parse : Parser) (h : (parse source).IsSoleRange source replacement)
    (severity : Severity) :
    (analyze parse [.wholePeriod severity] source).value =
      [Rule.report severity ((parse source).span (encode source.toList)) replacement] := by
  rw [analyze_eq_ofTree h.hasError, h.ofTree_eq_mergeSort, Analysis.reports, List.flatMap_singleton,
    h.check_eq, List.mergeSort_singleton]

theorem outermost_eq {tree : Node} (h : tree.IsSoleRange source replacement) :
    Analysis.outermost (encode source.toList) tree = [tree] := by
  have hflagged : Analysis.flagged (encode source.toList) tree = [tree] := by
    rw [Analysis.flagged, h.ofKind_range, List.filter_singleton, Analysis.isFlagged,
      h.replacement?_eq, Suppressions.ofTree, h.ofKind_comment]
    rfl
  have hself : ¬ tree.Encloses tree := by
    rintro ⟨-, hlt⟩
    omega
  rw [Analysis.outermost, hflagged, List.filter_singleton]
  simp [hself]

end Node.IsSoleRange

/-- The nodes of a small tree are found by listing them. -/
theorem Node.isSoleRange_of_preorder {tree : Node} {source replacement : String}
    (hwf : tree.IsWellFormed source.toList) (hok : tree.preorder.any Node.isFault = false)
    (hranges : tree.preorder.filter (·.kind == "range") = [tree])
    (hcomments : tree.preorder.filter (·.kind == "comment") = [])
    (hoperator : tree.rangeOperator? = some "..")
    (hreplacement : (tree.rangeExpr (encode source.toList)).replacement? = some replacement) :
    tree.IsSoleRange source replacement := by
  rw [← Node.walk_eq_preorder] at hok hranges hcomments
  refine ⟨hwf, hok, hranges, hcomments, ?_⟩
  rw [Rule.replacement?, hoperator]
  exact hreplacement

theorem isSoleRange_twoLineRange : twoLineRange.IsSoleRange twoLineText "é.all_day" := by
  have hexpr : twoLineRange.rangeExpr (encode twoLineText.toList) =
      ⟨some ⟨some "é", some "beginning_of_day", []⟩, some ⟨some "é", some "end_of_day", []⟩⟩ := by
    decide +kernel
  exact Node.isSoleRange_of_preorder (by decide) rfl rfl rfl rfl (by rw [hexpr]; decide)

/-- A range from the begin to the end of a day. -/
def dayRange : Node :=
  Nested.range (Nested.send { kind := "identifier", start := 0, stop := 4 } 16)
    (Nested.send { kind := "identifier", start := 23, stop := 27 } 10)

/-- A source that begins with such a range. -/
def dayText : String := "date.beginning_of_day..date.end_of_day\nx = 1\n"

theorem isSoleRange_dayRange : dayRange.IsSoleRange dayText "date.all_day" := by
  have hexpr : dayRange.rangeExpr (encode dayText.toList) =
      ⟨some ⟨some "date", some "beginning_of_day", []⟩,
        some ⟨some "date", some "end_of_day", []⟩⟩ := by
    decide +kernel
  exact Node.isSoleRange_of_preorder (by decide) rfl rfl rfl rfl (by rw [hexpr]; decide)

end PeriodLint
