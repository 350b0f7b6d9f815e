import PeriodLint.Proofs.Results
import PeriodLint.Proofs.Syntax.Nesting
import PeriodLint.Editor.Message
import PeriodLint.Rule

/-!
# Resolved spans

A span that names places in a text resolves to an edit and to a stretch for an
editor. The span of a located node does so, and the edit cuts out exactly the
text of the node.
-/

namespace PeriodLint

open Utf8 Text

/-! ## Looking up keys -/

/-- Where a key is dropped, the others are looked up as before. -/
theorem lookup_filter_bne {β : Type} (entries : List (String × β)) (key other : String) :
    (entries.filter (·.1 != key)).lookup other =
      if key = other then none else entries.lookup other := by
  induction entries with
  | nil => exact (ite_self none).symm
  | cons entry entries ih =>
      obtain ⟨here, value⟩ := entry
      by_cases hhere : here = key
      · rw [List.filter_cons_of_neg (by simp [hhere]), ih, List.lookup_cons, hhere]
        by_cases h : key = other
        · rw [if_pos h, if_pos h]
        · rw [beq_eq_false_iff_ne.mpr (Ne.symm h)]
      · rw [List.filter_cons_of_pos (by simp [hhere]), List.lookup_cons, List.lookup_cons, ih]
        by_cases h : key = other
        · subst h
          rw [beq_eq_false_iff_ne.mpr (Ne.symm hhere), if_pos rfl]
        · rw [if_neg h, if_neg h]

/-- A key has the value that it was given last. -/
theorem lookup_filter_bne_append {β : Type} (entries : List (String × β)) (key other : String)
    (value : β) :
    (entries.filter (·.1 != key) ++ [(key, value)]).lookup other =
      if key = other then some value else entries.lookup other := by
  rw [List.lookup_append, lookup_filter_bne, List.lookup_cons]
  by_cases h : key = other
  · simp [h]
  · simp [h, beq_eq_false_iff_ne.mpr (Ne.symm h)]

/-! ## Spans that are placed -/

/-- A line and a column name a place in a text: the line exists and is long enough. -/
def IsPosition (cs : List Char) (line col : Int) : Prop :=
  1 ≤ line ∧ 0 ≤ col ∧ ∃ l, (lines cs)[(line - 1).toNat]? = some l ∧ col ≤ l.length

instance (cs : List Char) (line col : Int) : Decidable (IsPosition cs line col) :=
  decidable_of_iff
    (1 ≤ line ∧ 0 ≤ col ∧ (lines cs)[(line - 1).toNat]?.any (fun l => col ≤ l.length) = true)
    (by simp [IsPosition, Option.any_eq_true])

/-- Both ends of a span name places in a text. -/
def Span.IsPlaced (cs : List Char) (span : Span) : Prop :=
  IsPosition cs span.line span.col ∧ IsPosition cs span.endLine span.endCol

instance (cs : List Char) (span : Span) : Decidable (span.IsPlaced cs) :=
  inferInstanceAs (Decidable (_ ∧ _))

/-- Both ends of a span are on lines of a text. -/
structure Span.HasLines (cs : List Char) (span : Span) : Prop where
  one_le_line : 1 ≤ span.line
  line_le : span.line ≤ (lines cs).length
  one_le_endLine : 1 ≤ span.endLine
  endLine_le : span.endLine ≤ (lines cs).length

section Placed

variable {cs : List Char} {line col : Int} {span : Span}

theorem IsPosition.line_le_length (h : IsPosition cs line col) : line ≤ (lines cs).length := by
  obtain ⟨hline, -, l, hl, -⟩ := h
  have := (List.getElem?_eq_some_iff.mp hl).1
  omega

theorem exists_offset_eq_ok (hline : 1 ≤ line) (hle : line ≤ (lines cs).length) (col : Int) :
    ∃ offset, Edit.offset (lineStarts cs) line col = .ok offset := by
  have hlt : (line - 1).toNat < (lineStarts cs).length := by
    rw [lineStarts, length_startsFrom]
    omega
  refine ⟨(lineStarts cs)[(line - 1).toNat] + col, ?_⟩
  rw [Edit.offset, elementAt?, if_pos (by omega), List.getElem?_eq_getElem hlt]

theorem exists_position_eq_ok (hline : 1 ≤ line) (hle : line ≤ (lines cs).length) (col : Int) :
    ∃ place, Editor.position (lines cs) line col = .ok place := by
  have hlt : (line - 1).toNat < (lines cs).length := by omega
  refine ⟨⟨line - 1, Editor.unitColumn (lines cs)[(line - 1).toNat] col⟩, ?_⟩
  rw [Editor.position, elementAt?, if_pos (by omega), List.getElem?_eq_getElem hlt]

theorem Span.IsPlaced.hasLines (h : span.IsPlaced cs) : span.HasLines cs :=
  ⟨h.1.1, h.1.line_le_length, h.2.1, h.2.line_le_length⟩

/-- A span on lines of a text resolves to an edit, whatever its columns are. -/
theorem Span.HasLines.exists_edit (h : span.HasLines cs) (text : String) :
    ∃ e, Edit.ofSpan (lineStarts cs) span text = .ok e := by
  obtain ⟨start, hstart⟩ := exists_offset_eq_ok h.one_le_line h.line_le span.col
  obtain ⟨stop, hstop⟩ := exists_offset_eq_ok h.one_le_endLine h.endLine_le span.endCol
  refine ⟨⟨start, stop, text⟩, ?_⟩
  rw [Edit.ofSpan, hstart, hstop]
  rfl

/-- A span on lines of a text resolves to a stretch for an editor, whatever its columns are. -/
theorem Span.HasLines.exists_range (h : span.HasLines cs) :
    ∃ range, Editor.rangeOf (lines cs) span = .ok range := by
  obtain ⟨start, hstart⟩ := exists_position_eq_ok h.one_le_line h.line_le span.col
  obtain ⟨stop, hstop⟩ := exists_position_eq_ok h.one_le_endLine h.endLine_le span.endCol
  refine ⟨⟨start, stop⟩, ?_⟩
  rw [Editor.rangeOf, hstart, hstop]
  rfl

theorem Span.IsPlaced.exists_range (h : span.IsPlaced cs) :
    ∃ range, Editor.rangeOf (lines cs) span = .ok range :=
  h.hasLines.exists_range

end Placed

/-! ## Reported edits -/

namespace Edit

/-- The edits of all fixes, in the order in which they are reported. -/
def reported (cs : List Char) (ds : List Diagnostic) : Except NoSuchLine (List Edit) :=
  (proposals ds).mapM fun (span, text) => ofSpan (lineStarts cs) span text

section Reported

variable {cs : List Char} {ds : List Diagnostic} {es : List Edit}

/-- The accepted edits are those that the scan of the sorted reported ones keeps. -/
theorem accepted_eq_map_reported (cs : List Char) (ds : List Diagnostic) :
    accepted cs ds = (reported cs ds).map fun es => keepFrom none (es.mergeSort precedes) := by
  have hcandidates : candidates cs ds = (reported cs ds).map (·.mergeSort precedes) := rfl
  rw [accepted, hcandidates]
  cases reported cs ds <;> rfl

theorem accepted_of_reported (h : reported cs ds = .ok es) :
    accepted cs ds = .ok (keepFrom none (es.mergeSort precedes)) := by
  rw [accepted_eq_map_reported, h]
  rfl

theorem exists_reported_of_accepted {kept : Logged (List Edit)} (h : accepted cs ds = .ok kept) :
    ∃ es, reported cs ds = .ok es ∧ kept = keepFrom none (es.mergeSort precedes) := by
  rw [accepted_eq_map_reported] at h
  cases hreported : reported cs ds with
  | error err =>
      rw [hreported] at h
      cases h
  | ok es =>
      rw [hreported] at h
      exact ⟨es, rfl, (Except.ok.inj h).symm⟩

theorem exists_diagnostic_of_mem_reported (h : reported cs ds = .ok es) {e : Edit} (he : e ∈ es) :
    ∃ d ∈ ds, ∃ text, d.fix = some text ∧ ofSpan (lineStarts cs) d.span text = .ok e := by
  obtain ⟨⟨span, text⟩, hp, hspan⟩ := exists_mem_of_mapM_eq_ok h he
  obtain ⟨d, hd, hfix⟩ := List.mem_filterMap.mp hp
  obtain ⟨fix, hsome, heq⟩ := Option.map_eq_some_iff.mp hfix
  obtain ⟨rfl, rfl⟩ := Prod.mk.inj heq
  exact ⟨d, hd, fix, hsome, hspan⟩

theorem exists_reported_of_hasLines (h : ∀ d ∈ ds, d.fix.isSome → d.span.HasLines cs) :
    ∃ es, reported cs ds = .ok es := by
  refine exists_mapM_eq_ok fun p hp => ?_
  obtain ⟨d, hd, hfix⟩ := List.mem_filterMap.mp hp
  obtain ⟨text, hsome, rfl⟩ := Option.map_eq_some_iff.mp hfix
  exact (h d hd (Option.isSome_of_eq_some hsome)).exists_edit text

end Reported

end Edit

/-! ## Diagnostics that are placed -/

section Diagnostics

variable {source : String} {ds others : List Diagnostic}

theorem applyFixes_of_proposals_eq (h : Edit.proposals others = Edit.proposals ds) :
    applyFixes source others = applyFixes source ds := by
  simp only [applyFixes, Edit.accepted, Edit.candidates, h]

/-- The text after the fixes is that of the accepted edits. -/
theorem applyFixes_eq_ok {kept : Logged (List Edit)}
    (h : Edit.accepted source.toList ds = .ok kept) :
    ∃ fixed, applyFixes source ds = .ok fixed ∧
      fixed.value = String.ofList (Edit.applyAll kept.value source.toList) := by
  rw [applyFixes, h]
  exact ⟨_, rfl, rfl⟩

theorem exists_accepted_of_applyFixes {fixed : Logged String}
    (h : applyFixes source ds = .ok fixed) :
    ∃ kept, Edit.accepted source.toList ds = .ok kept ∧
      fixed.value = String.ofList (Edit.applyAll kept.value source.toList) := by
  cases hkept : Edit.accepted source.toList ds with
  | error e =>
      rw [applyFixes, hkept] at h
      cases h
  | ok kept =>
      obtain ⟨fixed', hfixed, hvalue⟩ := applyFixes_eq_ok hkept
      rw [hfixed] at h
      exact ⟨kept, rfl, Except.ok.inj h ▸ hvalue⟩

theorem exists_applyFixes_eq_ok (h : ∀ d ∈ ds, d.span.HasLines source.toList) :
    ∃ fixed, applyFixes source ds = .ok fixed := by
  obtain ⟨es, hes⟩ := Edit.exists_reported_of_hasLines fun d hd _ => h d hd
  obtain ⟨fixed, hfixed, -⟩ := applyFixes_eq_ok (Edit.accepted_of_reported hes)
  exact ⟨fixed, hfixed⟩

theorem exists_noticeOf_eq_ok {d : Diagnostic} (h : d.span.IsPlaced source.toList) :
    ∃ notice, Editor.noticeOf (lines source.toList) d = .ok notice := by
  obtain ⟨range, hrange⟩ := h.exists_range
  rw [Editor.noticeOf, hrange]
  exact ⟨_, rfl⟩

theorem exists_actionOf_eq_ok {d : Diagnostic} (h : d.span.IsPlaced source.toList)
    (uri fix : String) : ∃ action, Editor.actionOf uri (lines source.toList) d fix = .ok action := by
  obtain ⟨range, hrange⟩ := h.exists_range
  obtain ⟨notice, hnotice⟩ := exists_noticeOf_eq_ok h
  rw [Editor.actionOf, hnotice, hrange]
  exact ⟨_, rfl⟩

end Diagnostics

/-! ## Located nodes -/

section Located

variable {cs : List Char} {n : Node}

theorem isPosition_of_mem_boundaries {offset : Nat} (h : offset ∈ boundaries cs) :
    IsPosition cs (rowAt (encode cs) offset + 1) (columnAt (encode cs) offset) := by
  obtain ⟨line, hline, hcol⟩ := exists_line_at h
  refine ⟨by omega, by omega, line, ?_, by omega⟩
  rw [Int.add_sub_cancel, Int.toNat_natCast]
  exact hline

theorem Node.IsLocated.isPlaced_span (h : n.IsLocated cs) : (n.span (encode cs)).IsPlaced cs :=
  ⟨isPosition_of_mem_boundaries h.start_mem, isPosition_of_mem_boundaries h.stop_mem⟩

theorem Node.IsLocated.ofSpan_span (h : n.IsLocated cs) (text : String) :
    Edit.ofSpan (lineStarts cs) (n.span (encode cs)) text =
      .ok ⟨charsBefore cs n.start, charsBefore cs n.stop, text⟩ := by
  simp only [Edit.ofSpan, Node.span]
  rw [offset_position h.start_mem, offset_position h.stop_mem]
  rfl

/-- What the library's own rule reports, it reports on a range with a replacement. -/
theorem Rule.exists_node_of_mem_check {severity : Severity} {tree : Node} {source : String}
    {d : Diagnostic} (h : d ∈ (Rule.wholePeriod severity).check tree source) :
    ∃ n ∈ tree.ofKind "range", ∃ text, Rule.replacement? (encode source.toList) n = some text ∧
      d = Rule.report severity (n.span (encode source.toList)) text := by
  obtain ⟨n, hn, hflag⟩ := List.mem_filterMap.mp h
  obtain ⟨text, htext, rfl⟩ := Option.map_eq_some_iff.mp hflag
  exact ⟨n, hn, text, htext, rfl⟩

end Located

/-- Bytes, rows with columns and characters agree on every located node: its span resolves to the
numbers of characters before its ends, which enclose its text, and names places in the source. So
neither the fixes of the library's own rule nor their view in an editor miss a line. -/
theorem span_resolves_to_text (source : String) :
    (∀ n : Node, n.IsLocated source.toList →
      let span := n.span (encode source.toList)
      let first := charsBefore source.toList n.start
      let last := charsBefore source.toList n.stop
      Edit.offset (lineStarts source.toList) span.line span.col = .ok (first : Int) ∧
        Edit.offset (lineStarts source.toList) span.endLine span.endCol = .ok (last : Int) ∧
        (source.toList.take last).drop first = (n.text (encode source.toList)).toList ∧
        span.IsPlaced source.toList) ∧
    (∀ severity tree ds, (∀ n ∈ tree.ofKind "range", n.IsLocated source.toList) →
      ds ⊆ (Rule.wholePeriod severity).check tree source →
      (∃ fixed, applyFixes source ds = .ok fixed) ∧
        ∀ d ∈ ds, (∃ notice, Editor.noticeOf (lines source.toList) d = .ok notice) ∧
          ∀ uri fix, ∃ action, Editor.actionOf uri (lines source.toList) d fix = .ok action) := by
  constructor
  · intro n hn
    exact ⟨offset_position hn.start_mem, offset_position hn.stop_mem, hn.toList_text.symm,
      hn.isPlaced_span⟩
  · intro severity tree ds hranges hds
    have hplaced : ∀ d ∈ ds, d.span.IsPlaced source.toList := by
      intro d hd
      obtain ⟨n, hn, text, -, rfl⟩ := Rule.exists_node_of_mem_check (hds hd)
      exact (hranges n hn).isPlaced_span
    refine ⟨exists_applyFixes_eq_ok fun d hd => (hplaced d hd).hasLines,
      fun d hd => ⟨exists_noticeOf_eq_ok (hplaced d hd), ?_⟩⟩
    exact exists_actionOf_eq_ok (hplaced d hd)

/-- A range over two lines, behind a character that takes four bytes. -/
def twoLineRange : Node where
  kind := "range"
  start := 5
  stop := 40
  children := [
    { kind := "call", start := 5, stop := 24
      children := [
        { kind := "identifier", start := 5, stop := 7, field := some "receiver" },
        { kind := ".", start := 7, stop := 8, named := false },
        { kind := "identifier", start := 8, stop := 24, field := some "method" }] },
    { kind := "..", start := 24, stop := 26, named := false },
    { kind := "call", start := 27, stop := 40
      children := [
        { kind := "identifier", start := 27, stop := 29, field := some "receiver" },
        { kind := ".", start := 29, stop := 30, named := false },
        { kind := "identifier", start := 30, stop := 40, field := some "method" }] }]

theorem span_resolves_to_text_twoLineRange :
    let source := "😀\ré.beginning_of_day..\né.end_of_day"
    let span := twoLineRange.span (encode source.toList)
    (Edit.offset (lineStarts source.toList) span.line span.col = .ok 2 ∧
        Edit.offset (lineStarts source.toList) span.endLine span.endCol = .ok 35) ∧
      ∃ fixed, applyFixes source
        ((Rule.wholePeriod .warning).check twoLineRange source) = .ok fixed := by
  intro source span
  have hlocated : twoLineRange.IsLocated source.toList := by decide
  obtain ⟨hnode, hdiagnostics⟩ := span_resolves_to_text source
  obtain ⟨hstart, hstop, -, -⟩ := hnode twoLineRange hlocated
  have hfirst : charsBefore source.toList twoLineRange.start = 2 := by decide
  have hlast : charsBefore source.toList twoLineRange.stop = 35 := by decide
  rw [hfirst] at hstart
  rw [hlast] at hstop
  have hranges : ∀ n ∈ twoLineRange.ofKind "range", n.IsLocated source.toList := by
    intro n hn
    rw [Node.ofKind, Node.walk_eq_preorder] at hn
    revert n
    decide
  exact ⟨⟨hstart, hstop⟩, (hdiagnostics .warning twoLineRange _ hranges (List.Subset.refl _)).1⟩

/-- The source of the range over two lines. -/
def twoLineText : String := "😀\ré.beginning_of_day..\né.end_of_day"

end PeriodLint
