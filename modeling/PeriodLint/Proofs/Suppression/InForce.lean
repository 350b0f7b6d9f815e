import PeriodLint.Proofs.Syntax.Nesting
import PeriodLint.Suppression
import Mathlib.Data.List.Induction

/-!
# Directives in force

Which reports a file silences is decided by the directives in its comments and
by the lines on which they stand, not by the order in which the comments are
met. A line keeps only its last directive, so this needs that no two comments
with a line directive start on one line.
-/

namespace PeriodLint

namespace Directive

/-- A directive follows a sharp of a comment, and none follows an earlier sharp. -/
def IsLeftmost (cs : List Char) (d : Directive) : Prop :=
  ∃ before after, cs = before ++ '#' :: after ∧ afterSharp? after = some d ∧
    ∀ front rest, cs = front ++ '#' :: rest → front.length < before.length →
      afterSharp? rest = none

theorem isLeftmost_cons_iff {c : Char} {cs : List Char} {d : Directive} :
    IsLeftmost (c :: cs) d ↔
      c = '#' ∧ afterSharp? cs = some d ∨
        (c = '#' → afterSharp? cs = none) ∧ IsLeftmost cs d := by
  constructor
  · rintro ⟨before, after, heq, hd, hnone⟩
    cases before with
    | nil =>
        obtain ⟨rfl, rfl⟩ := List.cons.inj heq
        exact Or.inl ⟨rfl, hd⟩
    | cons b before =>
        obtain ⟨rfl, rfl⟩ := List.cons.inj heq
        refine Or.inr ⟨?_, before, after, rfl, hd, fun front rest hrest hlt => ?_⟩
        · rintro rfl
          exact hnone [] _ rfl (Nat.succ_pos _)
        · exact hnone (c :: front) rest (by rw [hrest, List.cons_append])
            (Nat.succ_lt_succ hlt)
  · rintro (⟨rfl, hd⟩ | ⟨hfirst, before, after, rfl, hd, hnone⟩)
    · exact ⟨[], cs, rfl, hd, fun _ _ _ hlt => absurd hlt (Nat.not_lt_zero _)⟩
    · refine ⟨c :: before, after, rfl, hd, fun front rest hrest hlt => ?_⟩
      cases front with
      | nil =>
          obtain ⟨rfl, rfl⟩ := List.cons.inj hrest
          exact hfirst rfl
      | cons f front =>
          exact hnone front rest (List.cons.inj hrest).2 (Nat.lt_of_succ_lt_succ hlt)

theorem ofComment?_eq_some_iff {cs : List Char} {d : Directive} :
    ofComment? cs = some d ↔ IsLeftmost cs d := by
  induction cs with
  | nil => simp [ofComment?, IsLeftmost]
  | cons c cs ih =>
      rw [isLeftmost_cons_iff, ofComment?]
      by_cases hc : c = '#'
      · cases hd : afterSharp? cs <;> simp [hc, ih]
      · simp [hc, ih]

end Directive

theorem Scope.covers_iff {scope : Scope} {ruleId : String} :
    scope.covers ruleId = true ↔ scope = .everyRule ∨ ∃ ids, scope = .only ids ∧ ruleId ∈ ids := by
  cases scope <;> simp [covers]

/-- A comment node holds a directive. -/
def Node.Holds (source : Bytes) (c : Node) (d : Directive) : Prop :=
  c.kind = "comment" ∧ Directive.IsLeftmost (c.text source).toList d

theorem Node.holds_of_toList_text {source : Bytes} {c : Node} {text : List Char} {d : Directive}
    (hkind : c.kind = "comment") (htext : (c.text source).toList = text)
    (hd : Directive.ofComment? text = some d) : c.Holds source d :=
  ⟨hkind, Directive.ofComment?_eq_some_iff.mp (htext ▸ hd)⟩

namespace Suppressions

/-- A directive of a tree, with the line on which its comment starts. -/
def HasDirective (source : Bytes) (tree : Node) (d : Directive) (line : Nat) : Prop :=
  ∃ c ∈ tree.preorder, c.Holds source d ∧ line = rowAt source c.start + 1

/-- No two comments of a list hold a line directive and start on one line. -/
def LinesApart (source : Bytes) (ns : List Node) : Prop :=
  ∀ a ∈ ns, ∀ b ∈ ns, ∀ scope scope', a.Holds source ⟨false, scope⟩ →
    b.Holds source ⟨false, scope'⟩ → rowAt source a.start = rowAt source b.start → a = b

theorem LinesApart.subset {source : Bytes} {ns ms : List Node} (h : LinesApart source ms)
    (hsub : ns ⊆ ms) : LinesApart source ns :=
  fun a ha b hb => h a (hsub ha) b (hsub hb)

/-- It is enough that no two comments start on one line. -/
theorem linesApart_of_pairwise {source : Bytes} {tree : Node}
    (h : (tree.ofKind "comment").Pairwise fun a b => rowAt source a.start ≠ rowAt source b.start) :
    LinesApart source tree.preorder := by
  intro a ha b hb _ _ hholds hholds' hrow
  by_contra hne
  have : Std.Symm fun a b : Node => rowAt source a.start ≠ rowAt source b.start :=
    ⟨fun _ _ => Ne.symm⟩
  exact h.forall (Node.mem_ofKind_iff.mpr ⟨ha, hholds.1⟩)
    (Node.mem_ofKind_iff.mpr ⟨hb, hholds'.1⟩) hne hrow

/-! ## One comment -/

section Step

variable {source : Bytes} {s : Suppressions} {c : Node} {scope : Scope} {line : Nat}

theorem mem_wholeFile_addComment (hc : c.kind = "comment") :
    scope ∈ (addComment source s c).wholeFile ↔
      scope ∈ s.wholeFile ∨ c.Holds source ⟨true, scope⟩ := by
  simp only [addComment, Node.Holds, hc, true_and, ← Directive.ofComment?_eq_some_iff]
  cases Directive.ofComment? (c.text source).toList with
  | none => simp
  | some d =>
      obtain ⟨wholeFile, scope'⟩ := d
      cases wholeFile <;> simp [add, eq_comm]

theorem mem_byLine_addComment (hc : c.kind = "comment") :
    (line, scope) ∈ (addComment source s c).byLine ↔
      (line, scope) ∈ s.byLine ∧
          (∀ scope', c.Holds source ⟨false, scope'⟩ → line ≠ rowAt source c.start + 1) ∨
        c.Holds source ⟨false, scope⟩ ∧ line = rowAt source c.start + 1 := by
  simp only [addComment, Node.Holds, hc, true_and, ← Directive.ofComment?_eq_some_iff]
  cases Directive.ofComment? (c.text source).toList with
  | none => simp
  | some d =>
      obtain ⟨wholeFile, scope'⟩ := d
      cases wholeFile with
      | false => simp [add, eq_comm (a := scope), and_comm (b := line = rowAt source c.start + 1)]
      | true => simp [add]

end Step

/-! ## All comments of a tree -/

section Run

variable {source : Bytes} {cs : List Node} {scope : Scope} {line : Nat}

theorem mem_wholeFile_foldl (hcs : ∀ c ∈ cs, c.kind = "comment") (s : Suppressions) :
    scope ∈ (cs.foldl (addComment source) s).wholeFile ↔
      scope ∈ s.wholeFile ∨ ∃ c ∈ cs, c.Holds source ⟨true, scope⟩ := by
  induction cs generalizing s with
  | nil => simp
  | cons c cs ih =>
      obtain ⟨hc, hcs⟩ := List.forall_mem_cons.mp hcs
      rw [List.foldl_cons, ih hcs, mem_wholeFile_addComment hc, List.exists_mem_cons_iff, or_assoc]

/-- A line keeps the directive of a comment, as no later comment has one for the same line. -/
theorem mem_byLine_foldl (hcs : ∀ c ∈ cs, c.kind = "comment") (hapart : LinesApart source cs) :
    (line, scope) ∈ (cs.foldl (addComment source) {}).byLine ↔
      ∃ c ∈ cs, c.Holds source ⟨false, scope⟩ ∧ line = rowAt source c.start + 1 := by
  induction cs using List.reverseRecOn with
  | nil => simp
  | append_singleton cs c ih =>
      have hc := hcs c (by simp)
      have hsub : cs ⊆ cs ++ [c] := List.subset_append_left cs [c]
      have ih := ih (fun b hb => hcs b (hsub hb)) (hapart.subset hsub)
      rw [List.foldl_concat, mem_byLine_addComment hc, ih]
      constructor
      · rintro (⟨⟨b, hb, hholds⟩, -⟩ | hholds)
        · exact ⟨b, List.mem_append_left _ hb, hholds⟩
        · exact ⟨c, List.mem_append_right _ (List.mem_singleton_self c), hholds⟩
      · rintro ⟨b, hb, hholds, hline⟩
        by_cases hlater : ∃ scope', c.Holds source ⟨false, scope'⟩ ∧ line = rowAt source c.start + 1
        · obtain ⟨scope', hscope', hline'⟩ := hlater
          have hbc : b = c := hapart b hb c (by simp) scope scope' hholds hscope' (by omega)
          exact Or.inr (hbc ▸ ⟨hholds, hline⟩)
        · have hbcs : b ∈ cs := by
            rcases List.mem_append.mp hb with hb | hb
            · exact hb
            · obtain rfl := List.mem_singleton.mp hb
              exact absurd ⟨scope, hholds, hline⟩ hlater
          exact Or.inl ⟨⟨b, hbcs, hholds, hline⟩, fun scope' hscope' hline' =>
            hlater ⟨scope', hscope', hline'⟩⟩

end Run

section Tree

variable {source : Bytes} {tree : Node} {scope : Scope} {line : Nat}

theorem hasDirective_iff {d : Directive} :
    HasDirective source tree d line ↔
      ∃ c ∈ tree.ofKind "comment", c.Holds source d ∧ line = rowAt source c.start + 1 := by
  constructor
  · rintro ⟨c, hc, hholds, hline⟩
    exact ⟨c, Node.mem_ofKind_iff.mpr ⟨hc, hholds.1⟩, hholds, hline⟩
  · rintro ⟨c, hc, hholds, hline⟩
    exact ⟨c, (Node.mem_ofKind_iff.mp hc).1, hholds, hline⟩

theorem mem_wholeFile_ofTree :
    scope ∈ (ofTree source tree).wholeFile ↔
      ∃ line, HasDirective source tree ⟨true, scope⟩ line := by
  rw [ofTree, mem_wholeFile_foldl fun c hc => (Node.mem_ofKind_iff.mp hc).2]
  simp only [hasDirective_iff]
  constructor
  · rintro (hnone | ⟨c, hc, hholds⟩)
    · cases hnone
    · exact ⟨_, c, hc, hholds, rfl⟩
  · rintro ⟨_, c, hc, hholds, -⟩
    exact Or.inr ⟨c, hc, hholds⟩

theorem mem_byLine_ofTree (hapart : LinesApart source tree.preorder) :
    (line, scope) ∈ (ofTree source tree).byLine ↔ HasDirective source tree ⟨false, scope⟩ line := by
  have hsub : tree.ofKind "comment" ⊆ tree.preorder :=
    fun c hc => (Node.mem_ofKind_iff.mp hc).1
  rw [ofTree, mem_byLine_foldl (fun c hc => (Node.mem_ofKind_iff.mp hc).2) (hapart.subset hsub),
    hasDirective_iff]

/-- A rule is silenced between two lines by a directive for the whole file or for one of them. -/
theorem silencesRule_iff (hapart : LinesApart source tree.preorder) {ruleId : String}
    {first last : Int} :
    (ofTree source tree).silencesRule ruleId first last = true ↔
      ∃ d line, HasDirective source tree d line ∧ d.scope.covers ruleId = true ∧
        (d.wholeFile = true ∨ first ≤ line ∧ line ≤ last) := by
  simp only [silencesRule, Bool.or_eq_true, List.any_eq_true, Bool.and_eq_true, decide_eq_true_eq]
  constructor
  · rintro (⟨scope, hscope, hcovers⟩ | ⟨⟨line, scope⟩, hscope, hlines, hcovers⟩)
    · obtain ⟨line, hd⟩ := mem_wholeFile_ofTree.mp hscope
      exact ⟨⟨true, scope⟩, line, hd, hcovers, Or.inl rfl⟩
    · exact ⟨⟨false, scope⟩, line, (mem_byLine_ofTree hapart).mp hscope, hcovers, Or.inr hlines⟩
  · rintro ⟨⟨wholeFile, scope⟩, line, hd, hcovers, hreach⟩
    cases wholeFile with
    | true => exact Or.inl ⟨scope, mem_wholeFile_ofTree.mpr ⟨line, hd⟩, hcovers⟩
    | false =>
        have hlines := hreach.resolve_left Bool.false_ne_true
        exact Or.inr ⟨(line, scope), (mem_byLine_ofTree hapart).mpr hd, hlines, hcovers⟩

end Tree

/-- A report is silenced exactly when some comment holds a directive that covers its rule and
stands on one of its lines or is for the whole file. So neither the place of a directive for the
whole file nor the order of the comments matters. -/
theorem silences_iff_exists_directive {source : Bytes} {tree : Node}
    (hapart : LinesApart source tree.preorder) :
    (∀ report : Diagnostic, (ofTree source tree).silences report = true ↔
      ∃ d line, HasDirective source tree d line ∧
        (d.scope = .everyRule ∨ ∃ ids, d.scope = .only ids ∧ report.ruleId ∈ ids) ∧
        (d.wholeFile = true ∨ report.span.line ≤ line ∧ line ≤ report.span.endLine)) ∧
    ∀ (source' : Bytes) (tree' : Node), LinesApart source' tree'.preorder →
      (∀ scope, (∃ line, HasDirective source tree ⟨true, scope⟩ line) ↔
        ∃ line, HasDirective source' tree' ⟨true, scope⟩ line) →
      (∀ scope line, HasDirective source tree ⟨false, scope⟩ line ↔
        HasDirective source' tree' ⟨false, scope⟩ line) →
      ∀ report, (ofTree source tree).silences report = (ofTree source' tree').silences report := by
  constructor
  · intro report
    simp only [silences, silencesRule_iff hapart, Scope.covers_iff]
  · intro source' tree' hapart' hfile hline report
    have hwholeFile : ∀ scope, scope ∈ (ofTree source tree).wholeFile ↔
        scope ∈ (ofTree source' tree').wholeFile := by
      intro scope
      rw [mem_wholeFile_ofTree, mem_wholeFile_ofTree, hfile scope]
    have hbyLine : ∀ entry, entry ∈ (ofTree source tree).byLine ↔
        entry ∈ (ofTree source' tree').byLine := by
      rintro ⟨line, scope⟩
      rw [mem_byLine_ofTree hapart, mem_byLine_ofTree hapart', hline scope line]
    rw [Bool.eq_iff_iff]
    simp only [silences, silencesRule, Bool.or_eq_true, List.any_eq_true, hwholeFile, hbyLine]

/-! ## Directives of both reaches -/

namespace Mixed

def source : String := "a # allday: noqa: dtr001\nb # ALLDAY: disable-file: x9\n"

def lineComment : Node := { kind := "comment", start := 2, stop := 24 }

def fileComment : Node := { kind := "comment", start := 27, stop := 53 }

/-- A program with two comments in a given order. -/
def program (first second : Node) : Node where
  kind := "program"
  start := 0
  stop := 54
  children := [first, second]

theorem comments_program :
    (program lineComment fileComment).ofKind "comment" = [lineComment, fileComment] ∧
      (program fileComment lineComment).ofKind "comment" = [fileComment, lineComment] := by
  simp only [Node.ofKind_eq]
  exact ⟨rfl, rfl⟩

theorem linesApart_program :
    LinesApart (Utf8.encode source.toList) (program lineComment fileComment).preorder ∧
      LinesApart (Utf8.encode source.toList) (program fileComment lineComment).preorder := by
  constructor
  · apply linesApart_of_pairwise
    rw [comments_program.1]
    decide
  · apply linesApart_of_pairwise
    rw [comments_program.2]
    decide

theorem hasDirective_program_iff {d : Directive} {line : Nat} :
    HasDirective (Utf8.encode source.toList) (program lineComment fileComment) d line ↔
      HasDirective (Utf8.encode source.toList) (program fileComment lineComment) d line := by
  rw [hasDirective_iff, hasDirective_iff, comments_program.1, comments_program.2]
  simp [or_comm]

theorem hasDirective_line :
    HasDirective (Utf8.encode source.toList) (program lineComment fileComment)
      ⟨false, .only ["DTR001"]⟩ 1 := by
  have htext : (lineComment.text (Utf8.encode source.toList)).toList =
      "# allday: noqa: dtr001".toList := by
    decide +kernel
  have hholds : lineComment.Holds (Utf8.encode source.toList) ⟨false, .only ["DTR001"]⟩ :=
    Node.holds_of_toList_text rfl htext (by decide +kernel)
  rw [hasDirective_iff, comments_program.1]
  exact ⟨lineComment, List.mem_cons_self, hholds, by decide⟩

theorem hasDirective_file :
    HasDirective (Utf8.encode source.toList) (program lineComment fileComment)
      ⟨true, .only ["X9"]⟩ 2 := by
  have htext : (fileComment.text (Utf8.encode source.toList)).toList =
      "# ALLDAY: disable-file: x9".toList := by
    decide +kernel
  have hholds : fileComment.Holds (Utf8.encode source.toList) ⟨true, .only ["X9"]⟩ :=
    Node.holds_of_toList_text rfl htext (by decide +kernel)
  rw [hasDirective_iff, comments_program.1]
  exact ⟨fileComment, by simp, hholds, by decide⟩

/-- A report of a rule on the first line. -/
def report (ruleId : String) : Diagnostic where
  ruleId
  message := ""
  severity := .warning
  span := ⟨1, 0, 1, 1⟩

end Mixed

/-- On the first line both rules are silenced, and it does not matter which comment comes first. -/
theorem silences_iff_exists_directive_mixed :
    let bytes := Utf8.encode Mixed.source.toList
    let tree := Mixed.program Mixed.lineComment Mixed.fileComment
    let swapped := Mixed.program Mixed.fileComment Mixed.lineComment
    (LinesApart bytes tree.preorder ∧ LinesApart bytes swapped.preorder) ∧
      (ofTree bytes tree).silences (Mixed.report "DTR001") = true ∧
      (ofTree bytes tree).silences (Mixed.report "X9") = true ∧
      ∀ report, (ofTree bytes tree).silences report = (ofTree bytes swapped).silences report := by
  intro bytes tree swapped
  obtain ⟨hsilences, hcongr⟩ := silences_iff_exists_directive Mixed.linesApart_program.1
  refine ⟨Mixed.linesApart_program, (hsilences _).mpr ?_, (hsilences _).mpr ?_, ?_⟩
  · exact ⟨_, 1, Mixed.hasDirective_line, by simp [Mixed.report], by simp [Mixed.report]⟩
  · exact ⟨_, 2, Mixed.hasDirective_file, by simp [Mixed.report], by simp⟩
  · exact hcongr bytes swapped Mixed.linesApart_program.2
      (fun scope => exists_congr fun line => Mixed.hasDirective_program_iff)
      (fun scope line => Mixed.hasDirective_program_iff)

end Suppressions

end PeriodLint
