import PeriodLint.Proofs.Edit.Resolution
import PeriodLint.Proofs.Syntax.Nesting
import PeriodLint.Proofs.Syntax.RangeForm
import Mathlib.Data.List.Perm.Subperm

/-!
# Replacements

A range has a replacement exactly when its endpoints bound a period on receivers
of one text and pass the same. It then writes its receiver and its argument
twice and names two methods, each in a stretch of its own. The replacement
writes them once and names a shorter method, so it is shorter than the text of
the range.
-/

namespace PeriodLint

open Utf8 Text

theorem Period.ofBeginMethod?_eq_some_iff {method : String} {p : Period} :
    Period.ofBeginMethod? method = some p ↔ method = p.beginMethod := by
  constructor
  · intro h
    have hp := List.find?_some h
    exact (eq_of_beq hp).symm
  · rintro rfl
    cases p <;> decide

theorem Period.length_beginMethod (p : Period) : p.beginMethod.length = 13 + p.name.length := by
  rw [beginMethod, String.length_append]
  rfl

theorem Period.length_endMethod (p : Period) : p.endMethod.length = 7 + p.name.length := by
  rw [endMethod, String.length_append]
  rfl

theorem RangeExpr.length_wholeCall (receiver : String) (p : Period) :
    (wholeCall receiver p).length = receiver.length + (5 + p.name.length) := by
  have hdot : (".").length = 1 := rfl
  have hall : ("all_").length = 4 := rfl
  rw [wholeCall, Period.wholeMethod, String.length_append, String.length_append,
    String.length_append, hdot, hall]
  omega

theorem Endpoint.pairing?_eq_some_iff {first last : Endpoint} {receiver : String} {p : Period} :
    first.pairing? last = some (receiver, p) ↔
      (first.receiver = some receiver ∧ first.method = some p.beginMethod) ∧
        last.receiver = some receiver ∧ last.method = some p.endMethod := by
  simp only [Endpoint.pairing?, Option.bind_eq_bind, Option.bind_eq_some_iff,
    Option.ite_none_right_eq_some, Option.some.injEq, Prod.mk.injEq]
  constructor
  · rintro ⟨r, hr, method, hmethod, q, hq, hlast, rfl, rfl⟩
    rw [Period.ofBeginMethod?_eq_some_iff] at hq
    exact ⟨⟨hr, by rw [hmethod, hq]⟩, hlast⟩
  · rintro ⟨⟨hr, hmethod⟩, hlast⟩
    exact ⟨receiver, hr, p.beginMethod, hmethod, p, Period.ofBeginMethod?_eq_some_iff.mpr rfl,
      hlast, rfl, rfl⟩

/-- The texts of a range that has a replacement, and the replacement. -/
theorem RangeExpr.replacement?_eq_some_iff {range : RangeExpr} {text : String} :
    range.replacement? = some text ↔
      ∃ first last receiver p, range.first = some first ∧ range.last = some last ∧
        first.pairing? last = some (receiver, p) ∧
        (first.args = [] ∧ last.args = [] ∧ text = wholeCall receiver p ∨
          p = .week ∧ ∃ a, first.args = [a] ∧ last.args = [a] ∧
            text = wholeCall receiver p ++ "(" ++ a ++ ")") := by
  simp only [RangeExpr.replacement?, Option.bind_eq_bind, Option.bind_eq_some_iff]
  constructor
  · rintro ⟨first, hfirst, last, hlast, ⟨receiver, p⟩, hpair, h⟩
    refine ⟨first, last, receiver, p, hfirst, hlast, hpair, ?_⟩
    dsimp only at h
    split at h
    · next _ hf hl => exact Or.inl ⟨hf, hl, (Option.some.inj h).symm⟩
    · next a b hweek hf hl =>
        obtain ⟨hab, htext⟩ := Option.ite_none_right_eq_some.mp h
        exact Or.inr ⟨eq_of_beq hweek, a, hf, hab ▸ hl, (Option.some.inj htext).symm⟩
    · exact absurd h nofun
  · rintro ⟨first, last, receiver, p, hfirst, hlast, hpair, hargs⟩
    refine ⟨first, hfirst, last, hlast, (receiver, p), hpair, ?_⟩
    rcases hargs with ⟨hf, hl, rfl⟩ | ⟨rfl, a, hf, hl, rfl⟩
    · simp only [hf, hl]
    · simp only [hf, hl, Period.takesArgument, beq_self_eq_true, if_true]

/-! ## Words for periods -/

theorem Period.exists_name_eq_iff {word : String} :
    (∃ p : Period, p.name = word) ↔ word ∈ ["day", "week", "month", "quarter", "year"] := by
  constructor
  · rintro ⟨p, rfl⟩
    cases p <;> decide
  · intro h
    simp only [List.mem_cons, List.not_mem_nil, or_false] at h
    rcases h with rfl | rfl | rfl | rfl | rfl
    · exact ⟨day, rfl⟩
    · exact ⟨week, rfl⟩
    · exact ⟨month, rfl⟩
    · exact ⟨quarter, rfl⟩
    · exact ⟨year, rfl⟩

theorem Period.name_eq_week_iff {p : Period} : p.name = "week" ↔ p = week := by
  cases p <;> decide

theorem RangeExpr.wholeCall_eq (receiver : String) (p : Period) :
    wholeCall receiver p = receiver ++ ".all_" ++ p.name := by
  have hdot : ("." ++ "all_" : String) = ".all_" := by decide
  rw [wholeCall, Period.wholeMethod, ← hdot]
  simp only [String.append_assoc]

theorem RangeExpr.wholeCall_week (receiver a : String) :
    wholeCall receiver .week ++ "(" ++ a ++ ")" = receiver ++ ".all_week(" ++ a ++ ")" := by
  have hopen : (".all_" ++ ("week" ++ "(") : String) = ".all_week(" := by decide
  rw [wholeCall_eq, Period.name, ← hopen]
  simp only [String.append_assoc]

/-- A range expression has a replacement exactly when both endpoints are there, bound one period on
receivers of one text, and pass nothing or, for a week, one argument of one text. -/
theorem RangeExpr.replacement?_iff_bounds_period (range : RangeExpr) (text : String) :
    range.replacement? = some text ↔
      ∃ first last receiver, ∃ word ∈ ["day", "week", "month", "quarter", "year"],
        (range.first = some first ∧ range.last = some last) ∧
        (first.receiver = some receiver ∧ last.receiver = some receiver) ∧
        (first.method = some ("beginning_of_" ++ word) ∧ last.method = some ("end_of_" ++ word)) ∧
        (first.args = [] ∧ last.args = [] ∧ text = receiver ++ ".all_" ++ word ∨
          word = "week" ∧ ∃ a, first.args = [a] ∧ last.args = [a] ∧
            text = receiver ++ ".all_week(" ++ a ++ ")") := by
  rw [replacement?_eq_some_iff]
  constructor
  · rintro ⟨first, last, receiver, p, hfirst, hlast, hpair, hargs⟩
    obtain ⟨⟨hfr, hfm⟩, hlr, hlm⟩ := Endpoint.pairing?_eq_some_iff.mp hpair
    refine ⟨first, last, receiver, p.name, Period.exists_name_eq_iff.mp ⟨p, rfl⟩, ⟨hfirst, hlast⟩,
      ⟨hfr, hlr⟩, ⟨hfm, hlm⟩, ?_⟩
    rcases hargs with ⟨hf, hl, rfl⟩ | ⟨rfl, a, hf, hl, rfl⟩
    · exact Or.inl ⟨hf, hl, wholeCall_eq receiver p⟩
    · exact Or.inr ⟨rfl, a, hf, hl, wholeCall_week receiver a⟩
  · rintro ⟨first, last, receiver, word, hword, ⟨hfirst, hlast⟩, ⟨hfr, hlr⟩, ⟨hfm, hlm⟩, hargs⟩
    obtain ⟨p, rfl⟩ := Period.exists_name_eq_iff.mpr hword
    refine ⟨first, last, receiver, p, hfirst, hlast,
      Endpoint.pairing?_eq_some_iff.mpr ⟨⟨hfr, hfm⟩, hlr, hlm⟩, ?_⟩
    rcases hargs with ⟨hf, hl, rfl⟩ | ⟨hname, a, hf, hl, rfl⟩
    · exact Or.inl ⟨hf, hl, (wholeCall_eq receiver p).symm⟩
    · obtain rfl := Period.name_eq_week_iff.mp hname
      exact Or.inr ⟨rfl, a, hf, hl, (wholeCall_week receiver a).symm⟩

/-! ## The parts of a range -/

namespace Node

theorem sublist_of_aroundOperator {prior : Option Node} {ns : List Node} {a b : Node}
    (h : aroundOperator prior ns = (some a, some b)) : [a, b].Sublist (prior.toList ++ ns) := by
  induction ns generalizing prior with
  | nil => simp [aroundOperator] at h
  | cons n ns ih =>
      rw [aroundOperator] at h
      split at h
      · obtain ⟨rfl, hb⟩ := Prod.mk.inj h
        obtain ⟨rest, rfl⟩ := List.head?_eq_some_iff.mp hb
        exact ((List.nil_sublist rest).cons_cons b).cons n |>.cons_cons a
      · exact (ih h).trans (List.sublist_append_right _ _)

/-- The endpoints of a range are two of its children, the first before the last. -/
theorem sublist_of_endpoints {n a b : Node} (h : n.endpoints = (some a, some b)) :
    [a, b].Sublist n.children :=
  (sublist_of_aroundOperator h).trans List.filter_sublist

theorem mem_of_child? {n c : Node} {role : String} (h : n.child? role = some c) :
    c ∈ n.children ∧ c.field = some role := by
  have hrole := List.find?_some h
  exact ⟨List.mem_of_find?_eq_some h, eq_of_beq hrole⟩

/-- Nodes in different roles are different children. -/
theorem ne_of_child? {n a b : Node} {role other : String} (ha : n.child? role = some a)
    (hb : n.child? other = some b) (hne : role ≠ other) : a ≠ b := by
  rintro rfl
  have hfield := (mem_of_child? ha).2
  rw [(mem_of_child? hb).2] at hfield
  exact hne (Option.some.inj hfield).symm

section Length

variable {cs : List Char} {tree : Node}

theorem length_argumentTexts_le (hwf : tree.IsWellFormed cs) {args : Node}
    (hargs : tree.child? "arguments" = some args) :
    ((tree.argumentTexts (encode cs)).map String.length).sum ≤ args.width cs := by
  have hmem := (mem_of_child? hargs).1
  have hchild := hwf.child hmem
  have hsub : (args.children.filter fun a => a.named && !a.isComment).Subperm args.children :=
    List.filter_sublist.subperm
  have hlengths : (tree.argumentTexts (encode cs)).map String.length =
      (args.children.filter fun a => a.named && !a.isComment).map (width cs) := by
    rw [argumentTexts, hargs]
    simp only [List.map_map]
    apply List.map_congr_left
    intro c hc
    exact (hchild.child (List.mem_filter.mp hc).1).isLocated_self.length_text
  rw [hlengths]
  exact hchild.sum_width_le hsub

/-- The receiver, the method and the arguments of a call fit side by side into its text. -/
theorem length_endpoint_le (hwf : tree.IsWellFormed cs) {receiver method : String}
    (hreceiver : (tree.endpoint (encode cs)).receiver = some receiver)
    (hmethod : (tree.endpoint (encode cs)).method = some method) :
    receiver.length + method.length + ((tree.endpoint (encode cs)).args.map String.length).sum ≤
      tree.width cs := by
  cases hcall : tree.plainCall? with
  | none => simp [endpoint, hcall, Endpoint.other] at hreceiver
  | some pair =>
      obtain ⟨r, m⟩ := pair
      simp only [endpoint, hcall, Option.some.injEq] at hreceiver hmethod ⊢
      subst hreceiver hmethod
      have hsends := plainCall?_eq_some_iff.mp hcall
      have hr := child?_eq_some_iff.mpr hsends.plays_receiver
      have hm := child?_eq_some_iff.mpr hsends.plays_method
      have hrmem := (mem_of_child? hr).1
      have hmmem := (mem_of_child? hm).1
      have hrm := ne_of_child? hr hm (by decide)
      rw [(hwf.child hrmem).isLocated_self.length_text, (hwf.child hmmem).isLocated_self.length_text]
      cases hargs : tree.child? "arguments" with
      | none =>
          have hsub : [r, m].Subperm tree.children :=
            List.Nodup.subperm (by simp [hrm]) (by simp [hrmem, hmmem])
          have hsum := hwf.sum_width_le hsub
          simp only [argumentTexts, hargs, List.map_nil, List.sum_nil, List.map_cons,
            List.sum_cons] at hsum ⊢
          omega
      | some args =>
          have hamem := (mem_of_child? hargs).1
          have hra := ne_of_child? hr hargs (by decide)
          have hma := ne_of_child? hm hargs (by decide)
          have hsub : [r, m, args].Subperm tree.children :=
            List.Nodup.subperm (by simp [hrm, hra, hma]) (by simp [hrmem, hmmem, hamem])
          have hsum := hwf.sum_width_le hsub
          have hle := length_argumentTexts_le hwf hargs
          simp only [List.map_cons, List.map_nil, List.sum_cons, List.sum_nil] at hsum
          omega

end Length

end Node

namespace Rule

/-- The endpoints of a range that has a replacement, and the texts that make it up. -/
theorem exists_endpoints_of_replacement? {source : Bytes} {n : Node} {text : String}
    (h : replacement? source n = some text) :
    ∃ a b receiver p, n.endpoints = (some a, some b) ∧
      (a.endpoint source).pairing? (b.endpoint source) = some (receiver, p) ∧
      ((a.endpoint source).args = [] ∧ (b.endpoint source).args = [] ∧
          text = RangeExpr.wholeCall receiver p ∨
        p = .week ∧ ∃ arg, (a.endpoint source).args = [arg] ∧ (b.endpoint source).args = [arg] ∧
          text = RangeExpr.wholeCall receiver p ++ "(" ++ arg ++ ")") := by
  obtain ⟨-, h⟩ := Option.ite_none_right_eq_some.mp h
  obtain ⟨first, last, receiver, p, hfirst, hlast, hpair, htext⟩ :=
    RangeExpr.replacement?_eq_some_iff.mp h
  obtain ⟨a, ha, rfl⟩ := Option.map_eq_some_iff.mp hfirst
  obtain ⟨b, hb, rfl⟩ := Option.map_eq_some_iff.mp hlast
  exact ⟨a, b, receiver, p, Prod.ext ha hb, hpair, htext⟩

section Shorter

variable {cs : List Char} {n : Node} {text : String}

/-- A range that has a replacement has two children that cover text, one before the other. -/
theorem exists_children_of_replacement? (hwf : n.IsWellFormed cs)
    (h : replacement? (encode cs) n = some text) :
    ∃ a b, [a, b].Sublist n.children ∧ 0 < a.width cs ∧ 0 < b.width cs ∧
      text.length < a.width cs + b.width cs := by
  obtain ⟨a, b, receiver, p, hends, hpair, htext⟩ := exists_endpoints_of_replacement? h
  obtain ⟨⟨har, ham⟩, hbr, hbm⟩ := Endpoint.pairing?_eq_some_iff.mp hpair
  have hsub := Node.sublist_of_endpoints hends
  have hale := Node.length_endpoint_le (hwf.child (hsub.subset (by simp))) har ham
  have hble := Node.length_endpoint_le (hwf.child (hsub.subset (by simp))) hbr hbm
  rw [p.length_beginMethod] at hale
  rw [p.length_endMethod] at hble
  refine ⟨a, b, hsub, by omega, by omega, ?_⟩
  rcases htext with ⟨-, -, rfl⟩ | ⟨-, arg, hargs, hbrgs, rfl⟩
  · rw [RangeExpr.length_wholeCall]
    omega
  · rw [hargs, List.map_singleton, List.sum_singleton] at hale
    rw [hbrgs, List.map_singleton, List.sum_singleton] at hble
    have hopen : ("(").length = 1 := rfl
    have hclose : (")").length = 1 := rfl
    rw [String.length_append, String.length_append, String.length_append,
      RangeExpr.length_wholeCall, hopen, hclose]
    omega

/-- A replacement is shorter than the text of its range. -/
theorem length_replacement?_lt (hwf : n.IsWellFormed cs)
    (h : replacement? (encode cs) n = some text) :
    text.length < (n.text (encode cs)).length := by
  obtain ⟨a, b, hsub, -, -, hlt⟩ := exists_children_of_replacement? hwf h
  have hsum := hwf.sum_width_le hsub.subperm
  simp only [List.map_cons, List.map_nil, List.sum_cons, List.sum_nil] at hsum
  rw [hwf.isLocated_self.length_text]
  omega

/-- No child covers the whole of a range that has a replacement. -/
theorem not_within_child_of_replacement? (hwf : n.IsWellFormed cs)
    (h : replacement? (encode cs) n = some text) {c : Node} (hc : c ∈ n.children) :
    ¬ n.Within c := by
  obtain ⟨a, b, hsub, ha, hb, -⟩ := exists_children_of_replacement? hwf h
  have hnested := hwf.isNested_self
  have hamem : a ∈ n.children := hsub.subset (by simp)
  have hbmem : b ∈ n.children := hsub.subset (by simp)
  have halt := (hwf.child hamem).isLocated_self.start_lt_stop ha
  have hblt := (hwf.child hbmem).isLocated_self.start_lt_stop hb
  obtain ⟨hastart, hastop⟩ := hnested.inside a hamem
  obtain ⟨hbstart, hbstop⟩ := hnested.inside b hbmem
  rintro ⟨hstart, hstop⟩
  by_cases hca : c = a
  · subst hca
    have hgap := (List.pairwise_cons.mp (hnested.ordered.sublist hsub)).1 b List.mem_cons_self
    omega
  · have := hnested.disjoint_of_ne hc hamem hca
    omega

end Shorter

end Rule

end PeriodLint
