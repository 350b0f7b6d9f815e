import PeriodLint.Syntax.RangeNode
import Mathlib.Data.List.Basic
import Mathlib.Data.Option.Basic

/-!
# The form of calls and ranges

What a plain call and a range are made of, put down without the steps by which
the parts are looked for. Looking for the parts finds exactly these.
-/

namespace PeriodLint

namespace Node

/-- A child plays a role for its parent, and no child before it does. -/
def Plays (n : Node) (role : String) (c : Node) : Prop :=
  ∃ before after, n.children = before ++ c :: after ∧ c.field = some role ∧
    ∀ b ∈ before, b.field ≠ some role

/-- A call of a method on a receiver, without a block, where no token from the end of the receiver
to the start of the method is other than a plain operator. -/
structure Sends (n receiver method : Node) : Prop where
  kind_eq : n.kind = "call"
  no_block : ∀ c ∈ n.children, c.field ≠ some "block"
  plays_receiver : n.Plays "receiver" receiver
  plays_method : n.Plays "method" method
  method_kind : method.kind = "identifier" ∨ method.kind = "constant"
  operators : ∀ c ∈ n.children, c.named = false → receiver.stop ≤ c.start →
    c.start < method.start → c.kind = "." ∨ c.kind = "::"

/-- The nodes that a call passes are the named children of its arguments, comments left out. -/
def Passes (n : Node) (args : List Node) : Prop :=
  (∀ c ∈ n.children, c.field ≠ some "arguments") ∧ args = [] ∨
    ∃ list, n.Plays "arguments" list ∧
      args = list.children.filter fun a => a.named && a.kind != "comment"

/-- The first range operator among the children is the one that includes the last value, and the
endpoints stand next to it when comments are left out. -/
def Joins (n first last : Node) : Prop :=
  ∃ before operator after, n.children = before ++ operator :: after ∧ operator.kind = ".." ∧
    (∀ c ∈ before, c.kind ≠ ".." ∧ c.kind ≠ "...") ∧
    (before.filter fun c => c.kind != "comment").getLast? = some first ∧
    (after.filter fun c => c.kind != "comment").head? = some last

/-! ## Looking for the parts -/

theorem child?_eq_some_iff {n c : Node} {role : String} :
    n.child? role = some c ↔ n.Plays role c := by
  rw [child?, List.find?_eq_some_iff_append]
  constructor
  · rintro ⟨hrole, before, after, heq, hbefore⟩
    refine ⟨before, after, heq, eq_of_beq hrole, fun b hb => ?_⟩
    simpa using hbefore b hb
  · rintro ⟨before, after, heq, hrole, hbefore⟩
    refine ⟨by simp [hrole], before, after, heq, fun b hb => ?_⟩
    simpa using hbefore b hb

theorem child?_eq_none_iff {n : Node} {role : String} :
    n.child? role = none ↔ ∀ c ∈ n.children, c.field ≠ some role := by
  simp [child?]

theorem sendsPlainly_iff {n receiver method : Node} :
    n.sendsPlainly receiver method = true ↔
      ∀ c ∈ n.children, c.named = false → receiver.stop ≤ c.start → c.start < method.start →
        c.kind = "." ∨ c.kind = "::" := by
  rw [sendsPlainly, List.all_eq_true]
  refine forall₂_congr fun c _ => ?_
  simp only [isSendOperator, Bool.or_eq_true, decide_eq_true_eq, beq_iff_eq]
  constructor
  · rintro (((hnamed | hbefore) | hbehind) | hoperator) hnot hstop hstart
    · rw [hnot] at hnamed
      cases hnamed
    · omega
    · omega
    · exact hoperator
  · intro h
    by_contra hno
    simp only [not_or, Bool.not_eq_true, Nat.not_lt, Nat.not_le] at hno
    obtain ⟨⟨⟨hnot, hstop⟩, hstart⟩, hkinds⟩ := hno
    exact (h hnot hstop hstart).elim hkinds.1 hkinds.2

theorem plainCall?_eq_some_iff {n receiver method : Node} :
    n.plainCall? = some (receiver, method) ↔ n.Sends receiver method := by
  simp only [plainCall?, Option.bind_eq_bind, Option.bind_eq_some_iff, Option.guard_eq_some',
    Bool.and_eq_true, beq_iff_eq, Option.isNone_iff_eq_none, child?_eq_none_iff,
    child?_eq_some_iff, sendsPlainly_iff, isMethodName, Bool.or_eq_true]
  constructor
  · rintro ⟨-, ⟨hkind, hblock⟩, r, hr, m, hm, -, ⟨hmethod, hoperators⟩, heq⟩
    obtain ⟨rfl, rfl⟩ := Prod.mk.inj (Option.some.inj heq)
    exact ⟨hkind, hblock, hr, hm, hmethod, hoperators⟩
  · intro h
    exact ⟨(), ⟨h.kind_eq, h.no_block⟩, receiver, h.plays_receiver, method, h.plays_method, (),
      ⟨h.method_kind, h.operators⟩, rfl⟩

theorem argumentTexts_eq_iff {source : Bytes} {n : Node} {texts : List String} :
    n.argumentTexts source = texts ↔ ∃ args, n.Passes args ∧ args.map (text source) = texts := by
  rw [argumentTexts]
  cases h : n.child? "arguments" with
  | none =>
      rw [child?_eq_none_iff] at h
      constructor
      · rintro rfl
        exact ⟨[], Or.inl ⟨h, rfl⟩, rfl⟩
      · rintro ⟨args, ⟨-, rfl⟩ | ⟨list, ⟨before, after, heq, hrole, -⟩, -⟩, rfl⟩
        · rfl
        · exact absurd hrole (h list (by simp [heq]))
  | some list =>
      have hlist := child?_eq_some_iff.mp h
      constructor
      · rintro rfl
        exact ⟨_, Or.inr ⟨list, hlist, rfl⟩, rfl⟩
      · rintro ⟨args, ⟨hnone, -⟩ | ⟨other, hother, rfl⟩, rfl⟩
        · rw [child?_eq_none_iff.mpr hnone] at h
          cases h
        · rw [child?_eq_some_iff.mpr hother] at h
          obtain rfl := Option.some.inj h
          rfl

theorem aroundOperator_append {operator : Node} (prior : Option Node) {before : List Node}
    (after : List Node) (hbefore : ∀ c ∈ before, c.isRangeOperator = false)
    (hoperator : operator.isRangeOperator = true) :
    aroundOperator prior (before ++ operator :: after) =
      ((prior.toList ++ before).getLast?, after.head?) := by
  induction before generalizing prior with
  | nil => cases prior <;> simp [aroundOperator, hoperator]
  | cons c before ih =>
      obtain ⟨hc, hbefore⟩ := List.forall_mem_cons.mp hbefore
      rw [List.cons_append, aroundOperator, if_neg (by simp [hc]), ih (some c) hbefore]
      simp [List.getLast?_append, List.getLast?_cons]

theorem isRangeOperator_eq_false_iff {n : Node} :
    n.isRangeOperator = false ↔ n.kind ≠ ".." ∧ n.kind ≠ "..." := by
  simp [isRangeOperator]

theorem isComment_of_isRangeOperator {n : Node} (h : n.isRangeOperator = true) :
    n.isComment = false := by
  rw [isRangeOperator, Bool.or_eq_true, beq_iff_eq, beq_iff_eq] at h
  rcases h with h | h <;> simp [isComment, h]

/-- Leaving comments out does not change which operator is the first. -/
theorem endpoints_eq {n operator : Node} {before after : List Node}
    (heq : n.children = before ++ operator :: after) (hoperator : operator.isRangeOperator = true)
    (hbefore : ∀ c ∈ before, c.isRangeOperator = false) :
    n.endpoints = ((before.filter fun c => c.kind != "comment").getLast?,
      (after.filter fun c => c.kind != "comment").head?) := by
  rw [endpoints, heq, List.filter_append, List.filter_cons,
    isComment_of_isRangeOperator hoperator, Bool.not_false, if_pos rfl,
    aroundOperator_append none _ (fun c hc => hbefore c (List.mem_filter.mp hc).1) hoperator]
  rfl

theorem aroundOperator_of_no_operator (prior : Option Node) {ns : List Node}
    (h : ∀ c ∈ ns, c.isRangeOperator = false) : aroundOperator prior ns = (none, none) := by
  induction ns generalizing prior with
  | nil => rfl
  | cons c ns ih =>
      obtain ⟨hc, hns⟩ := List.forall_mem_cons.mp h
      rw [aroundOperator, if_neg (by simp [hc]), ih (some c) hns]

theorem rangeOperator?_eq_none_iff {n : Node} :
    n.rangeOperator? = none ↔ ∀ c ∈ n.children, c.isRangeOperator = false := by
  simp [rangeOperator?]

theorem rangeOperator?_eq_some_iff {n : Node} {kind : String} :
    n.rangeOperator? = some kind ↔
      ∃ before operator after, n.children = before ++ operator :: after ∧ operator.kind = kind ∧
        operator.isRangeOperator = true ∧ ∀ c ∈ before, c.isRangeOperator = false := by
  simp only [rangeOperator?, Option.map_eq_some_iff, List.find?_eq_some_iff_append,
    Bool.not_eq_true']
  constructor
  · rintro ⟨operator, ⟨hoperator, before, after, heq, hbefore⟩, rfl⟩
    exact ⟨before, operator, after, heq, rfl, hoperator, hbefore⟩
  · rintro ⟨before, operator, after, heq, rfl, hoperator, hbefore⟩
    exact ⟨operator, ⟨hoperator, before, after, heq, hbefore⟩, rfl⟩

theorem joins_iff {n first last : Node} :
    n.Joins first last ↔
      n.rangeOperator? = some ".." ∧ n.endpoints = (some first, some last) := by
  rw [rangeOperator?_eq_some_iff]
  constructor
  · rintro ⟨before, operator, after, heq, hkind, hbefore, hfirst, hlast⟩
    have hoperator : operator.isRangeOperator = true := by simp [isRangeOperator, hkind]
    have hnone : ∀ c ∈ before, c.isRangeOperator = false :=
      fun c hc => isRangeOperator_eq_false_iff.mpr (hbefore c hc)
    refine ⟨⟨before, operator, after, heq, hkind, hoperator, hnone⟩, ?_⟩
    rw [endpoints_eq heq hoperator hnone, hfirst, hlast]
  · rintro ⟨⟨before, operator, after, heq, hkind, hoperator, hnone⟩, hends⟩
    rw [endpoints_eq heq hoperator hnone] at hends
    obtain ⟨hfirst, hlast⟩ := Prod.mk.inj hends
    exact ⟨before, operator, after, heq, hkind,
      fun c hc => isRangeOperator_eq_false_iff.mp (hnone c hc), hfirst, hlast⟩

end Node

end PeriodLint
