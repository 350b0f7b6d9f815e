import PeriodLint.Proofs.Rule.Reports
import PeriodLint.Proofs.Syntax.RangeForm
import Mathlib.Data.List.Forall2

/-!
# Remarks between the parts of a range

A comment may be put anywhere into a tree without a change to the other nodes.
What a range node is matched on leaves comments out where it looks for parts,
and so neither the operator of a range nor the view of its endpoints changes.
-/

namespace PeriodLint

namespace Node

/-- A comment that plays no role for its parent. -/
structure IsRemark (c : Node) : Prop where
  kind_eq : c.kind = "comment"
  named : c.named = true
  field_eq : c.field = none

/-- Nodes that are related one by one, with remarks put at any places between them. -/
inductive Interleaved (R : Node → Node → Prop) : List Node → List Node → Prop
  | nil : Interleaved R [] []
  | keep {n m : Node} {ns ms : List Node} (head : R n m) (rest : Interleaved R ns ms) :
      Interleaved R (n :: ns) (m :: ms)
  | remark {c : Node} {ns ms : List Node} (head : c.IsRemark) (rest : Interleaved R ns ms) :
      Interleaved R ns (c :: ms)

/-- A tree with remarks put into it, among the children of any of its nodes. -/
inductive Remarked : Node → Node → Prop
  | mk {n : Node} {ms : List Node} (children : Interleaved Remarked n.children ms) :
      Remarked n { n with children := ms }

/-! ## What is kept -/

section Interleaved

variable {R : Node → Node → Prop} {ns ms : List Node}

theorem interleaved_refl (h : ∀ n ∈ ns, R n n) : Interleaved R ns ns := by
  induction ns with
  | nil => exact .nil
  | cons n ns ih =>
      obtain ⟨hn, hns⟩ := List.forall_mem_cons.mp h
      exact .keep hn (ih hns)

/-- Nodes of a property that no remark has are related one by one. -/
theorem Interleaved.filter (h : Interleaved R ns ms) {p : Node → Bool}
    (hremark : ∀ c : Node, c.IsRemark → p c = false) (hrel : ∀ n m, R n m → p m = p n) :
    List.Forall₂ R (ns.filter p) (ms.filter p) := by
  induction h with
  | nil => exact List.Forall₂.nil
  | @keep n m ns ms hnm rest ih =>
      rw [List.filter_cons, List.filter_cons, hrel n m hnm]
      split
      · exact List.Forall₂.cons hnm ih
      · exact ih
  | remark hc rest ih =>
      rw [List.filter_cons_of_neg (by simp [hremark _ hc])]
      exact ih

theorem rel_head? (h : List.Forall₂ R ns ms) : Option.Rel R ns.head? ms.head? := by
  cases h with
  | nil => exact .none
  | cons hnm rest => exact .some hnm

theorem rel_cases {x y : Option Node} (h : Option.Rel R x y) :
    x = none ∧ y = none ∨ ∃ a b, x = some a ∧ y = some b ∧ R a b := by
  cases h with
  | none => exact Or.inl ⟨rfl, rfl⟩
  | some hab => exact Or.inr ⟨_, _, rfl, rfl, hab⟩

theorem Interleaved.find? (h : Interleaved R ns ms) {p : Node → Bool}
    (hremark : ∀ c : Node, c.IsRemark → p c = false) (hrel : ∀ n m, R n m → p m = p n) :
    Option.Rel R (ns.find? p) (ms.find? p) := by
  rw [← List.head?_filter, ← List.head?_filter]
  exact rel_head? (h.filter hremark hrel)

theorem Interleaved.all (h : Interleaved R ns ms) {p q : Node → Bool}
    (hremark : ∀ c : Node, c.IsRemark → q c = true) (hrel : ∀ n m, R n m → q m = p n) :
    ms.all q = ns.all p := by
  induction h with
  | nil => rfl
  | keep hnm rest ih => rw [List.all_cons, List.all_cons, hrel _ _ hnm, ih]
  | remark hc rest ih => rw [List.all_cons, hremark _ hc, Bool.true_and, ih]

/-- The neighbours of the first operator are related when the nodes are. -/
theorem rel_aroundOperator (hrel : ∀ n m, R n m → m.isRangeOperator = n.isRangeOperator)
    {prior prior' : Option Node} (hprior : Option.Rel R prior prior')
    (h : List.Forall₂ R ns ms) :
    Option.Rel R (aroundOperator prior ns).1 (aroundOperator prior' ms).1 ∧
      Option.Rel R (aroundOperator prior ns).2 (aroundOperator prior' ms).2 := by
  induction h generalizing prior prior' with
  | nil => exact ⟨.none, .none⟩
  | @cons n m ns ms hnm rest ih =>
      rw [aroundOperator, aroundOperator, hrel n m hnm]
      split
      · exact ⟨hprior, rel_head? rest⟩
      · exact ih (.some hnm)

end Interleaved

/-! ## Trees with remarks -/

theorem Remarked.refl (n : Node) : n.Remarked n := by
  induction n using induct with
  | step n ih =>
      have h := Remarked.mk (interleaved_refl ih)
      cases n
      exact h

section Remarked

variable {n m receiver receiver' method method' : Node}

theorem Remarked.children (h : n.Remarked m) : Interleaved Remarked n.children m.children := by
  cases h with
  | mk hchildren => exact hchildren

theorem Remarked.kind_eq (h : n.Remarked m) : m.kind = n.kind := by
  cases h
  rfl

theorem Remarked.named_eq (h : n.Remarked m) : m.named = n.named := by
  cases h
  rfl

theorem Remarked.field_eq (h : n.Remarked m) : m.field = n.field := by
  cases h
  rfl

theorem Remarked.start_eq (h : n.Remarked m) : m.start = n.start := by
  cases h
  rfl

theorem Remarked.stop_eq (h : n.Remarked m) : m.stop = n.stop := by
  cases h
  rfl

theorem Remarked.isRangeOperator_eq (h : n.Remarked m) :
    m.isRangeOperator = n.isRangeOperator := by
  rw [isRangeOperator, isRangeOperator, h.kind_eq]

theorem Remarked.text_eq (source : Bytes) (h : n.Remarked m) : m.text source = n.text source := by
  rw [text, text, h.start_eq, h.stop_eq]

theorem map_text_eq (source : Bytes) {ns ms : List Node} (h : List.Forall₂ Remarked ns ms) :
    ms.map (text source) = ns.map (text source) := by
  induction h with
  | nil => rfl
  | cons hnm rest ih => rw [List.map_cons, List.map_cons, hnm.text_eq, ih]

/-- A remark takes over no role. -/
theorem Remarked.child? (h : n.Remarked m) (role : String) :
    Option.Rel Remarked (n.child? role) (m.child? role) :=
  h.children.find? (fun c hc => by simp [hc.field_eq]) fun a b hab => by rw [hab.field_eq]

/-- A remark stands for no operator between a receiver and a method. -/
theorem Remarked.sendsPlainly_eq (h : n.Remarked m) (hreceiver : receiver.Remarked receiver')
    (hmethod : method.Remarked method') :
    m.sendsPlainly receiver' method' = n.sendsPlainly receiver method := by
  refine h.children.all (fun c hc => by simp [hc.named]) fun a b hab => ?_
  rw [hab.named_eq, hab.start_eq, hreceiver.stop_eq, hmethod.start_eq, isSendOperator,
    isSendOperator, hab.kind_eq]

theorem Remarked.argumentTexts_eq (source : Bytes) (h : n.Remarked m) :
    m.argumentTexts source = n.argumentTexts source := by
  rw [argumentTexts, argumentTexts]
  rcases rel_cases (h.child? "arguments") with ⟨hn, hm⟩ | ⟨list, list', hn, hm, hlist⟩
  · rw [hn, hm]
  · rw [hn, hm]
    refine map_text_eq source (hlist.children.filter ?_ ?_)
    · intro c hc
      simp [isComment, hc.kind_eq]
    · intro a b hab
      rw [hab.named_eq, isComment, isComment, hab.kind_eq]

/-- The receiver and the method of a call are the same but for remarks in them. -/
theorem Remarked.plainCall? (h : n.Remarked m) :
    n.plainCall? = none ∧ m.plainCall? = none ∨
      ∃ r k r' k', n.plainCall? = some (r, k) ∧ m.plainCall? = some (r', k') ∧
        r.Remarked r' ∧ k.Remarked k' := by
  have hblock : (m.child? "block").isNone = (n.child? "block").isNone := by
    rcases rel_cases (h.child? "block") with ⟨hn, hm⟩ | ⟨b, b', hn, hm, -⟩
    · rw [hn, hm]
    · rw [hn, hm, Option.isNone_some, Option.isNone_some]
  rw [Node.plainCall?, Node.plainCall?, h.kind_eq, hblock]
  cases n.kind == "call" && (n.child? "block").isNone with
  | false => exact Or.inl ⟨rfl, rfl⟩
  | true =>
      rcases rel_cases (h.child? "receiver") with ⟨hn, hm⟩ | ⟨r, r', hn, hm, hreceiver⟩
      · rw [hn, hm]
        exact Or.inl ⟨rfl, rfl⟩
      · rw [hn, hm]
        rcases rel_cases (h.child? "method") with ⟨hn, hm⟩ | ⟨k, k', hn, hm, hmethod⟩
        · rw [hn, hm]
          exact Or.inl ⟨rfl, rfl⟩
        · rw [hn, hm]
          have hname : k'.isMethodName = k.isMethodName := by
            rw [isMethodName, isMethodName, hmethod.kind_eq]
          simp only [Option.bind_eq_bind, Option.bind_some, hname,
            h.sendsPlainly_eq hreceiver hmethod]
          cases k.isMethodName && n.sendsPlainly r k with
          | false => exact Or.inl ⟨rfl, rfl⟩
          | true => exact Or.inr ⟨r, k, r', k', rfl, rfl, hreceiver, hmethod⟩

theorem Remarked.endpoint_eq (source : Bytes) (h : n.Remarked m) :
    m.endpoint source = n.endpoint source := by
  rw [endpoint, endpoint, h.argumentTexts_eq]
  rcases h.plainCall? with ⟨hn, hm⟩ | ⟨r, k, r', k', hn, hm, hreceiver, hmethod⟩
  · rw [hn, hm]
  · rw [hn, hm]
    simp only [hreceiver.text_eq, hmethod.text_eq]

theorem Remarked.rangeOperator?_eq (h : n.Remarked m) :
    m.rangeOperator? = n.rangeOperator? := by
  have hoperator := h.children.find? (p := isRangeOperator)
    (fun c hc => by simp [isRangeOperator, hc.kind_eq]) fun a b hab => hab.isRangeOperator_eq
  rw [rangeOperator?, rangeOperator?]
  rcases rel_cases hoperator with ⟨hn, hm⟩ | ⟨a, b, hn, hm, hab⟩
  · rw [hn, hm]
  · rw [hn, hm, Option.map_some, Option.map_some, hab.kind_eq]

theorem map_endpoint_eq (source : Bytes) {x y : Option Node} (h : Option.Rel Remarked x y) :
    y.map (endpoint source) = x.map (endpoint source) := by
  cases h with
  | none => rfl
  | some hab => rw [Option.map_some, Option.map_some, hab.endpoint_eq]

/-- The view of a range does not show the remarks in it. -/
theorem Remarked.rangeExpr_eq (source : Bytes) (h : n.Remarked m) :
    m.rangeExpr source = n.rangeExpr source := by
  have hparts := h.children.filter (p := fun c => !c.isComment)
    (fun c hc => by simp [isComment, hc.kind_eq])
    fun a b hab => by rw [isComment, isComment, hab.kind_eq]
  obtain ⟨hfirst, hlast⟩ :=
    rel_aroundOperator (fun _ _ hab => Remarked.isRangeOperator_eq hab) .none hparts
  rw [rangeExpr, rangeExpr, endpoints, endpoints, map_endpoint_eq source hfirst,
    map_endpoint_eq source hlast]

end Remarked

end Node

/-- Remarks change neither the operator of a range nor the view of its endpoints, and so neither
what the range is matched to nor the report on it. The endpoints are the neighbours of this operator
when comments are left out, and there are none without an operator. -/
theorem remarks_leave_range_match (source : Bytes) (n : Node) :
    (∀ m, n.Remarked m →
      m.rangeOperator? = n.rangeOperator? ∧ m.rangeExpr source = n.rangeExpr source ∧
        (m.rangeExpr source).replacement? = (n.rangeExpr source).replacement? ∧
        ∀ severity, Rule.flag? severity source m = Rule.flag? severity source n) ∧
    (n.rangeOperator? = none → n.rangeExpr source = ⟨none, none⟩) ∧
    ∀ kind, n.rangeOperator? = some kind →
      ∃ before operator after, n.children = before ++ operator :: after ∧ operator.kind = kind ∧
        (kind = ".." ∨ kind = "...") ∧ (∀ c ∈ before, c.kind ≠ ".." ∧ c.kind ≠ "...") ∧
        let first := (before.filter fun c => c.kind != "comment").getLast?
        let last := (after.filter fun c => c.kind != "comment").head?
        n.rangeExpr source =
          ⟨first.map (Node.endpoint source), last.map (Node.endpoint source)⟩ := by
  refine ⟨fun m h => ?_, fun hnone => ?_, fun kind hkind => ?_⟩
  · have hexpr := h.rangeExpr_eq source
    refine ⟨h.rangeOperator?_eq, hexpr, by rw [hexpr], fun severity => ?_⟩
    have hspan : m.span source = n.span source := by
      rw [Node.span, Node.span, h.start_eq, h.stop_eq]
    rw [Rule.flag?, Rule.flag?, Rule.replacement?, Rule.replacement?, h.rangeOperator?_eq, hexpr,
      hspan]
  · have hparts : ∀ c ∈ n.children.filter (!·.isComment), c.isRangeOperator = false :=
      fun c hc => Node.rangeOperator?_eq_none_iff.mp hnone c (List.mem_filter.mp hc).1
    rw [Node.rangeExpr, Node.endpoints, Node.aroundOperator_of_no_operator none hparts]
    rfl
  · obtain ⟨before, operator, after, heq, rfl, hoperator, hbefore⟩ :=
      Node.rangeOperator?_eq_some_iff.mp hkind
    refine ⟨before, operator, after, heq, rfl, by simpa [Node.isRangeOperator] using hoperator,
      fun c hc => Node.isRangeOperator_eq_false_iff.mp (hbefore c hc), ?_⟩
    rw [Node.rangeExpr, Node.endpoints_eq heq hoperator hbefore]

/-! ## Remarks on three levels -/

namespace Sprinkled

/-- The range over a week with an argument at each end, without a comment. -/
def bare : Node :=
  { Commented.week with children := Commented.week.children.filter (!·.isComment) }

/-- A node with a remark before and behind each child, where the children may change as well. -/
def sprinkle (f : Node → Node) (n : Node) : Node :=
  { n with children := n.children.flatMap fun c => [Commented.remark, f c, Commented.remark] }

/-- Remarks among the children of the range, of its endpoints and of their arguments. -/
def sprinkled : Node := sprinkle (sprinkle (sprinkle id)) bare

theorem isRemark_remark : Commented.remark.IsRemark := ⟨rfl, rfl, rfl⟩

theorem interleaved_sprinkle {f : Node → Node} (hf : ∀ c : Node, c.Remarked (f c))
    (ns : List Node) :
    Node.Interleaved Node.Remarked ns
      (ns.flatMap fun c => [Commented.remark, f c, Commented.remark]) := by
  induction ns with
  | nil => exact .nil
  | cons c ns ih => exact .remark isRemark_remark (.keep (hf c) (.remark isRemark_remark ih))

theorem remarked_sprinkle {f : Node → Node} (hf : ∀ c : Node, c.Remarked (f c)) (n : Node) :
    n.Remarked (sprinkle f n) :=
  .mk (interleaved_sprinkle hf n.children)

theorem replacement?_bare :
    (bare.rangeExpr (Utf8.encode Commented.source.toList)).replacement? = some "é.all_week(1)" := by
  have hexpr : bare.rangeExpr (Utf8.encode Commented.source.toList) =
      ⟨some ⟨some "é", some "beginning_of_week", ["1"]⟩,
        some ⟨some "é", some "end_of_week", ["1"]⟩⟩ := by
    decide +kernel
  rw [hexpr]
  decide

end Sprinkled

theorem remarks_leave_range_match_three_levels :
    Sprinkled.bare.Remarked Sprinkled.sprinkled ∧
      Sprinkled.sprinkled.rangeOperator? = some ".." ∧
      (Sprinkled.sprinkled.rangeExpr (Utf8.encode Commented.source.toList)).replacement? =
        some "é.all_week(1)" := by
  have hremarked : Sprinkled.bare.Remarked Sprinkled.sprinkled := by
    apply Sprinkled.remarked_sprinkle
    apply Sprinkled.remarked_sprinkle
    apply Sprinkled.remarked_sprinkle
    exact Node.Remarked.refl
  obtain ⟨hsame, -⟩ :=
    remarks_leave_range_match (Utf8.encode Commented.source.toList) Sprinkled.bare
  obtain ⟨hoperator, -, hmatch, -⟩ := hsame Sprinkled.sprinkled hremarked
  exact ⟨hremarked, hoperator.trans (by decide), hmatch.trans Sprinkled.replacement?_bare⟩

end PeriodLint
