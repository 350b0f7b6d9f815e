import PeriodLint.Proofs.Syntax.Location
import PeriodLint.Syntax.Node
import Mathlib.Algebra.Ring.Nat
import Mathlib.Data.List.Pairwise
import Mathlib.Data.List.Perm.Subperm

/-!
# Well-formed trees

In a well-formed tree every node is located in the source and encloses its
children, which follow one another. Of two nodes in the order of the walk the
later one then lies inside a child of the earlier one or behind it.
-/

namespace PeriodLint.Node

/-- What holds of a node whenever it holds of its children holds of every node. -/
@[elab_as_elim]
theorem induct {motive : Node → Prop} (step : ∀ n : Node, (∀ c ∈ n.children, motive c) → motive n)
    (n : Node) : motive n :=
  @Node.rec motive (fun ns => ∀ c ∈ ns, motive c)
    (fun kind start stop named field missing children ih =>
      step ⟨kind, start, stop, named, field, missing, children⟩ ih)
    (fun _ hc => absurd hc List.not_mem_nil)
    (fun _ _ hm hms => List.forall_mem_cons.mpr ⟨hm, hms⟩)
    n

theorem preorder_eq (n : Node) : n.preorder = n :: preorderAll n.children := by
  cases n
  rw [preorder]

theorem preorderAll_append (ns ms : List Node) :
    preorderAll (ns ++ ms) = preorderAll ns ++ preorderAll ms := by
  induction ns with
  | nil => rfl
  | cons n ns ih => rw [List.cons_append, preorderAll, preorderAll, ih, List.append_assoc]

theorem mem_preorderAll_iff {ns : List Node} {m : Node} :
    m ∈ preorderAll ns ↔ ∃ n ∈ ns, m ∈ n.preorder := by
  induction ns with
  | nil => simp [preorderAll]
  | cons n ns ih => simp [preorderAll, ih]

/-- A stack of trees is visited in the recursive order. -/
theorem visit_eq_preorderAll (stack : List Node) : visit stack = preorderAll stack := by
  fun_induction visit stack with
  | case1 => rfl
  | case2 n stack ih => rw [ih, preorderAll_append, preorderAll, preorder_eq, List.cons_append]

theorem walk_eq_preorder (n : Node) : n.walk = n.preorder := by
  rw [walk, visit_eq_preorderAll, preorderAll, preorderAll, List.append_nil]

theorem mem_preorder_self (n : Node) : n ∈ n.preorder := by
  rw [preorder_eq]
  exact List.mem_cons_self

theorem preorder_subset_of_mem_children {n c : Node} (h : c ∈ n.children) :
    c.preorder ⊆ n.preorder := by
  intro m hm
  rw [preorder_eq]
  exact List.mem_cons_of_mem n (mem_preorderAll_iff.mpr ⟨c, h, hm⟩)

/-- The nodes of a kind are visited in the recursive order. -/
theorem ofKind_eq (n : Node) (kind : String) :
    n.ofKind kind = n.preorder.filter (·.kind == kind) := by
  rw [ofKind, walk_eq_preorder]

theorem mem_ofKind_iff {tree n : Node} {kind : String} :
    n ∈ tree.ofKind kind ↔ n ∈ tree.preorder ∧ n.kind = kind := by
  rw [ofKind_eq, List.mem_filter, beq_iff_eq]

/-! ## Nesting -/

/-- One node covers no byte that another does not cover. -/
def Within (inner outer : Node) : Prop := outer.start ≤ inner.start ∧ inner.stop ≤ outer.stop

instance (inner outer : Node) : Decidable (inner.Within outer) :=
  inferInstanceAs (Decidable (_ ∧ _))

/-- The children of a node lie inside it and follow one another. -/
structure IsNested (n : Node) : Prop where
  inside : ∀ c ∈ n.children, c.Within n
  ordered : n.children.Pairwise fun a b => a.stop ≤ b.start

instance (n : Node) : Decidable n.IsNested :=
  decidable_of_iff ((∀ c ∈ n.children, c.Within n) ∧
      n.children.Pairwise fun a b => a.stop ≤ b.start)
    ⟨fun ⟨hinside, hordered⟩ => ⟨hinside, hordered⟩, fun h => ⟨h.inside, h.ordered⟩⟩

/-- Different children share no byte. -/
theorem IsNested.disjoint_of_ne {n a b : Node} (h : n.IsNested) (ha : a ∈ n.children)
    (hb : b ∈ n.children) (hne : a ≠ b) : a.stop ≤ b.start ∨ b.stop ≤ a.start := by
  have hdisjoint : n.children.Pairwise fun a b => a.stop ≤ b.start ∨ b.stop ≤ a.start :=
    h.ordered.imp Or.inl
  have : Std.Symm fun a b : Node => a.stop ≤ b.start ∨ b.stop ≤ a.start := ⟨fun _ _ => Or.symm⟩
  exact hdisjoint.forall ha hb hne

/-- Every node of a tree is located in a text and encloses its children. -/
def IsWellFormed (cs : List Char) (tree : Node) : Prop :=
  ∀ n ∈ tree.preorder, n.IsLocated cs ∧ n.IsNested

instance (cs : List Char) (tree : Node) : Decidable (tree.IsWellFormed cs) :=
  inferInstanceAs (Decidable (∀ n ∈ tree.preorder, n.IsLocated cs ∧ n.IsNested))

/-- Where a node may lie that the walk visits after another: inside a child of it or behind it. -/
def Precedes (a b : Node) : Prop := (∃ c ∈ a.children, b.Within c) ∨ a.stop ≤ b.start

section WellFormed

variable {cs : List Char}

theorem Within.trans {a b c : Node} (hab : a.Within b) (hbc : b.Within c) : a.Within c :=
  ⟨Nat.le_trans hbc.1 hab.1, Nat.le_trans hab.2 hbc.2⟩

theorem IsWellFormed.isLocated {tree n : Node} (h : tree.IsWellFormed cs)
    (hn : n ∈ tree.preorder) : n.IsLocated cs :=
  (h n hn).1

theorem IsWellFormed.isNested {tree n : Node} (h : tree.IsWellFormed cs)
    (hn : n ∈ tree.preorder) : n.IsNested :=
  (h n hn).2

theorem isWellFormed_leaf {n : Node} (h : n.IsLocated cs) (hchildren : n.children = []) :
    n.IsWellFormed cs := by
  intro m hm
  rw [preorder_eq, hchildren] at hm
  obtain rfl := List.mem_singleton.mp hm
  refine ⟨h, ⟨?_, ?_⟩⟩
  · rw [hchildren]
    exact List.forall_mem_nil _
  · rw [hchildren]
    exact List.Pairwise.nil

theorem IsWellFormed.isLocated_self {tree : Node} (h : tree.IsWellFormed cs) : tree.IsLocated cs :=
  h.isLocated (mem_preorder_self tree)

theorem IsWellFormed.isNested_self {tree : Node} (h : tree.IsWellFormed cs) : tree.IsNested :=
  h.isNested (mem_preorder_self tree)

theorem IsWellFormed.child {tree c : Node} (h : tree.IsWellFormed cs) (hc : c ∈ tree.children) :
    c.IsWellFormed cs :=
  fun n hn => h n (preorder_subset_of_mem_children hc hn)

theorem preorder_subset {tree n : Node} (h : n ∈ tree.preorder) : n.preorder ⊆ tree.preorder := by
  induction tree using induct with
  | step tree ih =>
      rw [preorder_eq] at h
      rcases List.mem_cons.mp h with rfl | h
      · exact List.Subset.refl _
      · obtain ⟨c, hc, hn⟩ := mem_preorderAll_iff.mp h
        exact List.Subset.trans (ih c hc hn) (preorder_subset_of_mem_children hc)

theorem IsWellFormed.subtree {tree n : Node} (h : tree.IsWellFormed cs) (hn : n ∈ tree.preorder) :
    n.IsWellFormed cs :=
  fun m hm => h m (preorder_subset hn hm)

/-- Every node of a tree lies inside its root. -/
theorem IsWellFormed.within {tree m : Node} (h : tree.IsWellFormed cs) (hm : m ∈ tree.preorder) :
    m.Within tree := by
  induction tree using induct with
  | step tree ih =>
      rw [preorder_eq] at hm
      rcases List.mem_cons.mp hm with rfl | hm
      · exact ⟨Nat.le_refl _, Nat.le_refl _⟩
      · obtain ⟨c, hc, hmc⟩ := mem_preorderAll_iff.mp hm
        exact (ih c hc (h.child hc) hmc).trans (h.isNested_self.inside c hc)

theorem pairwise_preorderAll {ns : List Node} (hwf : ∀ n ∈ ns, n.IsWellFormed cs)
    (hordered : ns.Pairwise fun a b => a.stop ≤ b.start)
    (hns : ∀ n ∈ ns, n.preorder.Pairwise Precedes) : (preorderAll ns).Pairwise Precedes := by
  induction ns with
  | nil => exact List.Pairwise.nil
  | cons n ns ih =>
      rw [List.forall_mem_cons] at hwf hns
      rw [List.pairwise_cons] at hordered
      rw [preorderAll, List.pairwise_append]
      refine ⟨hns.1, ih hwf.2 hordered.2 hns.2, ?_⟩
      intro a ha b hb
      obtain ⟨m, hm, hbm⟩ := mem_preorderAll_iff.mp hb
      have hastop := (hwf.1.within ha).2
      have hbstart := ((hwf.2 m hm).within hbm).1
      have hgap := hordered.1 m hm
      exact Or.inr (by omega)

/-- The later of two nodes of a walk lies inside a child of the earlier one or behind it. -/
theorem IsWellFormed.pairwise_preorder {tree : Node} (h : tree.IsWellFormed cs) :
    tree.preorder.Pairwise Precedes := by
  induction tree using induct with
  | step tree ih =>
      rw [preorder_eq, List.pairwise_cons]
      constructor
      · intro m hm
        obtain ⟨c, hc, hmc⟩ := mem_preorderAll_iff.mp hm
        exact Or.inl ⟨c, hc, (h.child hc).within hmc⟩
      · exact pairwise_preorderAll (fun c hc => h.child hc)
          h.isNested_self.ordered fun c hc => ih c hc (h.child hc)

end WellFormed

/-! ## Widths -/

/-- The number of characters that a node covers. -/
def width (cs : List Char) (n : Node) : Nat :=
  Utf8.charsBefore cs n.stop - Utf8.charsBefore cs n.start

section Width

variable {cs : List Char} {n : Node}

theorem IsLocated.length_text (h : n.IsLocated cs) :
    (n.text (Utf8.encode cs)).length = n.width cs := by
  have hle := Utf8.charsBefore_le_length h.stop_mem
  rw [← String.length_toList, h.toList_text, List.length_drop, List.length_take,
    Nat.min_eq_left hle, width]

theorem IsLocated.start_lt_stop (h : n.IsLocated cs) (hpos : 0 < n.width cs) : n.start < n.stop := by
  rw [← Utf8.charsBefore_lt_iff h.start_mem h.stop_mem]
  simp only [width] at hpos
  omega

theorem sum_width_le_of_pairwise {ns : List Node} {lo hi : Nat}
    (hns : ∀ n ∈ ns, n.start ≤ n.stop ∧ lo ≤ n.start ∧ n.stop ≤ hi)
    (hordered : ns.Pairwise fun a b => a.stop ≤ b.start) :
    (ns.map (width cs)).sum ≤ Utf8.charsBefore cs hi - Utf8.charsBefore cs lo := by
  induction ns generalizing lo with
  | nil => exact Nat.zero_le _
  | cons n ns ih =>
      obtain ⟨hn, hns⟩ := List.forall_mem_cons.mp hns
      obtain ⟨hn', hordered⟩ := List.pairwise_cons.mp hordered
      have hsum : (ns.map (width cs)).sum ≤ Utf8.charsBefore cs hi - Utf8.charsBefore cs n.stop :=
        ih (fun m hm => ⟨(hns m hm).1, hn' m hm, (hns m hm).2.2⟩) hordered
      have hlo := Utf8.charsBefore_mono cs hn.2.1
      have hle := Utf8.charsBefore_mono cs hn.1
      have hhi := Utf8.charsBefore_mono cs hn.2.2
      rw [List.map_cons, List.sum_cons, width]
      omega

/-- Some of its children together are no wider than a node. -/
theorem IsWellFormed.sum_width_le (h : n.IsWellFormed cs) {ms : List Node}
    (hms : ms.Subperm n.children) : (ms.map (width cs)).sum ≤ n.width cs := by
  obtain ⟨ns, hperm, hsub⟩ := hms
  rw [← (hperm.map (width cs)).sum_nat]
  refine sum_width_le_of_pairwise (fun c hc => ?_) (h.isNested_self.ordered.sublist hsub)
  have hmem := hsub.subset hc
  exact ⟨(h.child hmem).isLocated_self.start_le_stop, h.isNested_self.inside c hmem⟩

end Width

end PeriodLint.Node
