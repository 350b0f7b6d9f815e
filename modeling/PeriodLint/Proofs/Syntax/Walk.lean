import Mathlib.Logic.Function.Iterate
import PeriodLint.Proofs.Syntax.Nesting

/-!
# The order of the walk

A node lies at an address in its tree: the children to go to on the way down
from the root. The search for the nodes of one kind takes tree after tree from
the end of a stack. After every round it still holds the nodes that are to come,
in the order of the tree, so it ends after one round for each node, and what it
finds is in the order of the addresses.
-/

namespace PeriodLint

/-- Where a node lies in a tree: the child to go to at each step from the root down. -/
abbrev Address := List Nat

namespace Node

/-! ## Addresses -/

/-- The node at an address. -/
def nodeAt? (n : Node) : Address → Option Node
  | [] => some n
  | i :: address => n.children[i]?.bind (·.nodeAt? address)

mutual

/-- The nodes of a tree with their addresses, a node before its children. -/
def placed : Node → List (Address × Node)
  | ⟨kind, start, stop, named, field, missing, children⟩ =>
      ([], ⟨kind, start, stop, named, field, missing, children⟩) :: placedAll 0 children

/-- The nodes of several children in a row, the first of which has the given number. -/
def placedAll (i : Nat) : List Node → List (Address × Node)
  | [] => []
  | n :: ns => n.placed.map (fun x => (i :: x.1, x.2)) ++ placedAll (i + 1) ns

end

section Placed

variable {n m : Node} {ns : List Node} {i : Nat} {address : Address}

theorem placed_eq (n : Node) : n.placed = ([], n) :: placedAll 0 n.children := by
  cases n
  rw [placed]

theorem map_snd_placedAll (h : ∀ n ∈ ns, n.placed.map Prod.snd = n.preorder) :
    (placedAll i ns).map Prod.snd = preorderAll ns := by
  induction ns generalizing i with
  | nil => rfl
  | cons n ns ih =>
      obtain ⟨hn, hns⟩ := List.forall_mem_cons.mp h
      rw [placedAll, preorderAll, List.map_append, List.map_map, ih hns, ← hn]
      rfl

theorem map_snd_placed (n : Node) : n.placed.map Prod.snd = n.preorder := by
  induction n using induct with
  | step n ih => rw [placed_eq, preorder_eq, List.map_cons, map_snd_placedAll ih]

theorem mem_placedAll_iff {x : Address × Node} :
    x ∈ placedAll i ns ↔
      ∃ k n, ns[k]? = some n ∧ ∃ y ∈ n.placed, x = ((i + k) :: y.1, y.2) := by
  induction ns generalizing i with
  | nil => simp [placedAll]
  | cons n ns ih =>
      rw [placedAll, List.mem_append, List.mem_map, ih]
      constructor
      · rintro (⟨y, hy, rfl⟩ | ⟨k, c, hc, y, hy, rfl⟩)
        · exact ⟨0, n, rfl, y, hy, rfl⟩
        · exact ⟨k + 1, c, hc, y, hy, by rw [Nat.add_right_comm, Nat.add_assoc]⟩
      · rintro ⟨k, c, hc, y, hy, rfl⟩
        cases k with
        | zero =>
            obtain rfl := Option.some.inj hc
            exact Or.inl ⟨y, hy, rfl⟩
        | succ k => exact Or.inr ⟨k, c, hc, y, hy, by rw [Nat.add_right_comm, Nat.add_assoc]⟩

/-- Every node is listed under the address that leads to it. -/
theorem mem_placed_iff : (address, m) ∈ n.placed ↔ n.nodeAt? address = some m := by
  induction n using induct generalizing address with
  | step n ih =>
      rw [placed_eq, List.mem_cons, mem_placedAll_iff]
      cases address with
      | nil => simp [nodeAt?, eq_comm]
      | cons i address =>
          have hroot : (i :: address, m) ≠ ([], n) := fun h => by cases h
          rw [nodeAt?, Option.bind_eq_some_iff, or_iff_right hroot]
          constructor
          · rintro ⟨k, c, hc, ⟨address', m'⟩, hy, heq⟩
            rw [Nat.zero_add] at heq
            cases heq
            exact ⟨c, hc, (ih c (List.mem_of_getElem? hc)).mp hy⟩
          · rintro ⟨c, hc, hm⟩
            exact ⟨i, c, hc, _, (ih c (List.mem_of_getElem? hc)).mpr hm, by rw [Nat.zero_add]⟩

theorem pairwise_placedAll (h : ∀ n ∈ ns, n.placed.Pairwise fun x y => x.1 < y.1) :
    (placedAll i ns).Pairwise fun x y => x.1 < y.1 := by
  induction ns generalizing i with
  | nil => exact List.Pairwise.nil
  | cons n ns ih =>
      obtain ⟨hn, hns⟩ := List.forall_mem_cons.mp h
      rw [placedAll, List.pairwise_append, List.pairwise_map]
      refine ⟨hn.imp fun hlt => List.cons_lt_cons_iff.mpr (Or.inr ⟨rfl, hlt⟩), ih hns, ?_⟩
      -- All of one child comes before anything of a later one.
      intro x hx y hy
      obtain ⟨z, -, rfl⟩ := List.mem_map.mp hx
      obtain ⟨k, -, -, z', -, rfl⟩ := mem_placedAll_iff.mp hy
      exact List.cons_lt_cons_iff.mpr (Or.inl (by omega))

/-- The addresses ascend: what is above a node comes before it, and so does what lies in or below an
earlier child. -/
theorem pairwise_placed (n : Node) : n.placed.Pairwise fun x y => x.1 < y.1 := by
  induction n using induct with
  | step n ih =>
      rw [placed_eq, List.pairwise_cons]
      refine ⟨fun x hx => ?_, pairwise_placedAll ih⟩
      obtain ⟨k, -, -, y, -, rfl⟩ := mem_placedAll_iff.mp hx
      exact List.nil_lt_cons _ _

end Placed

/-! ## The search -/

theorem length_preorderAll {ns : List Node} (h : ∀ n ∈ ns, n.preorder.length = n.size) :
    (preorderAll ns).length = sizeAll ns := by
  induction ns with
  | nil => rfl
  | cons n ns ih =>
      obtain ⟨hn, hns⟩ := List.forall_mem_cons.mp h
      rw [preorderAll, sizeAll, List.length_append, hn, ih hns]

theorem length_preorder (n : Node) : n.preorder.length = n.size := by
  induction n using induct with
  | step n ih => rw [preorder_eq, size_eq, List.length_cons, length_preorderAll ih, Nat.add_comm]

/-- How far the search for the nodes of one kind has come: the trees that are still to be visited,
the next one last, and the nodes that are found. -/
structure Search where
  stack : List Node
  found : List Node := []

namespace Search

/-- One round takes the last tree, finds its root if this is of the kind, and puts its children in
its place, the first of them last. A search without a tree is over and stays as it is. -/
def round (kind : String) (s : Search) : Search :=
  match s.stack.getLast? with
  | none => s
  | some n =>
      { stack := s.stack.dropLast ++ n.children.reverse
        found := if n.kind = kind then s.found ++ [n] else s.found }

/-- The nodes that are still to be visited, in the order of their trees. -/
def pending (s : Search) : List Node := preorderAll s.stack.reverse

variable (kind : String) (s : Search)

theorem stack_eq_nil_iff : s.stack = [] ↔ s.pending = [] := by
  rw [pending, ← List.reverse_eq_nil_iff]
  cases s.stack.reverse with
  | nil => simp [preorderAll]
  | cons n ns => simp [preorderAll, preorder_eq]

/-- A round visits the first of the pending nodes and nothing else. -/
theorem round_spec :
    (s.round kind).pending = s.pending.tail ∧
      (s.round kind).found = s.found ++ (s.pending.take 1).filter (·.kind = kind) := by
  obtain ⟨stack, found⟩ := s
  rcases List.eq_nil_or_concat stack with rfl | ⟨rest, n, rfl⟩
  · simp [round, pending, preorderAll]
  · have hpending : pending ⟨rest ++ [n], found⟩ =
        n :: (preorderAll n.children ++ preorderAll rest.reverse) := by
      rw [pending, List.reverse_append, List.reverse_singleton, List.singleton_append, preorderAll,
        preorder_eq, List.cons_append]
    rw [List.concat_eq_append, hpending, round, List.getLast?_concat, List.dropLast_concat]
    constructor
    · rw [pending, List.reverse_append, List.reverse_reverse, preorderAll_append, List.tail_cons]
    · by_cases hkind : n.kind = kind <;> simp [hkind]

/-- After some rounds as many of the pending nodes are visited, from the first on. -/
theorem iterate_round_spec (k : Nat) :
    ((round kind)^[k] s).pending = s.pending.drop k ∧
      ((round kind)^[k] s).found = s.found ++ (s.pending.take k).filter (·.kind = kind) := by
  induction k with
  | zero => simp
  | succ k ih =>
      obtain ⟨hpending, hfound⟩ := round_spec kind ((round kind)^[k] s)
      rw [Function.iterate_succ_apply', hpending, hfound, ih.1, ih.2, List.tail_drop,
        List.append_assoc, ← List.filter_append, ← List.take_add]
      exact ⟨rfl, rfl⟩

end Search

/-- The search for the nodes of one kind ends after as many rounds as the tree has nodes, and it has
found the nodes of this kind in the recursive order then. These are the nodes of the kind at all
addresses of the tree, each address once and in ascending order, so that a node comes before what is
below it and all that is below it before what is below its next sibling. -/
theorem search_finds_in_order (tree : Node) (kind : String) :
    let after := fun k => (Search.round kind)^[k] { stack := [tree] }
    (∀ k, (after k).stack = [] ↔ tree.size ≤ k) ∧
      (after tree.size).found = tree.ofKind kind ∧
      tree.ofKind kind = tree.preorder.filter (·.kind = kind) ∧
      ∃ located : List (Address × Node),
        located.Pairwise (fun x y => x.1 < y.1) ∧
          (∀ address n, (address, n) ∈ located ↔
            tree.nodeAt? address = some n ∧ n.kind = kind) ∧
          located.map Prod.snd = tree.ofKind kind := by
  intro after
  have hpending : Search.pending { stack := [tree] } = tree.preorder := by
    rw [Search.pending, List.reverse_singleton, preorderAll, preorderAll, List.append_nil]
  have hkind : tree.ofKind kind = tree.preorder.filter (·.kind = kind) := by
    rw [ofKind_eq]
    exact List.filter_congr fun n _ => beq_eq_decide _ _
  refine ⟨fun k => ?_, ?_, hkind, tree.placed.filter (·.2.kind = kind), ?_, ?_, ?_⟩
  · rw [Search.stack_eq_nil_iff, (Search.iterate_round_spec kind _ k).1, hpending,
      List.drop_eq_nil_iff, length_preorder]
  · calc
      (after tree.size).found = (tree.preorder.take tree.size).filter (·.kind = kind) := by
        rw [(Search.iterate_round_spec kind _ _).2, hpending, List.nil_append]
      _ = tree.preorder.filter (·.kind = kind) := by
        rw [← length_preorder, List.take_length]
      _ = tree.ofKind kind := hkind.symm
  · exact (pairwise_placed tree).filter _
  · intro address n
    rw [List.mem_filter, mem_placed_iff, decide_eq_true_iff]
  · rw [hkind, ← map_snd_placed, List.filter_map]
    rfl

end Node

end PeriodLint
