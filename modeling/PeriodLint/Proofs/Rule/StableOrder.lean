import PeriodLint.Analysis
import Mathlib.Data.List.Basic

/-!
# The order of reports

Sorting is stable: the elements that are tied with a given one keep their order.
A sorted list is determined by these, so it makes no difference whether reports
are dropped before they are sorted or after.
-/

namespace PeriodLint

section Stable

variable {α : Type} {le : α → α → Bool}

/-- Neither of two elements has to come first. -/
def tied (le : α → α → Bool) (a b : α) : Bool := le a b && le b a

theorem tied_iff {a b : α} : tied le a b = true ↔ le a b = true ∧ le b a = true :=
  Bool.and_eq_true_iff

/-- Sorting keeps the order of the elements that are tied with a given one. -/
theorem filter_tied_mergeSort (trans : ∀ a b c, le a b → le b c → le a c)
    (total : ∀ a b, le a b || le b a) (a : α) (xs : List α) :
    (xs.mergeSort le).filter (tied le a) = xs.filter (tied le a) := by
  have hsorted : (xs.filter (tied le a)).Pairwise (le · ·) := by
    refine List.pairwise_of_forall_mem_list fun b hb c hc => ?_
    have hb := tied_iff.mp (List.mem_filter.mp hb).2
    have hc := tied_iff.mp (List.mem_filter.mp hc).2
    exact trans b a c hb.2 hc.1
  have hsub := (List.sublist_mergeSort trans total hsorted List.filter_sublist).filter (tied le a)
  simp only [List.filter_filter, Bool.and_self] at hsub
  exact (hsub.eq_of_length ((List.mergeSort_perm xs le).filter _).length_eq.symm).symm

theorem tied_self (total : ∀ a b, le a b || le b a) (a : α) : tied le a a = true := by
  rw [tied, Bool.and_self]
  simpa using total a a

theorem subset_of_filter_tied_eq (total : ∀ a b, le a b || le b a) {xs ys : List α}
    (h : ∀ a, xs.filter (tied le a) = ys.filter (tied le a)) : xs ⊆ ys := by
  intro x hx
  have hmem : x ∈ xs.filter (tied le x) := List.mem_filter.mpr ⟨hx, tied_self total x⟩
  rw [h x] at hmem
  exact (List.mem_filter.mp hmem).1

/-- The heads of sorted lists of the same elements are tied. -/
theorem tied_heads (total : ∀ a b, le a b || le b a) {x y : α} {xs ys : List α}
    (hxs : (x :: xs).Pairwise (le · ·)) (hys : (y :: ys).Pairwise (le · ·)) (hx : x ∈ y :: ys)
    (hy : y ∈ x :: xs) : tied le x y = true := by
  rcases List.mem_cons.mp hx with rfl | hx
  · exact tied_self total x
  · rcases List.mem_cons.mp hy with rfl | hy
    · exact tied_self total y
    · exact tied_iff.mpr ⟨List.rel_of_pairwise_cons hxs hy, List.rel_of_pairwise_cons hys hx⟩

/-- A sorted list is determined by the elements that are tied with each. -/
theorem eq_of_filter_tied_eq (total : ∀ a b, le a b || le b a) {xs ys : List α}
    (hxs : xs.Pairwise (le · ·)) (hys : ys.Pairwise (le · ·))
    (h : ∀ a, xs.filter (tied le a) = ys.filter (tied le a)) : xs = ys := by
  have hsub := subset_of_filter_tied_eq total h
  have hsup := subset_of_filter_tied_eq total fun a => (h a).symm
  induction xs generalizing ys with
  | nil => exact (List.subset_nil.mp hsup).symm
  | cons x xs ih =>
      cases ys with
      | nil => exact absurd (hsub List.mem_cons_self) List.not_mem_nil
      | cons y ys =>
          have hxy := tied_heads total hxs hys (hsub List.mem_cons_self) (hsup List.mem_cons_self)
          -- The elements tied with `x` begin with `x` in one list and with `y` in the other.
          have hheads := h x
          rw [List.filter_cons_of_pos (tied_self total x), List.filter_cons_of_pos hxy] at hheads
          obtain ⟨rfl, -⟩ := List.cons.inj hheads
          have htails : ∀ a, xs.filter (tied le a) = ys.filter (tied le a) := by
            intro a
            have ha := h a
            cases htied : tied le a x with
            | true =>
                rw [List.filter_cons_of_pos htied, List.filter_cons_of_pos htied] at ha
                exact (List.cons.inj ha).2
            | false =>
                rwa [List.filter_cons_of_neg (by simp [htied]),
                  List.filter_cons_of_neg (by simp [htied])] at ha
          rw [ih hxs.of_cons hys.of_cons htails (subset_of_filter_tied_eq total htails)
            (subset_of_filter_tied_eq total fun a => (htails a).symm)]

/-- Where no two elements are tied, their order before sorting makes no difference. -/
theorem mergeSort_eq_of_perm (trans : ∀ a b c, le a b → le b c → le a c)
    (total : ∀ a b, le a b || le b a) {xs ys : List α} (h : xs.Perm ys)
    (htied : ∀ a ∈ xs, ∀ b ∈ xs, tied le a b → a = b) : xs.mergeSort le = ys.mergeSort le := by
  have hperm : (xs.mergeSort le).Perm (ys.mergeSort le) :=
    ((List.mergeSort_perm xs le).trans h).trans (List.mergeSort_perm ys le).symm
  apply List.Perm.eq_of_pairwise _ (List.pairwise_mergeSort trans total xs)
    (List.pairwise_mergeSort trans total ys) hperm
  intro a b ha hb hab hba
  have hbx : b ∈ xs := h.mem_iff.mpr (List.mem_mergeSort.mp hb)
  exact htied a (List.mem_mergeSort.mp ha) b hbx (tied_iff.mpr ⟨hab, hba⟩)

/-- Elements may be dropped before a list is sorted or after. -/
theorem filter_mergeSort (trans : ∀ a b c, le a b → le b c → le a c)
    (total : ∀ a b, le a b || le b a) (p : α → Bool) (xs : List α) :
    (xs.mergeSort le).filter p = (xs.filter p).mergeSort le := by
  refine eq_of_filter_tied_eq total ((List.pairwise_mergeSort trans total xs).filter p)
    (List.pairwise_mergeSort trans total _) fun a => ?_
  have hswap : ∀ zs : List α,
      (zs.filter p).filter (tied le a) = (zs.filter (tied le a)).filter p := by
    intro zs
    simp only [List.filter_filter, Bool.and_comm]
  rw [filter_tied_mergeSort trans total, hswap, hswap, filter_tied_mergeSort trans total]

end Stable

namespace Analysis

theorem precedes_iff {a b : Diagnostic} :
    precedes a b = true ↔
      a.span.line < b.span.line ∨ a.span.line = b.span.line ∧ a.span.col ≤ b.span.col := by
  simp [precedes]

theorem precedes_trans (a b c : Diagnostic) (hab : precedes a b) (hbc : precedes b c) :
    precedes a c := by
  rw [precedes_iff] at *
  omega

theorem precedes_total (a b : Diagnostic) : precedes a b || precedes b a := by
  rw [Bool.or_eq_true, precedes_iff, precedes_iff]
  omega

end Analysis

end PeriodLint
