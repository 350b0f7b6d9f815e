import PeriodLint.Proofs.Text.Encoding
import PeriodLint.Proofs.Text.Lines

/-!
# Places in a text with unified line ends

A text is read with its line ends unified, so a place in what is read may be
further on in the text itself. Every stretch of what is read is the unified form
of the stretch of the text between the same places.
-/

namespace PeriodLint.Text

open Utf8

/-- The offset in a text of what is read at an offset, in characters. -/
def rawOffset : List Char → Nat → Nat
  | _, 0 => 0
  | [], _ + 1 => 0
  | '\r' :: '\n' :: cs, k + 1 => rawOffset cs k + 2
  | _ :: cs, k + 1 => rawOffset cs k + 1

section Offset

theorem rawOffset_zero (cs : List Char) : rawOffset cs 0 = 0 := by rw [rawOffset]

theorem rawOffset_mono (cs : List Char) {i j : Nat} (h : i ≤ j) :
    rawOffset cs i ≤ rawOffset cs j := by
  fun_induction rawOffset cs j generalizing i with
  | case1 cs =>
      obtain rfl := Nat.le_zero.mp h
      exact Nat.le_of_eq (rawOffset_zero cs)
  | case2 k => cases i <;> exact Nat.le_refl 0
  | case3 cs k ih =>
      cases i with
      | zero => exact Nat.zero_le _
      | succ i => exact Nat.add_le_add_right (ih (Nat.le_of_succ_le_succ h)) 2
  | case4 c cs k hne ih =>
      cases i with
      | zero => exact Nat.zero_le _
      | succ i =>
          rw [rawOffset.eq_4 _ _ _ hne]
          exact Nat.add_le_add_right (ih (Nat.le_of_succ_le_succ h)) 1

theorem rawOffset_le_length (cs : List Char) (k : Nat) : rawOffset cs k ≤ cs.length := by
  fun_induction rawOffset cs k with
  | case1 cs => exact Nat.zero_le _
  | case2 k => exact Nat.le_refl 0
  | case3 cs k ih => exact Nat.add_le_add_right ih 2
  | case4 c cs k hne ih => exact Nat.add_le_add_right ih 1

/-- A character that does not begin a pair is read by itself. -/
theorem unifyBreaks_cons {c : Char} {cs : List Char}
    (h : ∀ ds, c = '\r' → cs = '\n' :: ds → False) :
    unifyBreaks (c :: cs) = (if c = '\r' then '\n' else c) :: unifyBreaks cs := by
  by_cases hc : c = '\r'
  · subst hc
    rw [if_pos rfl, unifyBreaks]
    exact fun ds => h ds rfl
  · rw [if_neg hc, unifyBreaks]
    · exact fun _ heq => absurd heq hc
    · exact hc

/-- Line ends are unified piece by piece where no cut goes through one. -/
theorem unifyBreaks_append {cs ds : List Char}
    (h : cs.getLast? = some '\r' → ds.head? ≠ some '\n') :
    unifyBreaks (cs ++ ds) = unifyBreaks cs ++ unifyBreaks ds := by
  induction cs using unifyBreaks.induct with
  | case1 => rfl
  | case2 cs ih =>
      rw [List.cons_append, List.cons_append, unifyBreaks, unifyBreaks, List.cons_append, ih]
      exact fun hlast => h (by simp [List.getLast?_cons, hlast])
  | case3 cs hnext ih =>
      have hjoined : ∀ es, '\r' = '\r' → cs ++ ds = '\n' :: es → False := by
        intro es _ heq
        cases cs with
        | nil => exact h rfl (congrArg List.head? heq)
        | cons d cs => exact hnext cs (congrArg (· :: cs) (List.cons.inj heq).1)
      rw [List.cons_append, unifyBreaks_cons hjoined, unifyBreaks_cons fun es _ => hnext es, ih,
        List.cons_append]
      exact fun hlast => h (by simp [List.getLast?_cons, hlast])
  | case4 c cs _ hc ih =>
      rw [List.cons_append, unifyBreaks_cons fun _ heq _ => hc heq,
        unifyBreaks_cons fun _ heq _ => hc heq, ih, List.cons_append]
      exact fun hlast => h (by simp [List.getLast?_cons, hlast])

/-- What is read up to an offset is the unified form of the text up to there. -/
theorem unifyBreaks_take (cs : List Char) (k : Nat) :
    unifyBreaks (cs.take (rawOffset cs k)) = (unifyBreaks cs).take k := by
  fun_induction rawOffset cs k with
  | case1 cs => rfl
  | case2 k => rfl
  | case3 cs k ih =>
      rw [List.take_succ_cons, List.take_succ_cons, unifyBreaks, unifyBreaks, ih,
        List.take_succ_cons]
  | case4 c cs k hne ih =>
      -- Cutting the text makes no pair of what was none.
      have hfront : ∀ ds, c = '\r' → cs.take (rawOffset cs k) = '\n' :: ds → False := by
        intro ds hc htake
        have hcs := List.take_append_drop (rawOffset cs k) cs
        rw [htake] at hcs
        exact hne _ hc hcs.symm
      rw [List.take_succ_cons, unifyBreaks_cons hfront, unifyBreaks_cons hne, ih,
        List.take_succ_cons]

/-- What is read from an offset on is the unified form of the text from there on. -/
theorem unifyBreaks_drop (cs : List Char) (k : Nat) :
    unifyBreaks (cs.drop (rawOffset cs k)) = (unifyBreaks cs).drop k := by
  fun_induction rawOffset cs k with
  | case1 cs => rfl
  | case2 k => rfl
  | case3 cs k ih =>
      rw [List.drop_succ_cons, List.drop_succ_cons, unifyBreaks, ih, List.drop_succ_cons]
  | case4 c cs k hne ih => rw [List.drop_succ_cons, unifyBreaks_cons hne, ih, List.drop_succ_cons]

/-- What is read between two offsets is the unified form of the text between them. -/
theorem unifyBreaks_drop_take (cs : List Char) {i j : Nat} (h : i ≤ j) :
    unifyBreaks ((cs.take (rawOffset cs j)).drop (rawOffset cs i)) =
      ((unifyBreaks cs).take j).drop i := by
  fun_induction rawOffset cs j generalizing i with
  | case1 cs =>
      obtain rfl := Nat.le_zero.mp h
      rw [rawOffset_zero]
      rfl
  | case2 k => cases i <;> rfl
  | case3 cs k ih =>
      cases i with
      | zero =>
          rw [rawOffset_zero]
          exact unifyBreaks_take ('\r' :: '\n' :: cs) (k + 1)
      | succ i =>
          rw [rawOffset, unifyBreaks, List.take_succ_cons, List.take_succ_cons,
            List.drop_succ_cons, List.drop_succ_cons, List.take_succ_cons, List.drop_succ_cons]
          exact ih (Nat.le_of_succ_le_succ h)
  | case4 c cs k hne ih =>
      cases i with
      | zero =>
          rw [rawOffset_zero, ← rawOffset.eq_4 _ _ _ hne]
          exact unifyBreaks_take (c :: cs) (k + 1)
      | succ i =>
          rw [rawOffset.eq_4 _ _ _ hne, unifyBreaks_cons hne, List.take_succ_cons,
            List.drop_succ_cons, List.take_succ_cons, List.drop_succ_cons]
          exact ih (Nat.le_of_succ_le_succ h)

end Offset

/-! ## Bytes -/

/-- The offset in the bytes of a text of what is read at an offset, in bytes. -/
def rawByteOffset (cs : List Char) (offset : Nat) : Nat :=
  (encode (cs.take (rawOffset cs (charsBefore (unifyBreaks cs) offset)))).length

section Bytes

variable (cs : List Char)

theorem length_encode_take_mono {i j : Nat} (h : i ≤ j) :
    (encode (cs.take i)).length ≤ (encode (cs.take j)).length := by
  have hsplit := List.take_append_drop i (cs.take j)
  rw [List.take_take, Nat.min_eq_left h] at hsplit
  rw [← hsplit, encode_append, List.length_append]
  exact Nat.le_add_right _ _

theorem rawByteOffset_zero : rawByteOffset cs 0 = 0 := by
  rw [rawByteOffset, charsBefore_zero, rawOffset_zero]
  rfl

theorem rawByteOffset_mono {a b : Nat} (h : a ≤ b) : rawByteOffset cs a ≤ rawByteOffset cs b :=
  length_encode_take_mono cs (rawOffset_mono cs (charsBefore_mono _ h))

theorem rawByteOffset_mem_boundaries (offset : Nat) : rawByteOffset cs offset ∈ boundaries cs :=
  mem_boundaries_iff.mpr ⟨_, _, (List.take_append_drop _ cs).symm, rfl⟩

theorem charsBefore_rawByteOffset (offset : Nat) :
    charsBefore cs (rawByteOffset cs offset) =
      rawOffset cs (charsBefore (unifyBreaks cs) offset) := by
  have hsplit := List.take_append_drop (rawOffset cs (charsBefore (unifyBreaks cs) offset)) cs
  have hcount := charsBefore_length_encode
    (cs.take (rawOffset cs (charsBefore (unifyBreaks cs) offset)))
    (cs.drop (rawOffset cs (charsBefore (unifyBreaks cs) offset)))
  rw [hsplit, List.length_take, Nat.min_eq_left (rawOffset_le_length cs _)] at hcount
  exact hcount

end Bytes

end PeriodLint.Text
