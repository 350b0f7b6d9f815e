import PeriodLint.Text.Line
import PeriodLint.Text.Newline
import Mathlib.Data.List.Basic

/-!
# Lines around a place in a text

A text that is cut in two has the cut on one line, which the line feeds before
the cut number. The part of that line before the cut is the last line of the
first piece, and the line begins that much before the cut.
-/

namespace PeriodLint.Text

/-- What follows the last line feed of a text, or all of it. -/
def lastLine : List Char → List Char
  | [] => []
  | c :: cs => if c = '\n' ∨ '\n' ∈ cs then lastLine cs else c :: cs

/-- What comes before the first line feed of a text, or all of it. -/
def firstLine (cs : List Char) : List Char := cs.takeWhile (· != '\n')

@[simp] theorem lines_cons_lineFeed (cs : List Char) : lines ('\n' :: cs) = [] :: lines cs := by
  simp [lines, pieces]

theorem lines_cons_of_ne {c : Char} (hc : c ≠ '\n') {cs line : List Char} {rest : List (List Char)}
    (h : lines cs = line :: rest) : lines (c :: cs) = (c :: line) :: rest := by
  rw [lines] at h ⊢
  simp [pieces, hc, h]

theorem exists_lines_eq_cons (cs : List Char) : ∃ rest, lines cs = firstLine cs :: rest := by
  induction cs with
  | nil => exact ⟨[], rfl⟩
  | cons c cs ih =>
      obtain ⟨rest, h⟩ := ih
      by_cases hc : c = '\n'
      · subst hc
        exact ⟨lines cs, by simp [firstLine]⟩
      · exact ⟨rest, by simp [lines_cons_of_ne hc h, firstLine, hc]⟩

/-- There is one line more than there are line feeds. -/
theorem length_lines (cs : List Char) : (lines cs).length = cs.count '\n' + 1 := by
  induction cs with
  | nil => rfl
  | cons c cs ih =>
      by_cases hc : c = '\n'
      · subst hc
        rw [lines_cons_lineFeed, List.length_cons, ih, List.count_cons_self]
      · obtain ⟨rest, h⟩ := exists_lines_eq_cons cs
        rw [h] at ih
        rw [lines_cons_of_ne hc h, List.count_cons_of_ne hc, ← ih, List.length_cons, List.length_cons]

theorem lastLine_eq_self {cs : List Char} (h : '\n' ∉ cs) : lastLine cs = cs := by
  cases cs with
  | nil => rfl
  | cons c cs =>
      rw [List.mem_cons, not_or] at h
      rw [lastLine, if_neg]
      rintro (rfl | hmem)
      · exact h.1 rfl
      · exact h.2 hmem

theorem lastLine_cons_of_mem {c : Char} {cs : List Char} (h : '\n' ∈ c :: cs) :
    lastLine (c :: cs) = lastLine cs := by
  rw [lastLine, if_pos (by simpa [eq_comm] using h)]

theorem lastLine_append_of_not_mem (pre : List Char) {cs : List Char} (h : '\n' ∉ cs) :
    lastLine (pre ++ cs) = lastLine pre ++ cs := by
  induction pre with
  | nil => rw [List.nil_append, lastLine_eq_self h, lastLine, List.nil_append]
  | cons c pre ih =>
      by_cases hmem : '\n' ∈ c :: pre
      · have hmem' : '\n' ∈ c :: (pre ++ cs) := List.mem_append_left cs hmem
        rw [List.cons_append, lastLine_cons_of_mem hmem, lastLine_cons_of_mem hmem', ih]
      · have hnone : '\n' ∉ (c :: pre) ++ cs := by
          rw [List.mem_append, not_or]
          exact ⟨hmem, h⟩
        rw [lastLine_eq_self hmem, lastLine_eq_self hnone]

/-- A text is its earlier lines, of which the last ends with a line feed, and its last line. -/
theorem exists_append_lastLine (cs : List Char) :
    ∃ earlier, cs = earlier ++ lastLine cs ∧ '\n' ∉ lastLine cs ∧
      (earlier = [] ∨ ∃ front, earlier = front ++ ['\n']) := by
  induction cs with
  | nil => exact ⟨[], rfl, List.not_mem_nil, Or.inl rfl⟩
  | cons c cs ih =>
      by_cases hmem : '\n' ∈ c :: cs
      · obtain ⟨earlier, heq, hlast, hend⟩ := ih
        rw [lastLine_cons_of_mem hmem]
        refine ⟨c :: earlier, by rw [List.cons_append, ← heq], hlast, Or.inr ?_⟩
        rcases hend with rfl | ⟨front, rfl⟩
        · have hc : c = '\n' := by
            rw [heq, List.nil_append, List.mem_cons] at hmem
            exact (hmem.resolve_right hlast).symm
          exact ⟨[], by rw [hc, List.nil_append]⟩
        · exact ⟨c :: front, rfl⟩
      · rw [lastLine_eq_self hmem]
        exact ⟨[], rfl, hmem, Or.inl rfl⟩

theorem length_lastLine_le (cs : List Char) : (lastLine cs).length ≤ cs.length := by
  obtain ⟨earlier, heq, -⟩ := exists_append_lastLine cs
  have hlen := congrArg List.length heq
  rw [List.length_append] at hlen
  omega

/-- The line of the cut is the last line before it followed by the first line after it. -/
theorem getElem?_lines_append (pre post : List Char) :
    (lines (pre ++ post))[pre.count '\n']? = some (lastLine pre ++ firstLine post) := by
  induction pre with
  | nil =>
      obtain ⟨rest, h⟩ := exists_lines_eq_cons post
      rw [List.nil_append, List.count_nil, h]
      rfl
  | cons c pre ih =>
      obtain ⟨rest, hl⟩ := exists_lines_eq_cons (pre ++ post)
      by_cases hc : c = '\n'
      · subst hc
        rw [List.cons_append, lines_cons_lineFeed, List.count_cons_self, List.getElem?_cons_succ,
          ih, lastLine_cons_of_mem List.mem_cons_self]
      · rw [List.cons_append, lines_cons_of_ne hc hl, List.count_cons_of_ne hc]
        rw [hl] at ih
        by_cases hmem : '\n' ∈ pre
        · obtain ⟨k, hk⟩ := Nat.exists_eq_succ_of_ne_zero
            (Nat.pos_iff_ne_zero.mp (List.count_pos_iff.mpr hmem))
          rw [hk, List.getElem?_cons_succ] at ih ⊢
          rw [ih, lastLine_cons_of_mem (List.mem_cons_of_mem c hmem)]
        · have hnone : '\n' ∉ c :: pre := by simp [hmem, Ne.symm hc]
          rw [List.count_eq_zero_of_not_mem hmem, List.getElem?_cons_zero] at ih ⊢
          rw [lastLine_eq_self hmem] at ih
          rw [lastLine_eq_self hnone, Option.some.inj ih, List.cons_append]

/-- The line of the cut begins as much before it as its part before the cut is long. -/
theorem getElem?_startsFrom_lines_append (offset : Nat) (pre post : List Char) :
    (startsFrom offset (lines (pre ++ post)))[pre.count '\n']? =
      some (offset + (pre.length - (lastLine pre).length)) := by
  induction pre generalizing offset with
  | nil =>
      obtain ⟨rest, h⟩ := exists_lines_eq_cons post
      rw [List.nil_append, List.count_nil, h]
      rfl
  | cons c pre ih =>
      obtain ⟨rest, hl⟩ := exists_lines_eq_cons (pre ++ post)
      have hlen := length_lastLine_le pre
      by_cases hc : c = '\n'
      · subst hc
        rw [List.cons_append, lines_cons_lineFeed, List.count_cons_self, startsFrom,
          List.getElem?_cons_succ, ih, lastLine_cons_of_mem List.mem_cons_self, List.length_cons,
          List.length_nil]
        congr 1
        omega
      · rw [List.cons_append, lines_cons_of_ne hc hl, List.count_cons_of_ne hc, startsFrom]
        by_cases hmem : '\n' ∈ pre
        · have hnext := ih (offset + 1)
          obtain ⟨k, hk⟩ := Nat.exists_eq_succ_of_ne_zero
            (Nat.pos_iff_ne_zero.mp (List.count_pos_iff.mpr hmem))
          rw [hl, startsFrom, hk, List.getElem?_cons_succ] at hnext
          rw [hk, List.getElem?_cons_succ, lastLine_cons_of_mem (List.mem_cons_of_mem c hmem),
            List.length_cons, List.length_cons, ← Nat.add_assoc, Nat.add_right_comm offset, hnext]
          congr 1
          omega
        · have hnone : '\n' ∉ c :: pre := by simp [hmem, Ne.symm hc]
          rw [List.count_eq_zero_of_not_mem hmem, List.getElem?_cons_zero, lastLine_eq_self hnone,
            Nat.sub_self, Nat.add_zero]

/-- A place on a line of a text cuts the text in two. -/
theorem exists_append_of_getElem?_lines {cs line : List Char} {row col : Nat}
    (hline : (lines cs)[row]? = some line) (hcol : col ≤ line.length) :
    ∃ pre post, cs = pre ++ post ∧ pre.count '\n' = row ∧ (lastLine pre).length = col := by
  induction cs generalizing line row col with
  | nil =>
      obtain ⟨hrow, rfl⟩ := List.getElem?_eq_some_iff.mp hline
      have hzero : row = 0 := Nat.lt_one_iff.mp hrow
      subst hzero
      exact ⟨[], [], rfl, rfl, (Nat.le_zero.mp hcol).symm⟩
  | cons c cs ih =>
      by_cases hc : c = '\n'
      · subst hc
        rw [lines_cons_lineFeed] at hline
        cases row with
        | zero =>
            obtain rfl := Option.some.inj hline
            exact ⟨[], '\n' :: cs, rfl, rfl, (Nat.le_zero.mp hcol).symm⟩
        | succ row =>
            obtain ⟨pre, post, rfl, hrow, hlast⟩ := ih hline hcol
            refine ⟨'\n' :: pre, post, rfl, by rw [List.count_cons_self, hrow], ?_⟩
            rw [lastLine_cons_of_mem List.mem_cons_self, hlast]
      · obtain ⟨rest, hl⟩ := exists_lines_eq_cons cs
        rw [lines_cons_of_ne hc hl] at hline
        cases row with
        | zero =>
            obtain rfl := Option.some.inj hline
            cases col with
            | zero => exact ⟨[], c :: cs, rfl, rfl, rfl⟩
            | succ col =>
                have hfirst : (lines cs)[0]? = some (firstLine cs) := by
                  rw [hl]
                  rfl
                obtain ⟨pre, post, rfl, hrow, hlast⟩ := ih hfirst (Nat.le_of_succ_le_succ hcol)
                have hmem : '\n' ∉ pre := List.count_eq_zero.mp hrow
                have hnone : '\n' ∉ c :: pre := by simp [hmem, Ne.symm hc]
                rw [lastLine_eq_self hmem] at hlast
                refine ⟨c :: pre, post, rfl, List.count_eq_zero.mpr hnone, ?_⟩
                rw [lastLine_eq_self hnone, List.length_cons, hlast]
        | succ row =>
            have hnext : (lines cs)[row + 1]? = some line := by
              rw [hl]
              exact hline
            obtain ⟨pre, post, rfl, hrow, hlast⟩ := ih hnext hcol
            have hmem : '\n' ∈ pre := List.count_pos_iff.mp (by omega)
            refine ⟨c :: pre, post, rfl, by rw [List.count_cons_of_ne hc, hrow], ?_⟩
            rw [lastLine_cons_of_mem (List.mem_cons_of_mem c hmem), hlast]

/-- Of two cuts of a text, the one at the earlier place comes first. -/
theorem length_le_of_place_le {pre post front back : List Char} (heq : pre ++ post = front ++ back)
    (hle : pre.count '\n' < front.count '\n' ∨ pre.count '\n' = front.count '\n' ∧
      (lastLine pre).length ≤ (lastLine front).length) : pre.length ≤ front.length := by
  by_contra hlt
  obtain ⟨mid, rfl⟩ : front <+: pre :=
    List.prefix_of_prefix_length_le ⟨back, heq.symm⟩ (List.prefix_append pre post) (by omega)
  rw [List.count_append] at hle
  by_cases hmid : '\n' ∈ mid
  · have := List.count_pos_iff.mpr hmid
    omega
  · rw [lastLine_append_of_not_mem front hmid, List.length_append] at hle
    rw [List.length_append] at hlt
    omega

/-! ## Carriage returns -/

theorem not_mem_unifyBreaks (cs : List Char) : '\r' ∉ unifyBreaks cs := by
  fun_induction unifyBreaks cs with
  | case1 => exact List.not_mem_nil
  | case2 cs ih => simpa using ih
  | case3 cs _ ih => simpa using ih
  | case4 c cs _ hc ih => simpa [eq_comm] using ⟨hc, ih⟩

/-- Line feeds are left as they are. -/
theorem unifyBreaks_eq_self {cs : List Char} (h : '\r' ∉ cs) : unifyBreaks cs = cs := by
  fun_induction unifyBreaks cs with
  | case1 => rfl
  | case2 => exact absurd List.mem_cons_self h
  | case3 => exact absurd List.mem_cons_self h
  | case4 c cs _ _ ih => rw [ih fun hmem => h (List.mem_cons_of_mem c hmem)]

end PeriodLint.Text
