import PeriodLint.Proofs.Edit.Resolution

/-!
# Places as numbers of characters

A line and a column that name a place in a text lead some number of characters
into it, more the later the place is. A span from a place to a later one is
replaced by the edit between these two numbers.
-/

namespace PeriodLint

open Text

/-- The end of a span is not before its start. -/
def Span.IsForward (span : Span) : Prop :=
  span.line < span.endLine ∨ span.line = span.endLine ∧ span.col ≤ span.endCol

instance (span : Span) : Decidable span.IsForward := inferInstanceAs (Decidable (_ ∨ _))

/-- A line and a column lead a number of characters into a text. -/
structure LiesAt (cs : List Char) (line col : Int) (k : Nat) : Prop where
  le_length : k ≤ cs.length
  line_eq : line = (cs.take k).count '\n' + 1
  col_eq : col = (lastLine (cs.take k)).length

section Place

variable {cs : List Char} {line col endLine endCol : Int} {k m : Nat}

theorem IsPosition.exists_liesAt (h : IsPosition cs line col) : ∃ k, LiesAt cs line col k := by
  obtain ⟨hline, hcol, l, hl, hle⟩ := h
  obtain ⟨col, rfl⟩ := Int.eq_ofNat_of_zero_le hcol
  obtain ⟨pre, post, rfl, hrow, hlast⟩ :=
    exists_append_of_getElem?_lines hl (Int.ofNat_le.mp hle)
  refine ⟨pre.length, ?_, ?_, ?_⟩
  · rw [List.length_append]
    exact Nat.le_add_right _ _
  · rw [List.take_left]
    omega
  · rw [List.take_left, hlast]

/-- Resolved against the starts of the lines, a place is the number of characters before it. -/
theorem LiesAt.offset_eq (h : LiesAt cs line col k) :
    Edit.offset (lineStarts cs) line col = .ok (k : Int) := by
  have hcut := Edit.offset_append (cs.take k) (cs.drop k)
  rwa [List.take_append_drop, List.length_take, Nat.min_eq_left h.le_length, ← h.line_eq,
    ← h.col_eq] at hcut

/-- A number of characters leads to one place. -/
theorem LiesAt.unique (h : LiesAt cs line col k) (h' : LiesAt cs endLine endCol k) :
    line = endLine ∧ col = endCol :=
  ⟨h.line_eq.trans h'.line_eq.symm, h.col_eq.trans h'.col_eq.symm⟩

/-- The earlier of two places has fewer characters before it. -/
theorem LiesAt.le_of_place_le (h : LiesAt cs line col k) (hend : LiesAt cs endLine endCol m)
    (hle : line < endLine ∨ line = endLine ∧ col ≤ endCol) : k ≤ m := by
  obtain ⟨hk, rfl, rfl⟩ := h
  obtain ⟨hm, rfl, rfl⟩ := hend
  have hcuts : cs.take k ++ cs.drop k = cs.take m ++ cs.drop m := by
    rw [List.take_append_drop, List.take_append_drop]
  have hlen := length_le_of_place_le hcuts (by omega)
  rwa [List.length_take, List.length_take, Nat.min_eq_left hk, Nat.min_eq_left hm] at hlen

end Place

/-- A span that runs forward between places resolves to an edit between two cuts of the text. -/
theorem Span.IsPlaced.exists_cuts {cs : List Char} {span : Span} (h : span.IsPlaced cs)
    (hforward : span.IsForward) (text : String) :
    ∃ k m, LiesAt cs span.line span.col k ∧ LiesAt cs span.endLine span.endCol m ∧ k ≤ m ∧
      Edit.ofSpan (lineStarts cs) span text = .ok ⟨k, m, text⟩ := by
  obtain ⟨k, hk⟩ := h.1.exists_liesAt
  obtain ⟨m, hm⟩ := h.2.exists_liesAt
  refine ⟨k, m, hk, hm, hk.le_of_place_le hm hforward, ?_⟩
  rw [Edit.ofSpan, hk.offset_eq, hm.offset_eq]
  rfl

/-- Spans between places that resolve to the same edit are the same. -/
theorem Span.IsPlaced.eq_of_ofSpan {cs : List Char} {span other : Span} {text text' : String}
    {e : Edit} (h : span.IsPlaced cs) (hforward : span.IsForward) (h' : other.IsPlaced cs)
    (hforward' : other.IsForward) (he : Edit.ofSpan (lineStarts cs) span text = .ok e)
    (he' : Edit.ofSpan (lineStarts cs) other text' = .ok e) : span = other ∧ text = text' := by
  obtain ⟨k, m, hk, hm, -, hspan⟩ := h.exists_cuts hforward text
  obtain ⟨k', m', hk', hm', -, hother⟩ := h'.exists_cuts hforward' text'
  rw [he] at hspan
  rw [he'] at hother
  obtain rfl := Except.ok.inj hspan
  simp only [Except.ok.injEq, Edit.mk.injEq, Int.ofNat_inj] at hother
  obtain ⟨rfl, rfl, rfl⟩ := hother
  obtain ⟨hline, hcol⟩ := hk.unique hk'
  obtain ⟨hendLine, hendCol⟩ := hm.unique hm'
  refine ⟨?_, rfl⟩
  rw [Span.mk.injEq]
  exact ⟨hline, hcol, hendLine, hendCol⟩

end PeriodLint
