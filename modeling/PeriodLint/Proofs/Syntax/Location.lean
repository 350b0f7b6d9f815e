import PeriodLint.Proofs.Text.Encoding
import PeriodLint.Proofs.Text.Lines
import PeriodLint.Edit
import PeriodLint.Syntax.Span

/-!
# From bytes to positions and back to characters

A node is located by bytes, its span by lines and columns, and an edit by
characters. On a node that starts and stops between characters the three agree:
the position of an offset, resolved against the starts of the lines, is the
number of characters before the offset.
-/

namespace PeriodLint

open Utf8 Text

/-- The stretch of a node lies in the text and cuts no character. -/
structure Node.IsLocated (cs : List Char) (n : Node) : Prop where
  start_le_stop : n.start ≤ n.stop
  start_mem : n.start ∈ boundaries cs
  stop_mem : n.stop ∈ boundaries cs

instance (cs : List Char) (n : Node) : Decidable (n.IsLocated cs) :=
  decidable_of_iff (n.start ≤ n.stop ∧ n.start ∈ boundaries cs ∧ n.stop ∈ boundaries cs)
    ⟨fun ⟨hle, hstart, hstop⟩ => ⟨hle, hstart, hstop⟩,
      fun h => ⟨h.start_le_stop, h.start_mem, h.stop_mem⟩⟩

theorem encodeChar_lineFeed : String.utf8EncodeChar '\n' = [lineFeed] := rfl

theorem rowAt_encode (pre post : List Char) :
    rowAt (encode (pre ++ post)) (encode pre).length = pre.count '\n' := by
  rw [rowAt, take_length_encode, count_encode encodeChar_lineFeed]

/-- Going back from an offset to the last line feed passes the bytes of the last line. -/
theorem byteColumnAt_encode (pre post : List Char) :
    byteColumnAt (encode (pre ++ post)) (encode pre).length = (encode (lastLine pre)).length := by
  obtain ⟨earlier, heq, hlast, hend⟩ := exists_append_lastLine pre
  generalize lastLine pre = line at heq hlast ⊢
  subst heq
  have hbytes : ∀ b ∈ (encode line).reverse, (b != lineFeed) = true := by
    intro b hb
    rw [List.mem_reverse] at hb
    rw [bne_iff_ne]
    rintro rfl
    exact hlast ((mem_encode_iff encodeChar_lineFeed).mp hb)
  have hstop : (encode earlier).reverse.takeWhile (· != lineFeed) = [] := by
    rcases hend with rfl | ⟨front, rfl⟩
    · rfl
    · simp [encodeChar_lineFeed]
  rw [byteColumnAt, take_length_encode, encode_append, List.reverse_append,
    List.takeWhile_append_of_pos hbytes, hstop, List.append_nil, List.length_reverse]

/-- The column of an offset is the number of characters on the last line before it. -/
theorem columnAt_encode (pre post : List Char) :
    columnAt (encode (pre ++ post)) (encode pre).length = (lastLine pre).length := by
  rw [columnAt, byteColumnAt_encode]
  obtain ⟨earlier, heq, -⟩ := exists_append_lastLine pre
  generalize lastLine pre = line at heq ⊢
  subst heq
  rw [textBetween, take_length_encode, encode_append, List.length_append, Nat.add_sub_cancel,
    List.drop_left, decodeLossy_encode]

theorem textBetween_encode {cs : List Char} {start stop : Nat} (hle : start ≤ stop)
    (hstart : start ∈ boundaries cs) (hstop : stop ∈ boundaries cs) :
    textBetween (encode cs) start stop =
      (cs.take (charsBefore cs stop)).drop (charsBefore cs start) := by
  rw [textBetween, drop_take_encode hle hstart hstop, decodeLossy_encode]

/-- The text of a located node is cut out of the source. -/
theorem Node.IsLocated.toList_text {cs : List Char} {n : Node} (h : n.IsLocated cs) :
    (n.text (encode cs)).toList =
      (cs.take (charsBefore cs n.stop)).drop (charsBefore cs n.start) := by
  rw [Node.text, String.toList_ofList, textBetween_encode h.start_le_stop h.start_mem h.stop_mem]

/-- The place of a cut, resolved against the starts of the lines, counts the characters before it. -/
theorem Edit.offset_append (pre post : List Char) :
    Edit.offset (lineStarts (pre ++ post)) (pre.count '\n' + 1) (lastLine pre).length =
      .ok (pre.length : Int) := by
  have hle := length_lastLine_le pre
  rw [Edit.offset, elementAt?, if_pos (by omega), Int.add_sub_cancel, Int.toNat_natCast, lineStarts,
    getElem?_startsFrom_lines_append]
  simp only [Except.ok.injEq]
  omega

section Offset

variable {cs : List Char} {offset : Nat}

/-- The position of a boundary, resolved against the starts of the lines, counts characters. -/
theorem offset_position (h : offset ∈ boundaries cs) :
    Edit.offset (lineStarts cs) (rowAt (encode cs) offset + 1) (columnAt (encode cs) offset) =
      .ok (charsBefore cs offset : Int) := by
  obtain ⟨pre, post, rfl, rfl⟩ := mem_boundaries_iff.mp h
  rw [rowAt_encode, columnAt_encode, charsBefore_length_encode, Edit.offset_append]

/-- The row of a boundary is one of the lines, and the line is long enough for its column. -/
theorem exists_line_at (h : offset ∈ boundaries cs) :
    ∃ line, (lines cs)[rowAt (encode cs) offset]? = some line ∧
      columnAt (encode cs) offset ≤ line.length := by
  obtain ⟨pre, post, rfl, rfl⟩ := mem_boundaries_iff.mp h
  refine ⟨lastLine pre ++ firstLine post, ?_, ?_⟩
  · rw [rowAt_encode, getElem?_lines_append]
  · rw [columnAt_encode, List.length_append]
    exact Nat.le_add_right _ _

/-- Positions are ordered as the offsets that they belong to. -/
theorem position_mono {other : Nat} (h : offset ∈ boundaries cs) (hother : other ∈ boundaries cs)
    (hle : offset ≤ other) :
    rowAt (encode cs) offset < rowAt (encode cs) other ∨
      rowAt (encode cs) offset = rowAt (encode cs) other ∧
        columnAt (encode cs) offset ≤ columnAt (encode cs) other := by
  obtain ⟨pre, post, rfl, rfl⟩ := mem_boundaries_iff.mp h
  obtain ⟨front, back, heq, rfl⟩ := mem_boundaries_iff.mp hother
  have hlen : pre.length ≤ front.length := by
    have hmono := charsBefore_mono (pre ++ post) hle
    rwa [charsBefore_length_encode, heq, charsBefore_length_encode] at hmono
  obtain ⟨mid, rfl⟩ : pre <+: front :=
    List.prefix_of_prefix_length_le (List.prefix_append pre post) ⟨back, heq.symm⟩ hlen
  have hrow : rowAt (encode (pre ++ post)) (encode (pre ++ mid)).length =
      pre.count '\n' + mid.count '\n' := by
    rw [heq, rowAt_encode, List.count_append]
  rw [hrow, rowAt_encode, columnAt_encode]
  by_cases hmid : '\n' ∈ mid
  · have := List.count_pos_iff.mpr hmid
    exact Or.inl (by omega)
  · refine Or.inr ⟨by rw [List.count_eq_zero_of_not_mem hmid, Nat.add_zero], ?_⟩
    rw [heq, columnAt_encode, lastLine_append_of_not_mem pre hmid, List.length_append]
    exact Nat.le_add_right _ _

end Offset

end PeriodLint
