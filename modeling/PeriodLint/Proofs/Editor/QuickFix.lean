import PeriodLint.Proofs.Editor.Client
import PeriodLint.Proofs.Edit.Place
import PeriodLint.Proofs.Edit.Selection
import PeriodLint.Proofs.Edit.Weave

/-!
# Quick fixes

A fix is applied as an edit at character offsets or, as a quick fix, by an
editor that counts lines and UTF-16 units. A span that names places in a text
cuts it at the same two places either way, so the same text is left.
-/

namespace PeriodLint

open Text Editor

/-- The position of an offset in an editor. -/
def placeAt (cs : List Char) (k : Nat) : Position :=
  ⟨(cs.take k).count '\n', units (lastLine (cs.take k))⟩

theorem place?_placeAt (cs : List Char) (k : Nat) :
    Client.place? (Utf16.encode cs) (placeAt cs k) = some (Utf16.encode (cs.take k)).length := by
  have hplace := Client.place?_encode (cs.take k) (cs.drop k)
  rwa [List.take_append_drop] at hplace

section Place

variable {cs : List Char} {line col : Int} {k : Nat}

/-- In an editor a place is where the characters before it end. -/
theorem LiesAt.position_eq (h : LiesAt cs line col k) :
    position (lines cs) line col = .ok (placeAt cs k) := by
  have hl := getElem?_lines_append (cs.take k) (cs.drop k)
  rw [List.take_append_drop] at hl
  have hbound : (lastLine (cs.take k)).length ≤
      (lastLine (cs.take k) ++ firstLine (cs.drop k)).length := by
    rw [List.length_append]
    exact Nat.le_add_right _ _
  rw [position, elementAt?, h.line_eq, if_pos (by omega), Int.add_sub_cancel, Int.toNat_natCast, hl,
    h.col_eq]
  simp only [unitColumn, sliceBefore, sliceBound_ofNat hbound, List.take_left, placeAt]

end Place

/-- The fix of one diagnostic is applied as it stands. -/
theorem applyFixes_singleton {source : String} {d : Diagnostic} {fix : String} {e : Edit}
    (hfix : d.fix = some fix) (hspan : Edit.ofSpan (lineStarts source.toList) d.span fix = .ok e) :
    ∃ fixed, applyFixes source [d] = .ok fixed ∧
      fixed.value = String.ofList (e.apply source.toList) := by
  have hproposals : Edit.proposals [d] = [(d.span, fix)] := by simp [Edit.proposals, hfix]
  have hreported : Edit.reported source.toList [d] = .ok [e] := by
    simp only [Edit.reported, hproposals, List.mapM_cons, List.mapM_nil, hspan]
    rfl
  have haccepted := Edit.accepted_of_reported hreported
  rw [List.mergeSort_singleton] at haccepted
  obtain ⟨fixed, hfixed, hvalue⟩ := applyFixes_eq_ok haccepted
  rw [Edit.keepFrom_none_cons] at hvalue
  exact ⟨fixed, hfixed, hvalue⟩

/-- The edit of a quick fix puts the fix in the place of the diagnostic. -/
theorem exists_actionOf_edit_eq {ls : List (List Char)} {d : Diagnostic} {range : Editor.Range}
    (h : rangeOf ls d.span = .ok range) (uri fix : String) :
    ∃ action, actionOf uri ls d fix = .ok action ∧ action.uri = uri ∧
      action.edit = ⟨range, fix⟩ := by
  rw [actionOf, noticeOf, h]
  exact ⟨_, rfl, rfl, rfl⟩

/-- A quick fix is built for a diagnostic that is placed in the text, and its edit leads from place
to place. Both places lie between characters, and what an editor makes of the text are the units of
one text alone, the one with the diagnostic fixed. -/
theorem quick_fix_agrees_with_applyFixes (source : String) (d : Diagnostic) (fix uri : String)
    (hfix : d.fix = some fix) (hplaced : d.span.IsPlaced source.toList)
    (hforward : d.span.IsForward) :
    ∃ action fixed,
      actionOf uri (lines source.toList) d fix = .ok action ∧ action.uri = uri ∧
      applyFixes source [d] = .ok fixed ∧
      (∃ k ≤ source.toList.length,
        Client.place? (Utf16.encode source.toList) action.edit.range.start =
          some (Utf16.encode (source.toList.take k)).length) ∧
      (∃ m ≤ source.toList.length,
        Client.place? (Utf16.encode source.toList) action.edit.range.stop =
          some (Utf16.encode (source.toList.take m)).length) ∧
      ∀ text : String,
        Client.edited? (Utf16.encode source.toList) action.edit =
            some (Utf16.encode text.toList) ↔
          text = fixed.value := by
  obtain ⟨k, m, hk, hm, hle, hspan⟩ := hplaced.exists_cuts hforward fix
  have hrange : rangeOf (lines source.toList) d.span =
      .ok ⟨placeAt source.toList k, placeAt source.toList m⟩ := by
    rw [rangeOf, hk.position_eq, hm.position_eq]
    rfl
  obtain ⟨action, haction, huri, hedit⟩ := exists_actionOf_edit_eq hrange uri fix
  obtain ⟨fixed, hfixed, hvalue⟩ := applyFixes_singleton hfix hspan
  have hstart : Client.place? (Utf16.encode source.toList) action.edit.range.start =
      some (Utf16.encode (source.toList.take k)).length := by
    rw [hedit, place?_placeAt]
  have hstop : Client.place? (Utf16.encode source.toList) action.edit.range.stop =
      some (Utf16.encode (source.toList.take m)).length := by
    rw [hedit, place?_placeAt]
  have hfixedList : fixed.value.toList =
      source.toList.take k ++ fix.toList ++ source.toList.drop m := by
    rw [hvalue, String.toList_ofList, Edit.apply_ofNat hk.le_length hm.le_length]
  have hedited : Client.edited? (Utf16.encode source.toList) action.edit =
      some (Utf16.encode fixed.value.toList) := by
    have hforth := Utf16.length_encode_take_le source.toList hle
    rw [Client.edited?_eq_some hstart hstop hforth, hedit, Utf16.take_encode, Utf16.drop_encode,
      ← Utf16.encode_append, ← Utf16.encode_append, hfixedList]
  refine ⟨action, fixed, haction, huri, hfixed, ⟨k, hk.le_length, hstart⟩, ⟨m, hm.le_length, hstop⟩,
    fun text => ?_⟩
  rw [hedited, Option.some.injEq, Utf16.encode_injective.eq_iff, String.toList_inj, eq_comm]

/-- From a line with a character of two units to the next, over a carriage return. -/
theorem quick_fix_agrees_with_applyFixes_two_lines :
    let source := "😀 = 𝔞..\r\n𝔞!\n"
    let d : Diagnostic := ⟨"X1", "two lines", .warning, ⟨1, 4, 2, 1⟩, some "𝔟"⟩
    d.span.IsPlaced source.toList ∧ d.span.IsForward ∧
      ∃ action fixed, actionOf "file:///a.rb" (lines source.toList) d "𝔟" = .ok action ∧
        action.edit.range = ⟨⟨0, 5⟩, ⟨1, 2⟩⟩ ∧
        applyFixes source [d] = .ok fixed ∧ fixed.value = "😀 = 𝔟!\n" := by
  intro source d
  have hplaced : d.span.IsPlaced source.toList :=
    ⟨⟨by decide, by decide, "😀 = 𝔞..\r".toList, by decide, by decide⟩,
      ⟨by decide, by decide, "𝔞!".toList, by decide, by decide⟩⟩
  have hforward : d.span.IsForward := by decide
  obtain ⟨action, fixed, haction, -, hfixed, -, -, hagree⟩ :=
    quick_fix_agrees_with_applyFixes source d "𝔟" "file:///a.rb" rfl hplaced hforward
  have hedit : action.edit = ⟨⟨⟨0, 5⟩, ⟨1, 2⟩⟩, "𝔟"⟩ := by
    have hcomputed : (actionOf "file:///a.rb" (lines source.toList) d "𝔟").map (·.edit) =
        .ok ⟨⟨⟨0, 5⟩, ⟨1, 2⟩⟩, "𝔟"⟩ := by decide
    rw [haction] at hcomputed
    exact Except.ok.inj hcomputed
  have hedited : Client.edited? (Utf16.encode source.toList) action.edit =
      some (Utf16.encode "😀 = 𝔟!\n".toList) := by
    rw [hedit]
    decide
  exact ⟨hplaced, hforward, action, fixed, haction, by rw [hedit], hfixed,
    ((hagree "😀 = 𝔟!\n").mp hedited).symm⟩

end PeriodLint
