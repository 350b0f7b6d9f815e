import PeriodLint.Editor.Position
import Mathlib.Data.List.Basic

/-!
# UTF-16

A character is one unit or, outside the basic plane, a high surrogate and a low
one. No character is a surrogate itself, so a text can be read off its units,
and the units of a text end a line just where the text does.
-/

namespace PeriodLint.Utf16

/-- The units of a character. -/
def encodeChar (c : Char) : List UInt16 :=
  if c.toNat < 0x10000 then
    [UInt16.ofNat c.toNat]
  else
    [UInt16.ofNat (0xD800 + (c.toNat - 0x10000) / 0x400),
      UInt16.ofNat (0xDC00 + (c.toNat - 0x10000) % 0x400)]

/-- The units of a text. -/
def encode (cs : List Char) : List UInt16 := cs.flatMap encodeChar

/-- The line feed. -/
def lineFeed : UInt16 := 10

@[simp] theorem encode_nil : encode [] = [] := rfl

@[simp] theorem encode_cons (c : Char) (cs : List Char) :
    encode (c :: cs) = encodeChar c ++ encode cs := rfl

@[simp] theorem encode_append (cs ds : List Char) : encode (cs ++ ds) = encode cs ++ encode ds :=
  List.flatMap_append

theorem length_encodeChar (c : Char) : (encodeChar c).length = Editor.unitsOf c := by
  unfold encodeChar Editor.unitsOf
  split <;> rfl

/-- No number is cut off when it becomes a unit. -/
theorem map_toNat_encodeChar (c : Char) :
    (encodeChar c).map UInt16.toNat =
      if c.toNat < 0x10000 then [c.toNat]
      else [0xD800 + (c.toNat - 0x10000) / 0x400, 0xDC00 + (c.toNat - 0x10000) % 0x400] := by
  have hvalid : c.toNat < 0xD800 ∨ 0xDFFF < c.toNat ∧ c.toNat < 0x110000 := c.valid
  have hsize : UInt16.size = 0x10000 := rfl
  unfold encodeChar
  split
  · next hbasic => rw [List.map_singleton, UInt16.toNat_ofNat_of_lt' hbasic]
  · rw [List.map_cons, List.map_singleton, UInt16.toNat_ofNat_of_lt' (by omega),
      UInt16.toNat_ofNat_of_lt' (by omega)]

theorem encodeChar_lineFeed : encodeChar '\n' = [lineFeed] := rfl

theorem lineFeed_notMem_encodeChar {c : Char} (hc : c ≠ '\n') : lineFeed ∉ encodeChar c := by
  intro hmem
  have hnat := List.mem_map_of_mem (f := UInt16.toNat) hmem
  have hten : lineFeed.toNat = 10 := rfl
  rw [map_toNat_encodeChar, hten] at hnat
  split at hnat
  · exact hc (Char.toNat_inj.mp (List.mem_singleton.mp hnat).symm)
  · simp only [List.mem_cons, List.not_mem_nil, or_false] at hnat
    omega

/-- The first character of a text can be told from its units. -/
theorem eq_of_encodeChar_append {c d : Char} {us vs : List UInt16}
    (h : encodeChar c ++ us = encodeChar d ++ vs) : c = d := by
  have hc : c.toNat < 0xD800 ∨ 0xDFFF < c.toNat ∧ c.toNat < 0x110000 := c.valid
  have hd : d.toNat < 0xD800 ∨ 0xDFFF < d.toNat ∧ d.toNat < 0x110000 := d.valid
  have hnat := congrArg (List.map UInt16.toNat) h
  rw [List.map_append, List.map_append, map_toNat_encodeChar, map_toNat_encodeChar] at hnat
  apply Char.toNat_inj.mp
  split at hnat <;> split at hnat <;>
    simp only [List.cons_append, List.nil_append, List.cons.injEq] at hnat <;> omega

theorem encodeChar_ne_nil (c : Char) : encodeChar c ≠ [] := by
  unfold encodeChar
  split <;> simp

theorem encode_injective : Function.Injective encode := by
  intro cs ds h
  induction cs generalizing ds with
  | nil =>
      cases ds with
      | nil => rfl
      | cons d ds => exact absurd (List.append_eq_nil_iff.mp h.symm).1 (encodeChar_ne_nil d)
  | cons c cs ih =>
      cases ds with
      | nil => exact absurd (List.append_eq_nil_iff.mp h).1 (encodeChar_ne_nil c)
      | cons d ds =>
          obtain rfl := eq_of_encodeChar_append h
          rw [ih (List.append_cancel_left h)]

section Take

variable (cs : List Char) (k : Nat)

theorem encode_take_append_drop : encode (cs.take k) ++ encode (cs.drop k) = encode cs := by
  rw [← encode_append, List.take_append_drop]

theorem take_encode : (encode cs).take (encode (cs.take k)).length = encode (cs.take k) := by
  rw [← encode_take_append_drop cs k, List.take_left]

theorem drop_encode : (encode cs).drop (encode (cs.take k)).length = encode (cs.drop k) := by
  rw [← encode_take_append_drop cs k, List.drop_left]

variable {k} in
/-- More characters have more units. -/
theorem length_encode_take_le {m : Nat} (h : k ≤ m) :
    (encode (cs.take k)).length ≤ (encode (cs.take m)).length := by
  have hsplit := encode_take_append_drop (cs.take m) k
  rw [List.take_take, Nat.min_eq_left h] at hsplit
  rw [← hsplit, List.length_append]
  exact Nat.le_add_right _ _

end Take

end PeriodLint.Utf16
