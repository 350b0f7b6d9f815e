import PeriodLint.Editor.Message
import PeriodLint.Proofs.Text.Lines
import PeriodLint.Proofs.Text.Utf16
import Mathlib.Data.Option.Basic

/-!
# An editor that applies an edit

An editor holds a text as UTF-16 units. It finds a place by counting line feeds
and then units, and replaces what lies between two places. Places between the
characters of a text are found between their units.
-/

namespace PeriodLint.Editor.Client

open Text

/-- The offset of a place in a text, if the line exists and is long enough. -/
def offset? : List UInt16 → (line character : Nat) → Option Nat
  | _, 0, 0 => some 0
  | [], _, _ => none
  | u :: us, 0, character + 1 =>
      if u = Utf16.lineFeed then none else (offset? us 0 character).map (· + 1)
  | u :: us, line + 1, character =>
      if u = Utf16.lineFeed then (offset? us line character).map (· + 1)
      else (offset? us (line + 1) character).map (· + 1)

/-- The offset of a position in a text. -/
def place? (us : List UInt16) (p : Position) : Option Nat :=
  if 0 ≤ p.line then offset? us p.line.toNat p.character else none

/-- The text after an edit, if its range runs forward between two places. -/
def edited? (us : List UInt16) (e : TextEdit) : Option (List UInt16) := do
  let start ← place? us e.range.start
  let stop ← place? us e.range.stop
  guard (start ≤ stop)
  some (us.take start ++ Utf16.encode e.newText.toList ++ us.drop stop)

theorem offset?_zero (us : List UInt16) : offset? us 0 0 = some 0 := by
  cases us <;> rfl

/-- On the line that is sought, units are counted. -/
theorem offset?_append_zero {ws : List UInt16} (us : List UInt16) (k : Nat)
    (h : Utf16.lineFeed ∉ ws) :
    offset? (ws ++ us) 0 (ws.length + k) = (offset? us 0 k).map (· + ws.length) := by
  induction ws with
  | nil => simp
  | cons w ws ih =>
      rw [List.mem_cons, not_or] at h
      rw [List.length_cons, Nat.add_right_comm, List.cons_append, offset?, if_neg (Ne.symm h.1),
        ih h.2, Option.map_map]
      rfl

/-- Before the line that is sought, units are passed over. -/
theorem offset?_append_succ {ws : List UInt16} (us : List UInt16) (line k : Nat)
    (h : Utf16.lineFeed ∉ ws) :
    offset? (ws ++ us) (line + 1) k = (offset? us (line + 1) k).map (· + ws.length) := by
  induction ws with
  | nil => simp
  | cons w ws ih =>
      rw [List.mem_cons, not_or] at h
      rw [List.cons_append, offset?, if_neg (Ne.symm h.1), ih h.2, Option.map_map]
      rfl

/-- A place between characters lies between their units. -/
theorem offset?_encode (pre post : List Char) :
    offset? (Utf16.encode (pre ++ post)) (pre.count '\n') (units (lastLine pre)) =
      some (Utf16.encode pre).length := by
  induction pre with
  | nil => exact offset?_zero _
  | cons c pre ih =>
      by_cases hc : c = '\n'
      · subst hc
        rw [List.cons_append, Utf16.encode_cons, Utf16.encodeChar_lineFeed, List.count_cons_self,
          lastLine_cons_of_mem List.mem_cons_self, List.singleton_append, offset?, if_pos rfl, ih]
        simp [Utf16.encodeChar_lineFeed]
      · have hunits := Utf16.lineFeed_notMem_encodeChar hc
        rw [List.cons_append, Utf16.encode_cons, List.count_cons_of_ne hc]
        by_cases hmem : '\n' ∈ pre
        · obtain ⟨k, hk⟩ := Nat.exists_eq_succ_of_ne_zero
            (Nat.pos_iff_ne_zero.mp (List.count_pos_iff.mpr hmem))
          rw [hk] at ih ⊢
          rw [lastLine_cons_of_mem (List.mem_cons_of_mem c hmem),
            offset?_append_succ _ _ _ hunits, ih]
          simp [Nat.add_comm]
        · have hnone : '\n' ∉ c :: pre := by simp [hmem, Ne.symm hc]
          rw [List.count_eq_zero_of_not_mem hmem, lastLine_eq_self hmem] at ih
          rw [List.count_eq_zero_of_not_mem hmem, lastLine_eq_self hnone, units,
            ← Utf16.length_encodeChar, offset?_append_zero _ _ hunits, ih]
          simp [Nat.add_comm]

theorem place?_encode (pre post : List Char) :
    place? (Utf16.encode (pre ++ post)) ⟨pre.count '\n', units (lastLine pre)⟩ =
      some (Utf16.encode pre).length := by
  rw [place?, if_pos (Int.natCast_nonneg _), Int.toNat_natCast, offset?_encode]

/-- An edit between two places replaces the units between them. -/
theorem edited?_eq_some {us : List UInt16} {e : TextEdit} {start stop : Nat}
    (hstart : place? us e.range.start = some start) (hstop : place? us e.range.stop = some stop)
    (hle : start ≤ stop) :
    edited? us e = some (us.take start ++ Utf16.encode e.newText.toList ++ us.drop stop) := by
  rw [edited?, hstart, hstop]
  simp [hle]

end PeriodLint.Editor.Client
