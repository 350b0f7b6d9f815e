import PeriodLint.Proofs.Text.Encoding
import PeriodLint.Edit

/-!
# Replacing stretches side by side

Edits are applied one after another from the last to the first. Where they
follow one another this comes to the same as weaving their texts and what lies
between them together, each at its original place.
-/

namespace PeriodLint

open Utf8

/-- A stretch of a list and what shall stand in its place. -/
structure Patch (α : Type) where
  start : Nat
  stop : Nat
  text : List α

/-- The part of a list from a place on, with every stretch replaced. -/
def weave {α : Type} (xs : List α) (pos : Nat) : List (Patch α) → List α
  | [] => xs.drop pos
  | p :: ps => (xs.take p.start).drop pos ++ p.text ++ weave xs p.stop ps

/-- The stretches begin at a place or behind it, follow one another and end inside the list. -/
def Follow {α : Type} (length pos : Nat) : List (Patch α) → Prop
  | [] => pos ≤ length
  | p :: ps => pos ≤ p.start ∧ p.start ≤ p.stop ∧ Follow length p.stop ps

/-- The stretch is cut out. -/
def Patch.clear {α : Type} (p : Patch α) : Patch α := { p with text := [] }

/-- The part of a list from a place on, without the stretches. -/
def outside {α : Type} (xs : List α) (pos : Nat) (ps : List (Patch α)) : List α :=
  weave xs pos (ps.map Patch.clear)

section Generic

variable {α : Type} {length pos : Nat} {ps : List (Patch α)}

theorem Follow.pos_le (h : Follow length pos ps) : pos ≤ length := by
  induction ps generalizing pos with
  | nil => exact h
  | cons p ps ih =>
      have hrest := ih h.2.2
      have := h.1
      have := h.2.1
      omega

/-- Stretches in a list follow one another when each ends before the later ones start. -/
theorem follow_of_pairwise (hps : ∀ p ∈ ps, pos ≤ p.start ∧ p.start ≤ p.stop ∧ p.stop ≤ length)
    (hpos : pos ≤ length) (hordered : ps.Pairwise fun p q => p.stop ≤ q.start) :
    Follow length pos ps := by
  induction ps generalizing pos with
  | nil => exact hpos
  | cons p ps ih =>
      obtain ⟨hp, hps⟩ := List.forall_mem_cons.mp hps
      obtain ⟨hp', hordered⟩ := List.pairwise_cons.mp hordered
      exact ⟨hp.1, hp.2.1, ih (fun q hq => ⟨hp' q hq, (hps q hq).2⟩) hp.2.2 hordered⟩

theorem Follow.of_le {q : Nat} (h : Follow length q ps) (hle : pos ≤ q) : Follow length pos ps := by
  cases ps with
  | nil => exact Nat.le_trans hle h
  | cons p ps => exact ⟨Nat.le_trans hle h.1, h.2⟩

theorem Follow.le_start {front back : List (Patch α)} {p : Patch α}
    (h : Follow length pos (front ++ p :: back)) : pos ≤ p.start := by
  induction front generalizing pos with
  | nil => exact h.1
  | cons q front ih => exact Nat.le_trans h.1 (Nat.le_trans h.2.1 (ih h.2.2))

/-- What is woven before a stretch depends on nothing behind it, and the other way round. -/
theorem weave_append_cons {xs : List α} {front back : List (Patch α)} {p : Patch α}
    (h : Follow xs.length pos (front ++ p :: back)) :
    weave xs pos (front ++ p :: back) =
      weave (xs.take p.start) pos front ++ p.text ++ weave xs p.stop back := by
  induction front generalizing pos with
  | nil => rfl
  | cons q front ih =>
      have hle : q.start ≤ p.start := Nat.le_trans h.2.1 h.2.2.le_start
      calc
        weave xs pos (q :: (front ++ p :: back))
          = (xs.take q.start).drop pos ++ q.text ++
              (weave (xs.take p.start) q.stop front ++ p.text ++ weave xs p.stop back) := by
            rw [weave, ih h.2.2]
        _ = weave (xs.take p.start) pos (q :: front) ++ p.text ++ weave xs p.stop back := by
            rw [weave, List.take_take, Nat.min_eq_left hle]
            simp only [List.append_assoc]

theorem drop_take_eq_append (xs : List α) {q m : Nat} (hpos : pos ≤ q) (hq : q ≤ m)
    (hlen : q ≤ xs.length) :
    (xs.take m).drop pos = (xs.take q).drop pos ++ (xs.take m).drop q := by
  have hpos' : pos ≤ (xs.take q).length := by
    rw [List.length_take, Nat.min_eq_left hlen]
    exact hpos
  calc
    (xs.take m).drop pos
      = (xs.take q ++ (xs.take m).drop q).drop pos := by
        conv_lhs => rw [← List.take_append_drop q (xs.take m), List.take_take, Nat.min_eq_left hq]
    _ = (xs.take q).drop pos ++ (xs.take m).drop q := List.drop_append_of_le_length hpos'

/-- What comes before the stretches is kept. -/
theorem weave_eq_append {xs : List α} {q : Nat} (hpos : pos ≤ q) (h : Follow xs.length q ps) :
    weave xs pos ps = (xs.take q).drop pos ++ weave xs q ps := by
  cases ps with
  | nil =>
      have hsplit := drop_take_eq_append xs hpos h h
      rwa [List.take_length] at hsplit
  | cons p ps =>
      rw [weave, weave, drop_take_eq_append xs hpos h.1 h.pos_le]
      simp only [List.append_assoc]

/-- Stretches that are each replaced by something shorter leave less. -/
theorem length_weave_le {xs : List α} (h : Follow xs.length pos ps)
    (hps : ∀ p ∈ ps, p.text.length < p.stop - p.start) :
    (weave xs pos ps).length + ps.length ≤ xs.length - pos := by
  induction ps generalizing pos with
  | nil => simp [weave]
  | cons p ps ih =>
      obtain ⟨hp, hps⟩ := List.forall_mem_cons.mp hps
      have hrest := ih h.2.2 hps
      have hstop := h.2.2.pos_le
      have hpos := h.1
      have hle := h.2.1
      rw [weave, List.length_append, List.length_append, List.length_drop, List.length_take,
        List.length_cons]
      omega

theorem outside_cons (xs : List α) (pos : Nat) (p : Patch α) (ps : List (Patch α)) :
    outside xs pos (p :: ps) = (xs.take p.start).drop pos ++ outside xs p.stop ps := by
  rw [outside, List.map_cons, weave, outside]
  simp [Patch.clear]

/-- What lies outside the stretches is kept. -/
theorem mem_weave_of_mem_outside {xs : List α} {a : α} (h : a ∈ outside xs pos ps) :
    a ∈ weave xs pos ps := by
  induction ps generalizing pos with
  | nil => exact h
  | cons p ps ih =>
      rw [outside_cons, List.mem_append] at h
      rw [weave, List.mem_append, List.mem_append]
      exact h.imp Or.inl ih

theorem Follow.clear (h : Follow length pos ps) : Follow length pos (ps.map Patch.clear) := by
  induction ps generalizing pos with
  | nil => exact h
  | cons p ps ih => exact ⟨h.1, h.2.1, ih h.2.2⟩

end Generic

/-! ## Edits -/

namespace Patch

/-- The stretch as an edit of a text. -/
def toEdit (p : Patch Char) : Edit := ⟨p.start, p.stop, String.ofList p.text⟩

end Patch

theorem Edit.apply_ofNat {cs : List Char} {start stop : Nat} (hstart : start ≤ cs.length)
    (hstop : stop ≤ cs.length) (text : String) :
    Edit.apply ⟨start, stop, text⟩ cs = cs.take start ++ text.toList ++ cs.drop stop := by
  rw [Edit.apply, sliceBefore, sliceFrom, sliceBound_ofNat hstart, sliceBound_ofNat hstop]

theorem Edit.apply_toEdit (p : Patch Char) {front back : List Char} (hle : p.start ≤ p.stop)
    (hlen : p.stop = front.length) :
    Edit.apply p.toEdit (front ++ back) = front.take p.start ++ p.text ++ back := by
  have hstop : p.stop ≤ (front ++ back).length := by
    rw [List.length_append]
    omega
  rw [Patch.toEdit, Edit.apply_ofNat (Nat.le_trans hle hstop) hstop, String.toList_ofList, hlen,
    List.drop_left, List.take_append_of_le_length (by omega)]

/-- Edits that follow one another are applied as if at the same time. -/
theorem Edit.applyAll_eq_weave {cs : List Char} {pos : Nat} {ps : List (Patch Char)}
    (h : Follow cs.length pos ps) :
    Edit.applyAll (ps.map Patch.toEdit) cs = cs.take pos ++ weave cs pos ps := by
  induction ps generalizing pos with
  | nil => simp [Edit.applyAll, weave]
  | cons p ps ih =>
      have hrest := ih h.2.2
      have hstop : p.stop = (cs.take p.stop).length := by
        rw [List.length_take, Nat.min_eq_left h.2.2.pos_le]
      have hbefore : cs.take p.start = cs.take pos ++ (cs.take p.start).drop pos := by
        have hsplit := List.take_append_drop pos (cs.take p.start)
        rw [List.take_take, Nat.min_eq_left h.1] at hsplit
        exact hsplit.symm
      calc
        Edit.applyAll ((p :: ps).map Patch.toEdit) cs
          = Edit.apply p.toEdit (cs.take p.stop ++ weave cs p.stop ps) := by
            rw [← hrest]
            rfl
        _ = (cs.take p.stop).take p.start ++ p.text ++ weave cs p.stop ps :=
            Edit.apply_toEdit p h.2.1 hstop
        _ = cs.take pos ++ weave cs pos (p :: ps) := by
            rw [List.take_take, Nat.min_eq_left h.2.1, hbefore, weave]
            simp only [List.append_assoc]

/-! ## Bytes and characters -/

namespace Patch

/-- A stretch between bytes of a text, as one between its characters. -/
def chars (cs : List Char) (p : Patch Char) : Patch Char :=
  ⟨charsBefore cs p.start, charsBefore cs p.stop, p.text⟩

/-- A stretch between bytes, with its text as bytes. -/
def bytes (p : Patch Char) : Patch UInt8 := ⟨p.start, p.stop, encode p.text⟩

/-- A stretch cuts no character of a text. -/
def IsLocated (cs : List Char) (p : Patch Char) : Prop :=
  p.start ∈ boundaries cs ∧ p.stop ∈ boundaries cs

end Patch

section Located

variable {cs : List Char} {pos : Nat} {ps : List (Patch Char)}

theorem Follow.chars (h : Follow (encode cs).length pos ps) (hpos : pos ∈ boundaries cs)
    (hps : ∀ p ∈ ps, p.IsLocated cs) :
    Follow cs.length (charsBefore cs pos) (ps.map (Patch.chars cs)) := by
  induction ps generalizing pos with
  | nil => exact charsBefore_le_length hpos
  | cons p ps ih =>
      obtain ⟨hp, hps⟩ := List.forall_mem_cons.mp hps
      exact ⟨charsBefore_mono cs h.1, charsBefore_mono cs h.2.1, ih h.2.2 hp.2 hps⟩

/-- Weaving characters and encoding the outcome is weaving bytes. -/
theorem encode_weave (h : Follow (encode cs).length pos ps) (hpos : pos ∈ boundaries cs)
    (hps : ∀ p ∈ ps, p.IsLocated cs) :
    encode (weave cs (charsBefore cs pos) (ps.map (Patch.chars cs))) =
      weave (encode cs) pos (ps.map Patch.bytes) := by
  induction ps generalizing pos with
  | nil => exact (drop_encode hpos).symm
  | cons p ps ih =>
      obtain ⟨hp, hps⟩ := List.forall_mem_cons.mp hps
      rw [List.map_cons, List.map_cons, weave, weave, encode_append, encode_append]
      congr 1
      · congr 1
        exact (drop_take_encode h.1 hpos hp.1).symm
      · exact ih h.2.2 hp.2 hps

/-- What lies outside the stretches may be encoded before or after they are cut out. -/
theorem encode_outside (h : Follow (encode cs).length pos ps) (hpos : pos ∈ boundaries cs)
    (hps : ∀ p ∈ ps, p.IsLocated cs) :
    encode (outside cs (charsBefore cs pos) (ps.map (Patch.chars cs))) =
      outside (encode cs) pos (ps.map Patch.bytes) := by
  have hclear := encode_weave h.clear hpos (List.forall_mem_map.mpr hps)
  rw [List.map_map, List.map_map] at hclear
  rw [outside, outside, List.map_map, List.map_map]
  exact hclear

end Located

end PeriodLint
