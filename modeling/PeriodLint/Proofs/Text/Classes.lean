import Mathlib
import PeriodLint.Text.Blank
import PeriodLint.Text.Line
import PeriodLint.Text.Upper
import PeriodLint.Text.Word

/-!
# Classes of characters

Classes that are given by intervals are told apart by their intervals. Blanks
are no word characters, and the letters and digits of ASCII are no blanks, so
that stripping what stands between blanks gives it back.
-/

namespace PeriodLint.Text

/-- The letters and digits of ASCII. -/
def alphanumIntervals : List (Nat × Nat) := [(0x30, 0x39), (0x41, 0x5A), (0x61, 0x7A)]

/-- The punctuation of ASCII. -/
def punctuationIntervals : List (Nat × Nat) :=
  [(0x21, 0x2F), (0x3A, 0x40), (0x5B, 0x60), (0x7B, 0x7E)]

/-- A character of ASCII that is printed and is no letter, no digit and no blank. -/
def isPunctuation (c : Char) : Bool := within punctuationIntervals c

/-- No interval of one list meets an interval of another. -/
def AreDisjoint (xs ys : List (Nat × Nat)) : Prop := ∀ x ∈ xs, ∀ y ∈ ys, x.2 < y.1 ∨ y.2 < x.1

instance (xs ys : List (Nat × Nat)) : Decidable (AreDisjoint xs ys) :=
  inferInstanceAs (Decidable (∀ x ∈ xs, ∀ y ∈ ys, x.2 < y.1 ∨ y.2 < x.1))

section Intervals

variable {xs ys : List (Nat × Nat)} {c : Char}

theorem within_iff : within xs c = true ↔ ∃ x ∈ xs, x.1 ≤ c.toNat ∧ c.toNat ≤ x.2 := by
  simp [within]

theorem AreDisjoint.within_eq_false (h : AreDisjoint xs ys) (hc : within xs c = true) :
    within ys c = false := by
  obtain ⟨x, hx, hxc⟩ := within_iff.mp hc
  rw [Bool.eq_false_iff, ne_eq, within_iff]
  rintro ⟨y, hy, hyc⟩
  have hapart := h x hx y hy
  omega

theorem isAlphanum_eq (c : Char) : c.isAlphanum = within alphanumIntervals c := by
  rw [Bool.eq_iff_iff, within_iff]
  simp [alphanumIntervals, Char.isAlphanum, Char.isAlpha, Char.isUpper, Char.isLower,
    Char.isDigit, UInt32.le_iff_toNat_le]
  omega

theorem isBlank_of_isAlphanum (h : c.isAlphanum = true) : isBlank c = false := by
  rw [isAlphanum_eq] at h
  have hdisjoint : AreDisjoint alphanumIntervals blankIntervals := by decide
  exact hdisjoint.within_eq_false h

theorem isBlank_of_isPunctuation (h : isPunctuation c = true) : isBlank c = false := by
  have hdisjoint : AreDisjoint punctuationIntervals blankIntervals := by decide
  exact hdisjoint.within_eq_false h

theorem isAlphanum_of_isPunctuation (h : isPunctuation c = true) : c.isAlphanum = false := by
  have hdisjoint : AreDisjoint punctuationIntervals alphanumIntervals := by decide
  rw [isAlphanum_eq]
  exact hdisjoint.within_eq_false h

theorem isWord_of_isBlank (h : isBlank c = true) : isWord c = false := by
  have hdisjoint : AreDisjoint blankIntervals wordIntervals := by decide +kernel
  exact hdisjoint.within_eq_false h

end Intervals

/-! ## ASCII -/

section Ascii

variable {c : Char}

/-- What holds of every code of ASCII holds of every character of it. -/
theorem forall_ascii {p : Char → Prop} (h : ∀ n < 0x80, p (Char.ofNat n)) (hc : c.toNat < 0x80) :
    p c := by
  have hchar := h c.toNat hc
  rwa [Char.ofNat_toNat] at hchar

theorem toLower_of_not_ascii (h : 0x80 ≤ c.toNat) : c.toLower = c := by
  rw [Char.toLower, dif_neg]
  rintro ⟨-, hle⟩
  rw [UInt32.le_iff_toNat_le] at hle
  exact absurd (Nat.le_trans h hle) (by decide)

theorem toLower_of_not_isAlphanum (h : c.isAlphanum = false) : c.toLower = c := by
  by_cases hascii : c.toNat < 0x80
  · exact forall_ascii (p := fun c => c.isAlphanum = false → c.toLower = c) (by decide +kernel)
      hascii h
  · exact toLower_of_not_ascii (Nat.le_of_not_lt hascii)

/-- Letter case makes no difference to being a blank. -/
theorem isBlank_toLower (c : Char) : isBlank c.toLower = isBlank c := by
  by_cases hascii : c.toNat < 0x80
  · exact forall_ascii (p := fun c => isBlank c.toLower = isBlank c) (by decide +kernel) hascii
  · rw [toLower_of_not_ascii (Nat.le_of_not_lt hascii)]

theorem toNat_lt_of_isAlphanum (h : c.isAlphanum = true) : c.toNat < 0x80 := by
  rw [isAlphanum_eq, within_iff] at h
  simp only [alphanumIntervals, List.mem_cons, List.not_mem_nil, or_false] at h
  rcases h with ⟨x, rfl | rfl | rfl, hc⟩ <;> omega

/-- The upper case of the letters of ASCII is the plain one, and digits are kept. -/
theorem upperChar_of_isAlphanum (h : c.isAlphanum = true) : upperChar c = [c.toUpper] :=
  forall_ascii (p := fun c => c.isAlphanum = true → upperChar c = [c.toUpper])
    (by decide +kernel) (toNat_lt_of_isAlphanum h) h

theorem upper_of_isAlphanum {cs : List Char} (h : ∀ c ∈ cs, c.isAlphanum = true) :
    upper (String.ofList cs) = String.ofList (cs.map Char.toUpper) := by
  rw [upper, String.toList_ofList]
  congr 1
  induction cs with
  | nil => rfl
  | cons c cs ih =>
      obtain ⟨hc, hcs⟩ := List.forall_mem_cons.mp h
      rw [List.flatMap_cons, upperChar_of_isAlphanum hc, ih hcs, List.map_cons,
        List.singleton_append]

theorem upperChar_toLower (c : Char) : upperChar c.toLower = upperChar c := by
  by_cases hc : c.isAlphanum = true
  · have hlower : c.toLower.isAlphanum = true ∧ c.toLower.toUpper = c.toUpper :=
      forall_ascii (p := fun c => c.isAlphanum = true →
        c.toLower.isAlphanum = true ∧ c.toLower.toUpper = c.toUpper)
        (by decide +kernel) (toNat_lt_of_isAlphanum hc) hc
    rw [upperChar_of_isAlphanum hc, upperChar_of_isAlphanum hlower.1, hlower.2]
  · rw [toLower_of_not_isAlphanum (Bool.eq_false_iff.mpr hc)]

/-- The letter case of ASCII makes no difference to the upper case of a text. -/
theorem upper_asciiLower (s : String) : upper (asciiLower s) = upper s := by
  rw [upper, upper, asciiLower, String.toList_ofList, List.flatMap_map]
  simp only [upperChar_toLower]

end Ascii

/-! ## Blanks at the ends -/

section Strip

variable {before cs after : List Char}

/-- Blanks before a text that begins with none are skipped. -/
theorem dropWhile_isBlank_append (hbefore : ∀ c ∈ before, isBlank c = true)
    (hcs : ∀ c ∈ cs.head?, isBlank c = false) : (before ++ cs).dropWhile isBlank = cs := by
  rw [List.dropWhile_append_of_pos hbefore]
  cases cs with
  | nil => rfl
  | cons c cs => exact List.dropWhile_cons_of_neg (by simp [hcs c rfl])

/-- No blank stands at either end of a text. -/
structure IsTrimmed (cs : List Char) : Prop where
  first : ∀ c ∈ cs.head?, isBlank c = false
  last : ∀ c ∈ cs.getLast?, isBlank c = false

instance (cs : List Char) : Decidable (IsTrimmed cs) :=
  decidable_of_iff (cs.head?.all (!isBlank ·) = true ∧ cs.getLast?.all (!isBlank ·) = true)
    ⟨fun h => ⟨by simpa [Option.all_eq_true] using h.1, by simpa [Option.all_eq_true] using h.2⟩,
      fun h => ⟨by simpa [Option.all_eq_true] using h.first,
        by simpa [Option.all_eq_true] using h.last⟩⟩

theorem IsTrimmed.of_forall (h : ∀ c ∈ cs, isBlank c = false) : IsTrimmed cs :=
  ⟨fun c hc => h c (List.mem_of_mem_head? hc), fun c hc => h c (List.mem_of_getLast? hc)⟩

theorem IsTrimmed.strip_append (h : IsTrimmed cs) (hbefore : ∀ c ∈ before, isBlank c = true)
    (hafter : ∀ c ∈ after, isBlank c = true) : strip (before ++ cs ++ after) = cs := by
  rcases eq_or_ne cs [] with rfl | hne
  · have hblank : ∀ c ∈ before ++ [] ++ after, isBlank c = true := by
      simpa [or_imp, forall_and] using And.intro hbefore hafter
    rw [strip, List.dropWhile_eq_nil_iff.mpr hblank]
    rfl
  · have hhead : ∀ c ∈ (cs ++ after).head?, isBlank c = false := by
      rw [List.head?_append_of_ne_nil _ hne]
      exact h.first
    have hlast : ∀ c ∈ cs.reverse.head?, isBlank c = false := by
      rw [List.head?_reverse]
      exact h.last
    rw [strip, List.append_assoc, dropWhile_isBlank_append hbefore hhead, List.reverse_append,
      dropWhile_isBlank_append (by simpa using hafter) hlast, List.reverse_reverse]

end Strip

/-! ## Pieces -/

theorem pieces_eq_splitOn (separator : Char) (cs : List Char) :
    pieces separator cs = cs.splitOn separator := by
  induction cs with
  | nil => rfl
  | cons c cs ih =>
      rw [pieces, ih, List.splitOn_cons_eq_if_modifyHead]
      by_cases hc : c = separator
      · simp [hc]
      · rw [if_neg hc, if_neg (by simpa using hc)]
        cases h : cs.splitOn separator with
        | nil => exact absurd h (List.splitOn_ne_nil _ _)
        | cons piece rest => rfl

end PeriodLint.Text
