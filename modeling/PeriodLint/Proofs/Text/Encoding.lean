import PeriodLint.Text.Utf8
import Mathlib.Data.List.Basic

/-!
# Encoded text and its boundaries

Decoding gives an encoded text back. The offsets that lie between characters are
the byte lengths of its prefixes, so that a stretch of bytes between two of them
is the encoding of a stretch of characters.
-/

namespace PeriodLint.Utf8

@[simp] theorem encode_nil : encode [] = [] := rfl

@[simp] theorem encode_cons (c : Char) (cs : List Char) :
    encode (c :: cs) = String.utf8EncodeChar c ++ encode cs := rfl

@[simp] theorem encode_append (cs ds : List Char) : encode (cs ++ ds) = encode cs ++ encode ds :=
  List.flatMap_append

theorem length_encode_cons (c : Char) (cs : List Char) :
    (encode (c :: cs)).length = c.utf8Size + (encode cs).length := by
  rw [encode_cons, List.length_append, String.length_utf8EncodeChar]

@[simp] theorem take_length_encode (pre post : List Char) :
    (encode (pre ++ post)).take (encode pre).length = encode pre := by
  rw [encode_append, List.take_left]

/-- The bytes of a character are recognised whatever follows them. -/
theorem decodeChar?_encodeChar_append (c : Char) (rest : List UInt8) :
    decodeChar? (String.utf8EncodeChar c ++ rest) = some c := by
  have hlen : (String.utf8EncodeChar c).length ≤ 4 := by
    rw [String.length_utf8EncodeChar]
    exact c.utf8Size_le_four
  rw [decodeChar?, List.take_append, List.take_of_length_le hlen, List.toByteArray_append,
    ByteArray.utf8DecodeChar?_utf8EncodeChar_append]

theorem exists_encodeChar_eq_cons (c : Char) :
    ∃ b bs, String.utf8EncodeChar c = b :: bs ∧ bs.length = c.utf8Size - 1 := by
  cases h : String.utf8EncodeChar c with
  | nil => exact absurd h String.utf8EncodeChar_ne_nil
  | cons b bs =>
      have hlen := congrArg List.length h
      rw [String.length_utf8EncodeChar, List.length_cons] at hlen
      exact ⟨b, bs, rfl, by omega⟩

theorem decodeLossy_encodeChar_append (c : Char) (rest : List UInt8) :
    decodeLossy (String.utf8EncodeChar c ++ rest) = c :: decodeLossy rest := by
  have hc := decodeChar?_encodeChar_append c rest
  obtain ⟨b, bs, hb, hlen⟩ := exists_encodeChar_eq_cons c
  rw [hb, List.cons_append] at hc ⊢
  rw [decodeLossy, hc]
  simp only [← hlen, List.drop_left]

/-- Encoded text is decoded without replacement characters. -/
@[simp] theorem decodeLossy_encode (cs : List Char) : decodeLossy (encode cs) = cs := by
  induction cs with
  | nil => rw [encode_nil, decodeLossy]
  | cons c cs ih => rw [encode_cons, decodeLossy_encodeChar_append, ih]

theorem decodeFrom_encode (offset : Nat) (cs : List Char) :
    decodeFrom offset (encode cs) = .ok cs := by
  induction cs generalizing offset with
  | nil => rw [encode_nil, decodeFrom]
  | cons c cs ih =>
      have hc := decodeChar?_encodeChar_append c (encode cs)
      obtain ⟨b, bs, hb, hlen⟩ := exists_encodeChar_eq_cons c
      rw [encode_cons]
      rw [hb, List.cons_append] at hc ⊢
      rw [decodeFrom, hc]
      simp only [← hlen, List.drop_left, ih, Except.map]

/-- Encoded text is read back without a fault. -/
@[simp] theorem decode_encode (cs : List Char) : decode (encode cs) = .ok cs :=
  decodeFrom_encode 0 cs

theorem encode_injective : Function.Injective encode := by
  intro cs ds h
  rw [← decodeLossy_encode cs, h, decodeLossy_encode]

/-! ## Bytes that stand for one character -/

/-- A byte that is the whole of one character occurs in no other. -/
theorem mem_encodeChar_iff {a c : Char} {b : UInt8} (hb : String.utf8EncodeChar a = [b]) :
    b ∈ String.utf8EncodeChar c ↔ c = a := by
  constructor
  · intro h
    obtain ⟨i, hi, hib⟩ := List.mem_iff_getElem.mp h
    have hfirst : b.IsUTF8FirstByte := by
      have := @UInt8.isUTF8FirstByte_getElem_zero_utf8EncodeChar a
      simpa only [hb, List.getElem_cons_zero] using this
    have hzero : i = 0 := by
      rw [← @UInt8.isUTF8FirstByte_getElem_utf8EncodeChar c i hi, hib]
      exact hfirst
    subst hzero
    obtain ⟨x, xs, hx, -⟩ := exists_encodeChar_eq_cons c
    simp only [hx, List.getElem_cons_zero] at hib
    have hc := decodeChar?_encodeChar_append c []
    have ha := decodeChar?_encodeChar_append a xs
    rw [hb, List.singleton_append, ← hib, ← hx] at ha
    rw [List.append_nil, ha] at hc
    exact (Option.some.inj hc).symm
  · rintro rfl
    simp [hb]

theorem count_encode {a : Char} {b : UInt8} (hb : String.utf8EncodeChar a = [b]) (cs : List Char) :
    (encode cs).count b = cs.count a := by
  induction cs with
  | nil => rfl
  | cons c cs ih =>
      rw [encode_cons, List.count_append, ih, List.count_cons]
      by_cases hc : c = a
      · subst hc
        simp [hb, Nat.add_comm]
      · rw [List.count_eq_zero_of_not_mem (mt (mem_encodeChar_iff hb).mp hc)]
        simp [hc]

theorem mem_encode_iff {a : Char} {b : UInt8} (hb : String.utf8EncodeChar a = [b])
    {cs : List Char} : b ∈ encode cs ↔ a ∈ cs := by
  rw [← List.count_pos_iff, count_encode hb, List.count_pos_iff]

/-- Bytes that start with a character start with its encoding. -/
theorem exists_append_of_decodeChar? {bytes : List UInt8} {c : Char}
    (h : decodeChar? bytes = some c) : ∃ rest, bytes = String.utf8EncodeChar c ++ rest := by
  obtain ⟨tail, htail⟩ := ByteArray.exists_of_utf8DecodeChar?_eq_some h
  have hlist := congrArg (·.data.toList) htail
  rw [List.toList_data_toByteArray, ByteArray.data_append, Array.toList_append,
    List.toList_data_toByteArray] at hlist
  refine ⟨tail.data.toList ++ bytes.drop 4, ?_⟩
  rw [← List.append_assoc, ← hlist, List.take_append_drop]

/-- Bytes that are read without a fault encode what is read. -/
theorem eq_encode_of_decodeFrom {offset : Nat} {bytes : List UInt8} {cs : List Char}
    (h : decodeFrom offset bytes = .ok cs) : bytes = encode cs := by
  fun_induction decodeFrom offset bytes generalizing cs with
  | case1 =>
      obtain rfl := Except.ok.inj h
      rfl
  | case2 offset first rest c hc ih =>
      obtain ⟨tail, htail⟩ := exists_append_of_decodeChar? hc
      obtain ⟨b, bs, hb, hlen⟩ := exists_encodeChar_eq_cons c
      rw [hb, List.cons_append] at htail
      obtain ⟨rfl, rfl⟩ := List.cons.inj htail
      rw [← hlen, List.drop_left] at h ih
      cases hrest : decodeFrom (offset + c.utf8Size) tail with
      | error e =>
          rw [hrest] at h
          cases h
      | ok ds =>
          rw [hrest] at h
          obtain rfl := Except.ok.inj h
          rw [encode_cons, hb, ← ih hrest, List.cons_append]
  | case3 => cases h

theorem eq_encode_of_decode {bytes : List UInt8} {cs : List Char} (h : decode bytes = .ok cs) :
    bytes = encode cs :=
  eq_encode_of_decodeFrom h

/-- A character of one byte is decoded only where its byte stands. -/
theorem mem_of_mem_decodeLossy {a : Char} {b : UInt8} (hb : String.utf8EncodeChar a = [b])
    (hne : a ≠ replacement) {bytes : List UInt8} (h : a ∈ decodeLossy bytes) : b ∈ bytes := by
  fun_induction decodeLossy bytes with
  | case1 => cases h
  | case2 first rest c hc ih =>
      rcases List.mem_cons.mp h with rfl | h
      · obtain ⟨tail, htail⟩ := exists_append_of_decodeChar? hc
        rw [htail, hb]
        exact List.mem_cons_self
      · exact List.mem_cons_of_mem first (List.mem_of_mem_drop (ih h))
  | case3 first rest _ ih =>
      rcases List.mem_cons.mp h with h | h
      · exact absurd h hne
      · exact List.mem_cons_of_mem first (List.mem_of_mem_drop (ih h))

/-! ## Boundaries -/

/-- The offsets between the characters of a text, both of its ends included. -/
def boundaries : List Char → List Nat
  | [] => [0]
  | c :: cs => 0 :: (boundaries cs).map (c.utf8Size + ·)

/-- The number of characters that end before an offset or at it. -/
def charsBefore : List Char → Nat → Nat
  | [], _ => 0
  | c :: cs, offset =>
      if c.utf8Size ≤ offset then charsBefore cs (offset - c.utf8Size) + 1 else 0

/-- The boundaries of a text are the byte lengths of its prefixes. -/
theorem mem_boundaries_iff {cs : List Char} {offset : Nat} :
    offset ∈ boundaries cs ↔ ∃ pre post, cs = pre ++ post ∧ offset = (encode pre).length := by
  induction cs generalizing offset with
  | nil =>
      constructor
      · intro h
        exact ⟨[], [], rfl, List.mem_singleton.mp h⟩
      · rintro ⟨pre, post, h, rfl⟩
        rw [(List.append_eq_nil_iff.mp h.symm).1]
        exact List.mem_singleton_self 0
  | cons c cs ih =>
      simp only [boundaries, List.mem_cons, List.mem_map]
      constructor
      · rintro (rfl | ⟨inner, h, rfl⟩)
        · exact ⟨[], c :: cs, rfl, rfl⟩
        · obtain ⟨pre, post, rfl, rfl⟩ := ih.mp h
          exact ⟨c :: pre, post, rfl, (length_encode_cons c pre).symm⟩
      · rintro ⟨pre, post, h, rfl⟩
        cases pre with
        | nil => exact Or.inl rfl
        | cons d pre =>
            obtain ⟨rfl, rfl⟩ := List.cons.inj h
            exact Or.inr ⟨_, ih.mpr ⟨pre, post, rfl, rfl⟩, (length_encode_cons c pre).symm⟩

theorem zero_mem_boundaries (cs : List Char) : 0 ∈ boundaries cs :=
  mem_boundaries_iff.mpr ⟨[], cs, rfl, rfl⟩

theorem charsBefore_zero (cs : List Char) : charsBefore cs 0 = 0 := by
  cases cs with
  | nil => rfl
  | cons c cs =>
      have := c.utf8Size_pos
      rw [charsBefore, if_neg (by omega)]

@[simp] theorem charsBefore_length_encode (pre post : List Char) :
    charsBefore (pre ++ post) (encode pre).length = pre.length := by
  induction pre with
  | nil => exact charsBefore_zero post
  | cons c pre ih =>
      rw [List.cons_append, charsBefore, length_encode_cons, if_pos (Nat.le_add_right _ _),
        Nat.add_sub_cancel_left, ih, List.length_cons]

theorem charsBefore_mono (cs : List Char) {a b : Nat} (h : a ≤ b) :
    charsBefore cs a ≤ charsBefore cs b := by
  induction cs generalizing a b with
  | nil => exact Nat.le_refl 0
  | cons c cs ih =>
      simp only [charsBefore]
      split
      · rw [if_pos (by omega)]
        exact Nat.succ_le_succ (ih (by omega))
      · exact Nat.zero_le _

section Boundary

variable {cs : List Char} {offset : Nat}

theorem take_encode (h : offset ∈ boundaries cs) :
    (encode cs).take offset = encode (cs.take (charsBefore cs offset)) := by
  obtain ⟨pre, post, rfl, rfl⟩ := mem_boundaries_iff.mp h
  rw [charsBefore_length_encode, List.take_left, take_length_encode]

theorem length_encode_take (h : offset ∈ boundaries cs) :
    (encode (cs.take (charsBefore cs offset))).length = offset := by
  obtain ⟨pre, post, rfl, rfl⟩ := mem_boundaries_iff.mp h
  rw [charsBefore_length_encode, List.take_left]

theorem drop_encode (h : offset ∈ boundaries cs) :
    (encode cs).drop offset = encode (cs.drop (charsBefore cs offset)) := by
  obtain ⟨pre, post, rfl, rfl⟩ := mem_boundaries_iff.mp h
  rw [charsBefore_length_encode, List.drop_left, encode_append, List.drop_left]

theorem le_length_encode (h : offset ∈ boundaries cs) : offset ≤ (encode cs).length := by
  obtain ⟨pre, post, rfl, rfl⟩ := mem_boundaries_iff.mp h
  rw [encode_append, List.length_append]
  exact Nat.le_add_right _ _

theorem charsBefore_le_length (h : offset ∈ boundaries cs) : charsBefore cs offset ≤ cs.length := by
  obtain ⟨pre, post, rfl, rfl⟩ := mem_boundaries_iff.mp h
  rw [charsBefore_length_encode, List.length_append]
  exact Nat.le_add_right _ _

/-- Between boundaries, bytes and characters are ordered alike. -/
theorem charsBefore_lt_iff {other : Nat} (h : offset ∈ boundaries cs)
    (hother : other ∈ boundaries cs) :
    charsBefore cs offset < charsBefore cs other ↔ offset < other := by
  constructor
  · intro hlt
    by_contra hle
    have := charsBefore_mono cs (Nat.le_of_not_lt hle)
    omega
  · intro hlt
    apply Nat.lt_of_le_of_ne (charsBefore_mono cs (Nat.le_of_lt hlt))
    intro heq
    have hlen := length_encode_take h
    rw [heq, length_encode_take hother] at hlen
    omega

/-- The bytes between two boundaries encode the characters between them. -/
theorem drop_take_encode {start stop : Nat} (hle : start ≤ stop) (hstart : start ∈ boundaries cs)
    (hstop : stop ∈ boundaries cs) :
    ((encode cs).take stop).drop start =
      encode ((cs.take (charsBefore cs stop)).drop (charsBefore cs start)) := by
  have hmono := charsBefore_mono cs hle
  have hsplit := List.take_append_drop (charsBefore cs start) (cs.take (charsBefore cs stop))
  rw [List.take_take, Nat.min_eq_left hmono] at hsplit
  calc
    ((encode cs).take stop).drop start
      = (encode (cs.take (charsBefore cs start)) ++
          encode ((cs.take (charsBefore cs stop)).drop (charsBefore cs start))).drop start := by
        rw [take_encode hstop, ← encode_append, hsplit]
    _ = encode ((cs.take (charsBefore cs stop)).drop (charsBefore cs start)) :=
        List.drop_left' (length_encode_take hstart)

end Boundary

end PeriodLint.Utf8
