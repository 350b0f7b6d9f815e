import PeriodLint.Directive
import PeriodLint.Proofs.Text.Classes

/-!
# Directives as they are written

The words of a directive may be written in any letter case, and blanks may stand
after its sharp, after its colons and around the commas of its list. Reading
what is written so gives back the keyword and the IDs in upper case. Without a
list the directive speaks of every rule.
-/

namespace PeriodLint

open Text

namespace Directive

/-- The keyword for a line or for the whole file. -/
def keywordOf (wholeFile : Bool) : List Char := if wholeFile then fileKeyword else lineKeyword

/-- What is written of a directive up to its keyword, with the text before the sharp. -/
structure Opening where
  lead : List Char
  afterSharp : List Char
  address : List Char
  afterAddress : List Char
  keyword : List Char
  wholeFile : Bool
  no_sharp : '#' ∉ lead
  blank_afterSharp : ∀ c ∈ afterSharp, isBlank c = true
  address_eq : address.map Char.toLower = Directive.address
  blank_afterAddress : ∀ c ∈ afterAddress, isBlank c = true
  keyword_eq : keyword.map Char.toLower = keywordOf wholeFile

/-- An ID in a list, with the blanks around it. -/
structure ListedId where
  before : List Char
  id : List Char
  after : List Char
  blank_before : ∀ c ∈ before, isBlank c = true
  id_ne_nil : id ≠ []
  alphanum : ∀ c ∈ id, c.isAlphanum = true
  blank_after : ∀ c ∈ after, isBlank c = true

/-- The text of a directive up to its keyword. -/
def Opening.text (o : Opening) : List Char :=
  o.lead ++ '#' :: (o.afterSharp ++ (o.address ++ (o.afterAddress ++ o.keyword)))

/-- The text of an ID in a list. -/
def ListedId.text (i : ListedId) : List Char := i.before ++ i.id ++ i.after

/-- The ID that a listed one stands for. -/
def ListedId.upperId (i : ListedId) : String := String.ofList (i.id.map Char.toUpper)

/-- The text of a list of IDs. -/
def listText (ids : List ListedId) : List Char := [','].intercalate (ids.map ListedId.text)

/-! ## Words in any letter case -/

section Word

variable {written word rest : List Char} {l : Char}

theorem sameLetter_of_toLower {c : Char} (h : c.toLower = l) : sameLetter c l = true := by
  simp [sameLetter, h]

theorem afterWord?_append (h : written.map Char.toLower = word) :
    afterWord? word (written ++ rest) = some rest := by
  subst h
  induction written with
  | nil => rfl
  | cons c written ih =>
      rw [List.map_cons, List.cons_append, afterWord?, if_pos (sameLetter_of_toLower rfl)]
      exact ih

/-- A word that begins with no blank does so in any letter case. -/
theorem isBlank_head_append (h : written.map Char.toLower = l :: word) (hl : isBlank l = false) :
    ∀ c ∈ (written ++ rest).head?, isBlank c = false := by
  obtain ⟨c, tail, rfl, hc, -⟩ := List.map_eq_cons_iff.mp h
  rintro _ ⟨⟩
  rw [← isBlank_toLower, hc, hl]

theorem exists_keywordOf (wholeFile : Bool) :
    ∃ l word, keywordOf wholeFile = l :: word ∧ isBlank l = false := by
  cases wholeFile with
  | false => exact ⟨'n', "oqa".toList, rfl, by decide⟩
  | true => exact ⟨'d', "isable-file".toList, rfl, by decide⟩

/-- The two keywords begin with different letters. -/
theorem afterWord?_lineKeyword (h : written.map Char.toLower = fileKeyword) :
    afterWord? lineKeyword (written ++ rest) = none := by
  have hline : lineKeyword = 'n' :: "oqa".toList := rfl
  have hfile : fileKeyword = 'd' :: "isable-file".toList := rfl
  rw [hfile] at h
  obtain ⟨c, tail, rfl, hc, -⟩ := List.map_eq_cons_iff.mp h
  have hother : sameLetter c 'n' = false := by simp [sameLetter, hc]
  rw [hline, List.cons_append, afterWord?, if_neg (by simp [hother])]

theorem keyword?_append {wholeFile : Bool} (h : written.map Char.toLower = keywordOf wholeFile) :
    keyword? (written ++ rest) = some (wholeFile, rest) := by
  cases wholeFile with
  | false =>
      have hline : written.map Char.toLower = lineKeyword := h
      rw [keyword?, afterWord?_append hline]
  | true =>
      have hfile : written.map Char.toLower = fileKeyword := h
      have hlength : fileKeyword.length = written.length := by
        rw [← hfile, List.length_map]
      rw [keyword?, afterWord?_lineKeyword hfile, afterWord?_append hfile, hlength,
        List.take_left, hfile, beq_self_eq_true]

end Word

/-! ## Openings -/

theorem ofComment?_append {lead rest : List Char} (h : '#' ∉ lead) :
    ofComment? (lead ++ rest) = ofComment? rest := by
  induction lead with
  | nil => rfl
  | cons c lead ih =>
      rw [List.mem_cons, not_or] at h
      rw [List.cons_append, ofComment?, if_neg (Ne.symm h.1), ih h.2]

/-- What follows an opening decides the rules that the directive speaks of. -/
theorem ofComment?_opening (o : Opening) {rest : List Char} (hrest : atWordEnd rest = true) :
    ofComment? (o.text ++ rest) = some ⟨o.wholeFile, Scope.ofText (idList rest)⟩ := by
  have haddress : ∀ c ∈ (o.address ++ (o.afterAddress ++ (o.keyword ++ rest))).head?,
      isBlank c = false :=
    isBlank_head_append o.address_eq (by decide)
  have hkeyword : ∀ c ∈ (o.keyword ++ rest).head?, isBlank c = false := by
    obtain ⟨l, word, hword, hl⟩ := exists_keywordOf o.wholeFile
    exact isBlank_head_append (o.keyword_eq.trans hword) hl
  have hsharp : afterSharp? (o.afterSharp ++ (o.address ++ (o.afterAddress ++ (o.keyword ++ rest))))
      = some ⟨o.wholeFile, Scope.ofText (idList rest)⟩ := by
    rw [afterSharp?, dropWhile_isBlank_append o.blank_afterSharp haddress,
      afterWord?_append o.address_eq]
    simp only [Option.bind_eq_bind, Option.bind_some]
    rw [dropWhile_isBlank_append o.blank_afterAddress hkeyword, keyword?_append o.keyword_eq]
    simp [hrest]
  simp only [Opening.text, List.append_assoc, List.cons_append]
  rw [ofComment?_append o.no_sharp, ofComment?, if_pos rfl, hsharp]

/-! ## Lists of IDs -/

section Ids

variable {i : ListedId} {ids : List ListedId}

/-- The listed ID without the blanks before it. -/
def ListedId.trimmed (i : ListedId) : ListedId :=
  { i with before := [], blank_before := List.forall_mem_nil _ }

theorem listText_singleton (i : ListedId) : listText [i] = i.text :=
  List.intercalate_singleton

theorem listText_cons_cons (i j : ListedId) (ids : List ListedId) :
    listText (i :: j :: ids) = i.text ++ ',' :: listText (j :: ids) := by
  simp [listText, List.intercalate_cons_cons]

/-- The blanks before the first ID stand before the whole list. -/
theorem listText_cons (i : ListedId) (ids : List ListedId) :
    listText (i :: ids) = i.before ++ listText (i.trimmed :: ids) := by
  cases ids with
  | nil => simp [listText_singleton, ListedId.text, ListedId.trimmed]
  | cons j ids => simp [listText_cons_cons, ListedId.text, ListedId.trimmed]

theorem startsId_of_isAlphanum {c : Char} (h : c.isAlphanum = true) : startsId c = true := by
  simp [startsId, h]

theorem isBlank_or_isAlphanum_of_mem_text {c : Char} (h : c ∈ i.text) :
    isBlank c = true ∨ c.isAlphanum = true := by
  rw [ListedId.text, List.mem_append, List.mem_append] at h
  rcases h with (hbefore | hid) | hafter
  · exact Or.inl (i.blank_before c hbefore)
  · exact Or.inr (i.alphanum c hid)
  · exact Or.inl (i.blank_after c hafter)

theorem inIds_of_mem_text {c : Char} (h : c ∈ i.text) : inIds c = true := by
  rcases isBlank_or_isAlphanum_of_mem_text h with hblank | hid
  · simp [inIds, hblank]
  · simp [inIds, startsId_of_isAlphanum hid]

theorem inIds_of_mem_listText {c : Char} (h : c ∈ listText ids) : inIds c = true := by
  induction ids with
  | nil => cases h
  | cons i ids ih =>
      cases ids with
      | nil =>
          rw [listText_singleton] at h
          exact inIds_of_mem_text h
      | cons j ids =>
          rw [listText_cons_cons, List.mem_append, List.mem_cons] at h
          rcases h with hi | rfl | hids
          · exact inIds_of_mem_text hi
          · decide
          · exact ih hids

/-- Without the blanks before it a list begins with an ID. -/
theorem exists_listText_trimmed (i : ListedId) (ids : List ListedId) :
    ∃ c rest, listText (i.trimmed :: ids) = c :: rest ∧ c.isAlphanum = true := by
  obtain ⟨c, tail, hid⟩ := List.exists_cons_of_ne_nil i.id_ne_nil
  have hc := i.alphanum c (by simp [hid])
  have htext : i.trimmed.text = c :: (tail ++ i.after) := by
    simp [ListedId.text, ListedId.trimmed, hid]
  cases ids with
  | nil => exact ⟨c, _, by rw [listText_singleton, htext], hc⟩
  | cons j ids => exact ⟨c, _, by rw [listText_cons_cons, htext, List.cons_append], hc⟩

/-- A punctuation mark that is no comma ends a list. -/
theorem inIds_of_isPunctuation {c : Char} (h : isPunctuation c = true) (hc : c ≠ ',') :
    inIds c = false := by
  have hne : ∀ d, isPunctuation d = false → c ≠ d := by
    rintro d hd rfl
    rw [hd] at h
    cases h
  have hdotted := hne '\u0130' (by decide)
  have hdotless := hne '\u0131' (by decide)
  have hlong := hne '\u017F' (by decide)
  have hkelvin := hne '\u212A' (by decide)
  simp [inIds, startsId, isAlphanum_of_isPunctuation h, isBlank_of_isPunctuation h, hc, hdotted,
    hdotless, hlong, hkelvin]

/-- The list that follows a colon is read up to the punctuation behind it. -/
theorem idList_listText {suffix : List Char}
    (hsuffix : ∀ c ∈ suffix.head?, isPunctuation c = true ∧ c ≠ ',') :
    idList (':' :: (listText (i :: ids) ++ suffix)) = listText (i.trimmed :: ids) := by
  obtain ⟨c, rest, htext, hc⟩ := exists_listText_trimmed i ids
  have hhead : ∀ b ∈ (c :: (rest ++ suffix)).head?, isBlank b = false := by
    rintro _ ⟨⟩
    exact isBlank_of_isAlphanum hc
  have hall : ∀ b ∈ c :: rest, inIds b = true := by
    rw [← htext]
    exact fun b => inIds_of_mem_listText
  have hstop : suffix.takeWhile inIds = [] := by
    cases suffix with
    | nil => rfl
    | cons b suffix =>
        obtain ⟨hb, hne⟩ := hsuffix b rfl
        exact List.takeWhile_cons_of_neg (by simp [inIds_of_isPunctuation hb hne])
  rw [listText_cons, htext, List.append_assoc, List.cons_append, idList,
    dropWhile_isBlank_append i.blank_before hhead]
  simp only [startsId_of_isAlphanum hc, if_true]
  rw [← List.cons_append, List.takeWhile_append_of_pos hall, hstop, List.append_nil]

theorem strip_text (i : ListedId) : strip i.text = i.id :=
  (IsTrimmed.of_forall fun c hc => isBlank_of_isAlphanum (i.alphanum c hc)).strip_append
    i.blank_before i.blank_after

theorem comma_notMem_text (i : ListedId) : ',' ∉ i.text := by
  intro h
  rcases isBlank_or_isAlphanum_of_mem_text h with hblank | hid
  · exact absurd hblank (by decide)
  · exact absurd hid (by decide)

/-- The IDs of a list are read in upper case. -/
theorem idsOf_listText (hne : ids ≠ []) :
    Scope.idsOf (listText ids) = ids.map ListedId.upperId := by
  have hpieces : pieces ',' (listText ids) = ids.map ListedId.text := by
    rw [pieces_eq_splitOn, listText, List.splitOn_intercalate]
    · simpa using fun i _ => comma_notMem_text i
    · simpa using hne
  have hstrip : (ids.map ListedId.text).map strip = ids.map ListedId.id := by
    rw [List.map_map]
    exact List.map_congr_left fun i _ => strip_text i
  have hfilter : (ids.map ListedId.id).filter (!·.isEmpty) = ids.map ListedId.id := by
    rw [List.filter_eq_self]
    simpa using fun i _ => i.id_ne_nil
  rw [Scope.idsOf, hpieces, hstrip, hfilter, List.map_map]
  exact List.map_congr_left fun i _ => upper_of_isAlphanum i.alphanum

theorem ofText_listText (hne : ids ≠ []) :
    Scope.ofText (listText ids) = .only (ids.map ListedId.upperId) := by
  rw [Scope.ofText, idsOf_listText hne]
  cases ids with
  | nil => exact absurd rfl hne
  | cons i ids => rfl

end Ids

/-! ## Reading what is written -/

theorem atWordEnd_colon (cs : List Char) : atWordEnd (':' :: cs) = true := by
  have hcolon : isWord ':' = false := by decide +kernel
  rw [atWordEnd, hcolon, Bool.not_false]

theorem atWordEnd_of_blank {blanks : List Char} (h : ∀ c ∈ blanks, isBlank c = true) :
    atWordEnd blanks = true := by
  cases blanks with
  | nil => rfl
  | cons c blanks =>
      rw [atWordEnd, isWord_of_isBlank (h c List.mem_cons_self), Bool.not_false]

theorem idList_of_blank {blanks : List Char} (h : ∀ c ∈ blanks, isBlank c = true) :
    idList blanks = [] := by
  cases blanks with
  | nil => rfl
  | cons c blanks =>
      have hc : c ≠ ':' := by
        rintro rfl
        exact absurd (h _ List.mem_cons_self) (by decide)
      rw [idList]
      rintro cs ⟨⟩
      exact hc rfl

theorem idList_colon_of_blank {blanks : List Char} (h : ∀ c ∈ blanks, isBlank c = true) :
    idList (':' :: blanks) = [] := by
  have hskip : blanks.dropWhile isBlank = [] := List.dropWhile_eq_nil_iff.mpr h
  rw [idList, hskip]

end Directive

open Directive in
/-- A directive in any letter case and with blanks where they may stand is read with its keyword and
with the IDs of its list in upper case, up to a punctuation mark behind it. Without a list it is
read with its keyword for every rule. -/
theorem written_directive_is_read (o : Opening) :
    (∀ ids suffix, ids ≠ [] → (∀ c ∈ suffix.head?, isPunctuation c = true ∧ c ≠ ',') →
      ofComment? (o.text ++ ':' :: (listText ids ++ suffix)) =
        some ⟨o.wholeFile, .only (ids.map ListedId.upperId)⟩) ∧
    ∀ blanks, (∀ c ∈ blanks, isBlank c = true) →
      ofComment? (o.text ++ blanks) = some ⟨o.wholeFile, .everyRule⟩ ∧
        ofComment? (o.text ++ ':' :: blanks) = some ⟨o.wholeFile, .everyRule⟩ := by
  constructor
  · intro ids suffix hne hsuffix
    obtain ⟨i, ids, rfl⟩ := List.exists_cons_of_ne_nil hne
    rw [ofComment?_opening o (atWordEnd_colon _), idList_listText hsuffix,
      ofText_listText (List.cons_ne_nil _ _)]
    rfl
  · intro blanks hblanks
    constructor
    · rw [ofComment?_opening o (atWordEnd_of_blank hblanks), idList_of_blank hblanks]
      rfl
    · rw [ofComment?_opening o (atWordEnd_colon _), idList_colon_of_blank hblanks]
      rfl

/-! ## A directive in mixed case over several lines -/

namespace Directive

/-- The opening `x #⇥AllDay:⏎Disable-FILE`, with a tab and a line break for the two signs. -/
def mixedOpening : Opening where
  lead := "x ".toList
  afterSharp := ['\t']
  address := "AllDay:".toList
  afterAddress := ['\r', '\n']
  keyword := "Disable-FILE".toList
  wholeFile := true
  no_sharp := by decide
  blank_afterSharp := List.all_eq_true.mp rfl
  address_eq := by decide
  blank_afterAddress := List.all_eq_true.mp rfl
  keyword_eq := by decide

/-- An ID with a line break before it and a blank behind it. -/
def mixedId : ListedId where
  before := ['\n']
  id := "dtr001".toList
  after := [' ']
  blank_before := List.all_eq_true.mp rfl
  id_ne_nil := by decide
  alphanum := List.all_eq_true.mp rfl
  blank_after := List.all_eq_true.mp rfl

/-- An ID with a line separator behind it. -/
def otherId : ListedId where
  before := []
  id := "X9y".toList
  after := ['\u2028', '\r']
  blank_before := List.all_eq_true.mp rfl
  id_ne_nil := by decide
  alphanum := List.all_eq_true.mp rfl
  blank_after := List.all_eq_true.mp rfl

end Directive

open Directive in
theorem written_directive_is_read_mixed :
    mixedOpening.text ++ ':' :: (listText [mixedId, otherId] ++ "-- #".toList) =
        "x #\tAllDay:\r\nDisable-FILE:\ndtr001 ,X9y\u2028\r-- #".toList ∧
      (∀ c ∈ "-- #".toList.head?, isPunctuation c = true ∧ c ≠ ',') ∧
      ofComment? (mixedOpening.text ++ ':' :: (listText [mixedId, otherId] ++ "-- #".toList)) =
        some ⟨true, .only ["DTR001", "X9Y"]⟩ := by
  have hsuffix : ∀ c ∈ "-- #".toList.head?, isPunctuation c = true ∧ c ≠ ',' := by
    rintro c ⟨⟩
    exact ⟨by decide, by decide⟩
  obtain ⟨hlist, -⟩ := written_directive_is_read mixedOpening
  have hread := hlist [mixedId, otherId] "-- #".toList (List.cons_ne_nil _ _) hsuffix
  exact ⟨by decide, hsuffix, hread⟩

end PeriodLint
