import PeriodLint.Files.Changed
import PeriodLint.Proofs.Files.Collected
import PeriodLint.Proofs.Text.Classes
import PeriodLint.Proofs.Text.Unified
import PeriodLint.Text.Utf8

/-!
# Listed changes

A listing of changed files has one name on a line. A name of printed characters
stands there as it is. A name with any other character, with a double quote or
with a backslash stands between double quotes and has escapes in it. Such a line
ends in a quote, as no name of a Ruby file does. So of the changed Ruby files
those are found whose names need no quotes, and the others are missed.
-/

namespace PeriodLint

open Text

/-! ## Reading what is printed -/

namespace Text

variable {cs line : List Char}

theorem breakLines_append_lineFeed (h : ∀ c ∈ line, isBreak c = false) (cs : List Char) :
    breakLines (line ++ '\n' :: cs) = line :: breakLines cs := by
  induction line with
  | nil =>
      rw [List.nil_append, breakLines, if_pos (by decide)]
      exact fun _ heq => absurd heq (by decide)
  | cons c line ih =>
      obtain ⟨hc, hline⟩ := List.forall_mem_cons.mp h
      have hreturn : c ≠ '\r' := ne_of_apply_ne isBreak (by rw [hc]; decide)
      rw [List.cons_append, breakLines, if_neg (by simp [hc]), ih hline]
      exact fun _ heq => absurd heq hreturn

/-- Ended lines are read back if there is no break in them. -/
theorem breakLines_flatMap {ls : List (List Char)} (h : ∀ l ∈ ls, ∀ c ∈ l, isBreak c = false) :
    breakLines (ls.flatMap (· ++ ['\n'])) = ls := by
  induction ls with
  | nil => rfl
  | cons line ls ih =>
      obtain ⟨hline, hls⟩ := List.forall_mem_cons.mp h
      rw [List.flatMap_cons, List.append_assoc, List.singleton_append,
        breakLines_append_lineFeed hline, ih hls]

theorem IsTrimmed.unifyBreaks (h : IsTrimmed cs) : IsTrimmed (unifyBreaks cs) where
  first := by
    cases cs with
    | nil => exact fun c hc => nomatch hc
    | cons c cs =>
        have hreturn : c ≠ '\r' := ne_of_apply_ne isBlank (by rw [h.first c rfl]; decide)
        rw [unifyBreaks_cons fun _ heq _ => hreturn heq, if_neg hreturn]
        exact h.first
  last := by
    rcases List.eq_nil_or_concat cs with rfl | ⟨front, c, rfl⟩
    · exact fun c hc => nomatch hc
    · rw [List.concat_eq_append] at h ⊢
      have hc : isBlank c = false := h.last c List.getLast?_concat
      have hreturn : '\r' ≠ c := ne_of_apply_ne isBlank (by rw [hc]; decide)
      have hfeed : c ≠ '\n' := ne_of_apply_ne isBlank (by rw [hc]; decide)
      have hone : unifyBreaks [c] = [c] := unifyBreaks_eq_self (by simpa using hreturn)
      rw [unifyBreaks_append fun _ => by simpa using hfeed, hone, List.getLast?_concat]
      rintro _ ⟨⟩
      exact hc

/-- The line feed after a text is stripped. -/
theorem strip_unifyBreaks_append (h : IsTrimmed cs) :
    strip (unifyBreaks (cs ++ ['\n'])) = unifyBreaks cs := by
  have hlast : cs.getLast? ≠ some '\r' := fun hlast => absurd (h.last _ hlast) (by decide)
  have hone : unifyBreaks ['\n'] = ['\n'] := unifyBreaks_eq_self (by decide)
  rw [unifyBreaks_append fun heq => absurd heq hlast, hone, ← List.nil_append (unifyBreaks cs)]
  exact h.unifyBreaks.strip_append (List.forall_mem_nil _)
    (List.forall_mem_singleton.mpr (by decide))

theorem exists_mem_pieces_iff {separator c : Char} :
    (∃ piece ∈ pieces separator cs, c ∈ piece) ↔ c ∈ cs ∧ c ≠ separator := by
  induction cs with
  | nil => simp [pieces]
  | cons d cs ih =>
      rw [pieces]
      by_cases hd : d = separator
      · subst hd
        rw [if_pos rfl, List.exists_mem_cons_iff, ih, List.mem_cons]
        simp only [List.not_mem_nil, false_or, or_and_right]
        exact (or_iff_right fun h => h.2 h.1).symm
      · rw [if_neg hd]
        cases h : pieces separator cs with
        | nil => exact absurd h (pieces_ne_nil separator cs)
        | cons piece rest =>
            rw [h, List.exists_mem_cons_iff] at ih
            rw [List.exists_mem_cons_iff, List.mem_cons, List.mem_cons, or_assoc, ih, or_and_right]
            exact or_congr_left (and_iff_left_of_imp fun hc => hc ▸ hd).symm

/-- The last piece goes on to the end. -/
theorem exists_pieces_concat {separator c : Char} (hc : c ≠ separator) (cs : List Char) :
    ∃ front piece, pieces separator (cs ++ [c]) = front ++ [piece ++ [c]] := by
  induction cs with
  | nil => exact ⟨[], [], by simp [pieces, hc]⟩
  | cons d cs ih =>
      obtain ⟨front, piece, h⟩ := ih
      rw [List.cons_append, pieces, h]
      by_cases hd : d = separator
      · exact ⟨[] :: front, piece, if_pos hd⟩
      · rw [if_neg hd]
        cases front with
        | nil => exact ⟨[], d :: piece, rfl⟩
        | cons first front => exact ⟨(d :: first) :: front, piece, rfl⟩

end Text

/-! ## Spelled paths -/

namespace Path

variable {cs : List Char} {c : Char} {p q r : Path}

theorem join_eq_join_iff : p.join r = q.join r ↔ p = q ∨ r.isAbsolute = true := by
  obtain ⟨root, parts⟩ := p
  obtain ⟨root', parts'⟩ := q
  unfold join
  split
  · next h => exact iff_of_true rfl (Or.inr h)
  · next h => simp [h]

/-- A piece with a character that is no dot is kept as a part. -/
theorem isPart_of_mem {piece : List Char} (hc : c ∈ piece) (hdot : c ≠ '.') :
    (String.ofList piece != "" && String.ofList piece != ".") = true := by
  rw [Bool.and_eq_true, bne_iff_ne, bne_iff_ne]
  constructor <;> intro heq
  · have hpiece : piece = [] := by simpa using congrArg String.toList heq
    exact List.not_mem_nil (hpiece ▸ hc)
  · have hpiece : piece = ['.'] := by simpa using congrArg String.toList heq
    exact hdot (List.mem_singleton.mp (hpiece ▸ hc))

theorem exists_mem_partsOf_iff (hdot : c ≠ '.') :
    (∃ part ∈ partsOf cs, c ∈ part.toList) ↔ c ∈ cs ∧ c ≠ '/' := by
  rw [← exists_mem_pieces_iff]
  constructor
  · rintro ⟨part, hpart, hc⟩
    obtain ⟨piece, hpiece, rfl⟩ := List.mem_map.mp (List.mem_filter.mp hpart).1
    exact ⟨piece, hpiece, by rwa [String.toList_ofList] at hc⟩
  · rintro ⟨piece, hpiece, hc⟩
    exact ⟨String.ofList piece,
      List.mem_filter.mpr ⟨List.mem_map_of_mem hpiece, isPart_of_mem hc hdot⟩,
      by rwa [String.toList_ofList]⟩

/-- The name of a path goes on to the end of its spelling. -/
theorem exists_name_ofString_concat (hdot : c ≠ '.') (hslash : c ≠ '/') (cs : List Char) :
    ∃ front, (ofString (String.ofList (cs ++ [c]))).name = String.ofList (front ++ [c]) := by
  obtain ⟨front, piece, h⟩ := exists_pieces_concat hslash cs
  have hlast : [String.ofList (piece ++ [c])].filter (fun part => part != "" && part != ".") =
      [String.ofList (piece ++ [c])] :=
    List.filter_eq_self.mpr
      (List.forall_mem_singleton.mpr (isPart_of_mem List.mem_concat_self hdot))
  refine ⟨piece, ?_⟩
  simp only [name, ofString, String.toList_ofList, partsOf, h, List.map_append, List.filter_append,
    List.map_singleton, hlast, List.getLast?_concat, Option.getD_some]

/-- Names of Ruby files end in a letter. -/
theorem isAlpha_of_isRubyName {name : String} (h : isRubyName name = true) :
    name.toList.getLast?.any Char.isAlpha = true := by
  have hall : ∀ s ∈ rubyNames ++ rubySuffixes, s.toList.getLast?.any Char.isAlpha = true := by
    decide
  rcases isRubyName_iff.mp h with hname | ⟨stem, -, suffix, hsuffix, rfl⟩
  · exact hall name (List.mem_append_left _ hname)
  · have hlast := hall suffix (List.mem_append_right _ hsuffix)
    obtain ⟨c, hc, halpha⟩ := (Option.any_eq_true ..).mp hlast
    rw [String.toList_append, List.getLast?_append, hc]
    exact halpha

/-- A path whose spelling ends in no letter, dot or slash is not that of a Ruby file. -/
theorem isRubyFile_ofString_concat (hdot : c ≠ '.') (hslash : c ≠ '/') (hc : c.isAlpha = false)
    (cs : List Char) : (ofString (String.ofList (cs ++ [c]))).isRubyFile = false := by
  obtain ⟨front, hname⟩ := exists_name_ofString_concat hdot hslash cs
  by_contra h
  have halpha := isAlpha_of_isRubyName (Bool.not_eq_false _ |>.mp h)
  rw [hname, String.toList_ofList, List.getLast?_concat] at halpha
  exact absurd hc (Bool.not_eq_false _ |>.mpr halpha)

/-- Unified line ends make another path of a spelling with a carriage return. -/
theorem ofString_unifyBreaks_eq_iff {s : String} :
    ofString (String.ofList (unifyBreaks s.toList)) = ofString s ↔ '\r' ∉ s.toList := by
  constructor
  · intro h hmem
    have hparts : partsOf (unifyBreaks s.toList) = partsOf s.toList := by
      have hparts := congrArg Path.parts h
      rwa [ofString, String.toList_ofList] at hparts
    obtain ⟨part, hpart, hc⟩ :=
      (exists_mem_partsOf_iff (c := '\r') (by decide)).mpr ⟨hmem, by decide⟩
    rw [← hparts] at hpart
    exact not_mem_unifyBreaks _ ((exists_mem_partsOf_iff (by decide)).mp ⟨part, hpart, hc⟩).1
  · intro h
    rw [unifyBreaks_eq_self h, String.ofList_toList]

end Path

/-! ## Listings -/

namespace Listing

/-- The characters of ASCII that are no controls. -/
def printedIntervals : List (Nat × Nat) := [(0x20, 0x7E)]

/-- A name that a listing gives as it is: it has no character that is not printed, no double quote
and no backslash. -/
def isPlain (name : String) : Bool :=
  name.toList.all fun c => within printedIntervals c && c != '"' && c != '\\'

/-- The letters of the escapes that are no numbers. -/
def escapeLetters : List (UInt8 × Char) :=
  [(0x07, 'a'), (0x08, 'b'), (0x09, 't'), (0x0A, 'n'), (0x0B, 'v'), (0x0C, 'f'), (0x0D, 'r'),
    (0x22, '"'), (0x5C, '\\')]

/-- A byte of a name between quotes. A byte that is neither printed nor has a letter is given by
three digits in base eight. -/
def escape (b : UInt8) : List Char :=
  match escapeLetters.lookup b with
  | some letter => ['\\', letter]
  | none =>
      if within printedIntervals (Char.ofNat b.toNat) then [Char.ofNat b.toNat]
      else '\\' :: [b.toNat / 64, b.toNat / 8 % 8, b.toNat % 8].map Nat.digitChar

/-- A name as a listing gives it. -/
def written (name : String) : List Char :=
  if isPlain name then name.toList
  else '"' :: (Utf8.encode name.toList).flatMap escape ++ ['"']

/-- A listing of names. -/
def text (names : List String) : List Char := names.flatMap fun name => written name ++ ['\n']

variable {name : String} {c : Char}

theorem written_of_isPlain (h : isPlain name = true) : written name = name.toList := if_pos h

theorem within_of_mem_escape {b : UInt8} (h : c ∈ escape b) : within printedIntervals c = true := by
  have hletters : ∀ e ∈ escapeLetters, within printedIntervals e.2 = true := by decide
  have hdigits : ∀ n < 8, within printedIntervals (Nat.digitChar n) = true := by decide
  have hbyte := b.toNat_lt
  rw [escape] at h
  split at h
  · next letter hletter =>
      obtain ⟨before, after, hlist, -⟩ := List.lookup_eq_some_iff.mp hletter
      rcases List.mem_pair.mp h with rfl | rfl
      · decide
      · exact hletters _ (hlist ▸ List.mem_append_right before List.mem_cons_self)
  · split at h
    · next hprinted => rwa [List.mem_singleton.mp h]
    · rcases List.mem_cons.mp h with rfl | h
      · decide
      · obtain ⟨n, hn, rfl⟩ := List.mem_map.mp h
        simp only [List.mem_cons, List.not_mem_nil, or_false] at hn
        exact hdigits n (by omega)

/-- Whatever a name is, it is written in printed characters. -/
theorem within_of_mem_written (h : c ∈ written name) : within printedIntervals c = true := by
  rw [written] at h
  split at h
  · next hplain =>
      have hc := List.all_eq_true.mp hplain c h
      rw [Bool.and_eq_true, Bool.and_eq_true] at hc
      exact hc.1.1
  · rw [List.cons_append, List.mem_cons, List.mem_append, List.mem_singleton, List.mem_flatMap] at h
    rcases h with rfl | ⟨b, -, hb⟩ | rfl
    · decide
    · exact within_of_mem_escape hb
    · decide

theorem isBreak_of_mem_written (h : c ∈ written name) : isBreak c = false := by
  have hdisjoint : AreDisjoint printedIntervals breakIntervals := by decide
  exact hdisjoint.within_eq_false (within_of_mem_written h)

/-- The lines of a listing are the names as it gives them. -/
theorem breakLines_text (names : List String) :
    breakLines (unifyBreaks (text names)) = names.map written := by
  have hreturn : '\r' ∉ text names := by
    intro h
    obtain ⟨name, -, hmem⟩ := List.mem_flatMap.mp h
    rcases List.mem_append.mp hmem with hmem | hmem
    · exact absurd (isBreak_of_mem_written hmem) (by decide)
    · exact absurd hmem (by decide)
  have htext : text names = (names.map written).flatMap (· ++ ['\n']) := by
    rw [List.flatMap_map, text]
  rw [unifyBreaks_eq_self hreturn, htext, breakLines_flatMap]
  rw [List.forall_mem_map]
  exact fun name _ c => isBreak_of_mem_written

/-- The file of a line is a Ruby file if that of the name is one and the name needs no quotes. -/
theorem isRubyFile_written (name : String) :
    (Path.ofString (String.ofList (written name))).isRubyFile =
      (isPlain name && (Path.ofString name).isRubyFile) := by
  by_cases h : isPlain name = true
  · rw [written_of_isPlain h, String.ofList_toList, h, Bool.true_and]
  · rw [written, if_neg h, Bool.eq_false_iff.mpr h, Bool.false_and]
    exact Path.isRubyFile_ofString_concat (by decide) (by decide) (by decide) _

end Listing

/-! ## Changed files -/

/-- Dropping some elements gives the same list of values only if none is dropped. -/
theorem map_filter_eq_map_iff {α β : Type} {keep : α → Bool} {f g : α → β} {xs : List α} :
    (xs.filter keep).map f = xs.map g ↔ ∀ x ∈ xs, keep x = true ∧ f x = g x := by
  constructor
  · intro h
    have hlength := congrArg List.length h
    rw [List.length_map, List.length_map, List.length_filter_eq_length_iff] at hlength
    rw [List.filter_eq_self.mpr hlength] at h
    exact fun x hx => ⟨hlength x hx, List.map_inj_left.mp h x hx⟩
  · intro h
    rw [List.filter_eq_self.mpr fun x hx => (h x hx).1]
    exact List.map_congr_left fun x hx => (h x hx).2

namespace CommandResult

/-- The result of a command that succeeds. What it prints is read with unified line ends. -/
def ofPrinted (cs : List Char) : CommandResult := ⟨0, String.ofList (unifyBreaks cs)⟩

/-- The changed Ruby files are those with plain names, below the root as it is read. -/
theorem changedFiles_ofPrinted {root : String} (hroot : IsTrimmed root.toList)
    (names : List String) :
    changedFiles (ofPrinted (root.toList ++ ['\n'])) (ofPrinted (Listing.text names)) =
      (names.filter fun name => Listing.isPlain name && (Path.ofString name).isRubyFile).map
        fun name => (Path.ofString (String.ofList (unifyBreaks root.toList))).join
          (Path.ofString name) := by
  have hbase : strip (ofPrinted (root.toList ++ ['\n'])).output.toList =
      unifyBreaks root.toList := by
    rw [ofPrinted, String.toList_ofList, strip_unifyBreaks_append hroot]
  have hlines : breakLines (ofPrinted (Listing.text names)).output.toList =
      names.map Listing.written := by
    rw [ofPrinted, String.toList_ofList, Listing.breakLines_text]
  rw [changedFiles, if_neg (by simp [ofPrinted])]
  simp only [hbase, hlines, List.map_map, List.filter_map, Function.comp_def,
    Listing.isRubyFile_written]
  -- A line that is kept is the name itself.
  apply List.map_congr_left
  intro name hname
  have hplain := (Bool.and_eq_true_iff.mp (List.mem_filter.mp hname).2).1
  rw [Listing.written_of_isPlain hplain, String.ofList_toList]

/-- Of the changed files that a listing names, those Ruby files are found whose names are listed as
they are, in the order of the listing and below the root as it is read. A root without carriage
returns is read as it is, and then nothing is found that is not a changed Ruby file. All of these are
found exactly if none of their names needs quotes and their root is read as it is. -/
theorem changed_files_are_found_iff {root : String} (hroot : IsTrimmed root.toList)
    (names : List String) :
    let isRuby := fun name => (Path.ofString name).isRubyFile
    let below := fun root name => (Path.ofString root).join (Path.ofString name)
    let changed := (names.filter isRuby).map (below root)
    let found := changedFiles? (some (ofPrinted (root.toList ++ ['\n'])))
      (some (ofPrinted (Listing.text names)))
    found = pure ((names.filter fun name => Listing.isPlain name && isRuby name).map
        (below (String.ofList (unifyBreaks root.toList)))) ∧
      ('\r' ∉ root.toList → found.value.Sublist changed) ∧
      (found.value = changed ↔ ∀ name ∈ names, isRuby name = true →
        Listing.isPlain name = true ∧
          ('\r' ∉ root.toList ∨ (Path.ofString name).isAbsolute = true)) := by
  intro isRuby below changed found
  have hfound : found = pure ((names.filter fun name => Listing.isPlain name && isRuby name).map
      (below (String.ofList (unifyBreaks root.toList)))) :=
    congrArg pure (changedFiles_ofPrinted hroot names)
  refine ⟨hfound, fun hreturn => ?_, ?_⟩
  · have hread : String.ofList (unifyBreaks root.toList) = root := by
      rw [unifyBreaks_eq_self hreturn, String.ofList_toList]
    rw [hfound, Logged.value_pure, hread, ← List.filter_filter]
    exact List.filter_sublist.map (below root)
  · rw [hfound, Logged.value_pure, ← List.filter_filter, map_filter_eq_map_iff]
    simp only [List.mem_filter, and_imp]
    refine forall₂_congr fun name _ => imp_congr_right fun _ => and_congr_right fun _ => ?_
    rw [Path.join_eq_join_iff, Path.ofString_unifyBreaks_eq_iff]

/-- Plain names, in directories or with blanks in them, are found in their order. -/
theorem changed_files_are_found_iff_plain :
    let names := ["lib/a b.rb", "notes.txt", "app.rb.orig", "Gemfile"]
    IsTrimmed "/srv/app".toList ∧
      (changedFiles? (some (ofPrinted ("/srv/app".toList ++ ['\n'])))
        (some (ofPrinted (Listing.text names)))).value =
        [⟨"/", ["srv", "app", "lib", "a b.rb"]⟩, ⟨"/", ["srv", "app", "Gemfile"]⟩] := by
  intro names
  have hroot : IsTrimmed "/srv/app".toList := by decide
  obtain ⟨-, -, hiff⟩ := changed_files_are_found_iff hroot names
  refine ⟨hroot, (hiff.mpr ?_).trans ?_⟩
  · decide
  · decide

/-- A changed Ruby file is missed for a letter of its name that is not in ASCII. -/
theorem quoted_name_is_missed :
    let names := ["café.rb"]
    let changed := (names.filter fun name => (Path.ofString name).isRubyFile).map fun name =>
      (Path.ofString "/repo").join (Path.ofString name)
    let found := changedFiles? (some (ofPrinted ("/repo".toList ++ ['\n'])))
      (some (ofPrinted (Listing.text names)))
    (IsTrimmed "/repo".toList ∧ ∀ name ∈ names, name.toList.any isBreak = false) ∧
      Listing.text names = "\"caf\\303\\251.rb\"\n".toList ∧
      changed = [⟨"/", ["repo", "café.rb"]⟩] ∧ found.value = [] :=
  ⟨⟨by decide, by decide⟩, by decide, by decide, by decide⟩

end CommandResult

end PeriodLint
