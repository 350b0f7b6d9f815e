import Mathlib
import PeriodLint.Proofs.Files.Shape

/-!
# Collected files

A directory stands for the Ruby files that are reached below it, from directory
to directory and through no link, unless a part on the way is the name of a
directory that holds no source. What the directory itself is called, where it
lies and how it is spelled makes no difference.
-/

namespace PeriodLint

namespace Path

/-! ## The order of parts -/

theorem partsPrecede_iff {as bs : List String} : partsPrecede as bs = true ↔ as ≤ bs := by
  rw [le_iff_eq_or_lt]
  induction as generalizing bs with
  | nil => cases bs <;> simp [partsPrecede]
  | cons a as ih =>
      cases bs with
      | nil => simp [partsPrecede]
      | cons b bs =>
          rw [partsPrecede, List.cons_lt_cons_iff]
          by_cases hhead : a = b
          · simp [hhead, ih]
          · simp [hhead]

theorem partsPrecede_trans (as bs cs : List String) (h : partsPrecede as bs = true)
    (h' : partsPrecede bs cs = true) : partsPrecede as cs = true :=
  partsPrecede_iff.mpr ((partsPrecede_iff.mp h).trans (partsPrecede_iff.mp h'))

theorem partsPrecede_total (as bs : List String) :
    (partsPrecede as bs || partsPrecede bs as) = true := by
  rw [Bool.or_eq_true, partsPrecede_iff, partsPrecede_iff]
  exact le_total as bs

/-- Different parts are sorted strictly. -/
theorem pairwise_lt_mergeSort {ps : List (List String)} (h : ps.Nodup) :
    (ps.mergeSort partsPrecede).Pairwise (· < ·) := by
  have hsorted := List.pairwise_mergeSort partsPrecede_trans partsPrecede_total ps
  have hnodup : (ps.mergeSort partsPrecede).Nodup := (List.mergeSort_perm ps _).nodup_iff.mpr h
  exact (hsorted.and hnodup).imp fun hpq => lt_of_le_of_ne (partsPrecede_iff.mp hpq.1) hpq.2

/-! ## Names of Ruby files -/

/-- A name of a Ruby file has a suffix of Ruby files after something else, or it is one of the
names that need none. -/
def IsRubyFileName (name : String) : Prop :=
  name ∈ rubyNames ∨ ∃ stem ≠ "", ∃ suffix ∈ rubySuffixes, name = stem ++ suffix

theorem takeWhile_reverse_append {stem ext : List Char} (hdot : '.' ∉ ext) :
    (stem ++ '.' :: ext).reverse.takeWhile (· != '.') = ext.reverse := by
  have hext : ∀ c ∈ ext.reverse, (c != '.') = true := fun c hc =>
    bne_iff_ne.mpr fun heq => hdot (heq ▸ List.mem_reverse.mp hc)
  rw [List.reverse_append, List.reverse_cons, List.append_assoc, List.takeWhile_append_of_pos hext,
    List.singleton_append, List.takeWhile_cons_of_neg (by simp), List.append_nil]

/-- The last dot of a name begins its suffix if something stands on both sides of it. -/
theorem suffixOf_append {stem ext : List Char} (hdot : '.' ∉ ext) :
    suffixOf (stem ++ '.' :: ext) = if ext = [] ∨ stem = [] then [] else '.' :: ext := by
  simp only [suffixOf, takeWhile_reverse_append hdot, List.reverse_reverse]
  refine ite_congr (propext ?_) (fun _ => rfl) fun _ => rfl
  rw [Bool.or_eq_true, List.isEmpty_reverse, List.isEmpty_iff, decide_eq_true_iff,
    ← List.length_eq_zero_iff (l := stem), List.length_reverse, List.length_append,
    List.length_cons]
  exact or_congr_right (by omega)

theorem suffixOf_of_not_mem {name : List Char} (h : '.' ∉ name) : suffixOf name = [] := by
  have hname : ∀ c ∈ name.reverse, (c != '.') = true := fun c hc =>
    bne_iff_ne.mpr fun heq => h (heq ▸ List.mem_reverse.mp hc)
  have htail : (name.reverse ++ []).takeWhile (· != '.') = name.reverse ++ [] :=
    List.takeWhile_append_of_pos hname
  rw [List.append_nil] at htail
  simp only [suffixOf, htail]
  exact if_pos (by simp)

/-- Names with a suffix are those that end in it after something else. -/
theorem suffixOf_eq_iff {name ext : List Char} (hext : ext ≠ []) (hdot : '.' ∉ ext) :
    suffixOf name = '.' :: ext ↔ ∃ stem ≠ [], name = stem ++ '.' :: ext := by
  constructor
  · intro h
    have hmem : '.' ∈ name := by
      by_contra hmem
      rw [suffixOf_of_not_mem hmem] at h
      cases h
    obtain ⟨after, before, hname, hafter⟩ := List.eq_append_cons_of_mem (List.mem_reverse.mpr hmem)
    have hsplit : name = before.reverse ++ '.' :: after.reverse := by
      rw [← List.reverse_reverse name, hname]
      simp
    rw [hsplit, suffixOf_append (by simpa using hafter), ite_eq_iff] at h
    obtain ⟨-, hnil⟩ | ⟨hne, hafter'⟩ := h
    · cases hnil
    · rw [not_or] at hne
      exact ⟨before.reverse, hne.2, by rw [hsplit, hafter']⟩
  · rintro ⟨stem, hstem, rfl⟩
    rw [suffixOf_append hdot, if_neg (by simp [hext, hstem])]

/-- A suffix of Ruby files is a dot and something without a dot. -/
theorem exists_of_mem_rubySuffixes {suffix : String} (h : suffix ∈ rubySuffixes) :
    ∃ ext, suffix.toList = '.' :: ext ∧ ext ≠ [] ∧ '.' ∉ ext := by
  have hall : ∀ suffix ∈ rubySuffixes, suffix.toList = '.' :: suffix.toList.tail ∧
      suffix.toList.tail ≠ [] ∧ '.' ∉ suffix.toList.tail := by decide
  exact ⟨_, hall suffix h⟩

theorem isRubyName_iff {name : String} : isRubyName name = true ↔ IsRubyFileName name := by
  rw [isRubyName, Bool.or_eq_true, List.contains_iff_mem, List.contains_iff_mem, or_comm,
    IsRubyFileName]
  refine or_congr_right ?_
  constructor
  · intro h
    obtain ⟨ext, hsuffix, hext, hdot⟩ := exists_of_mem_rubySuffixes h
    rw [String.toList_ofList] at hsuffix
    obtain ⟨stem, hstem, hname⟩ := (suffixOf_eq_iff hext hdot).mp hsuffix
    refine ⟨String.ofList stem, by simpa using hstem, _, h, ?_⟩
    rw [hsuffix, ← String.ofList_append, ← hname, String.ofList_toList]
  · rintro ⟨stem, hstem, suffix, hmem, rfl⟩
    obtain ⟨ext, hsuffix, hext, hdot⟩ := exists_of_mem_rubySuffixes hmem
    have h : suffixOf (stem ++ suffix).toList = '.' :: ext :=
      (suffixOf_eq_iff hext hdot).mpr
        ⟨stem.toList, by simpa using hstem, by rw [String.toList_append, hsuffix]⟩
    rwa [h, ← hsuffix, String.ofList_toList]

example : isRubyName "a.b.rb" = true ∧ isRubyName ".rb" = false ∧ isRubyName "a.rb." = false := by
  decide

theorem name_join_relative (root : Path) {p : List String} (hp : p ≠ []) :
    (root.join ⟨"", p⟩).name = p.getLast hp := by
  have hparts : (root.join ⟨"", p⟩).parts = root.parts ++ p := rfl
  rw [name, hparts, List.getLast?_append_of_ne_nil root.parts hp, List.getLast?_eq_some_getLast hp]
  rfl

end Path

/-- What an entry is. -/
inductive Entry.Kind where
  | file
  | directory
  | link
  deriving DecidableEq, Repr

/-- What an entry is, without what it holds. -/
def Entry.kind : Entry → Entry.Kind
  | .file _ => .file
  | .directory => .directory
  | .link _ => .link

namespace FileStore

/-- The entries of a store form a tree: each has a place of its own below the root, it lies in a
directory, and double dots, which lead up, are no name. -/
structure IsTree (fs : FileStore) : Prop where
  nodup : (fs.entries.map (·.1)).Nodup
  below_root : ∀ place ∈ fs.entries.map (·.1), place ≠ []
  parent : ∀ place ∈ fs.entries.map (·.1), fs.entryAt? place.dropLast = some .directory
  no_way_up : ∀ place ∈ fs.entries.map (·.1), ".." ∉ place

/-- Parts that are reached below a place, from directory to directory and through no link. -/
inductive Reached (fs : FileStore) : Place → List String → Prop where
  | entry {place : Place} {name : String} (h : (fs.entryAt? (place ++ [name])).isSome) :
      Reached fs place [name]
  | step {place : Place} {name : String} {p : List String}
      (h : fs.entryAt? (place ++ [name]) = some .directory)
      (hp : Reached fs (place ++ [name]) p) : Reached fs place (name :: p)

/-- Below two directories lie entries of one kind under the same parts, and of the links there the
same lead to files. -/
structure AlikeBelow (fs : FileStore) (root : Path) (place : Place) (fs' : FileStore) (root' : Path)
    (place' : Place) : Prop where
  kinds : ∀ p ∈ fs.below place ++ fs'.below place',
    (fs.entryAt? (place ++ p)).map Entry.kind = (fs'.entryAt? (place' ++ p)).map Entry.kind
  links : ∀ p ∈ fs.below place, (fs.entryAt? (place ++ p)).map Entry.kind = some .link →
    fs.isFile (root.join ⟨"", p⟩) = fs'.isFile (root'.join ⟨"", p⟩)

section Below

variable {fs : FileStore} {place other : Place} {p : List String}

theorem isSome_entryAt?_iff (hplace : place ≠ []) :
    (fs.entryAt? place).isSome ↔ place ∈ fs.entries.map (·.1) := by
  rw [entryAt?, if_neg (by simpa using hplace), List.lookup_isSome_iff, List.mem_map]
  exact exists_congr fun entry => and_congr_right fun _ => beq_iff_eq.trans eq_comm

/-- A place is below another one if it goes on from there. -/
theorem rest_eq_some_iff :
    (if place.isPrefixOf other && place.length < other.length then some (other.drop place.length)
      else none) = some p ↔ p ≠ [] ∧ other = place ++ p := by
  rw [Option.ite_none_right_eq_some, Bool.and_eq_true, decide_eq_true_iff,
    List.isPrefixOf_iff_prefix, Option.some_inj]
  constructor
  · rintro ⟨⟨⟨q, rfl⟩, hlength⟩, hp⟩
    rw [List.drop_left] at hp
    subst hp
    exact ⟨List.ne_nil_of_length_pos (by simpa using hlength), rfl⟩
  · rintro ⟨hp, rfl⟩
    exact ⟨⟨List.prefix_append place p, by simpa using List.length_pos_iff.mpr hp⟩, List.drop_left⟩

theorem mem_below_iff : p ∈ fs.below place ↔ p ≠ [] ∧ (fs.entryAt? (place ++ p)).isSome := by
  simp only [below, List.mem_filterMap, rest_eq_some_iff]
  constructor
  · rintro ⟨other, hother, hp, rfl⟩
    exact ⟨hp, (isSome_entryAt?_iff (List.append_ne_nil_of_right_ne_nil place hp)).mpr hother⟩
  · rintro ⟨hp, hentry⟩
    have hother := (isSome_entryAt?_iff (List.append_ne_nil_of_right_ne_nil place hp)).mp hentry
    exact ⟨place ++ p, hother, hp, rfl⟩

namespace IsTree

variable (h : fs.IsTree)
include h

theorem nodup_below (place : Place) : (fs.below place).Nodup := by
  refine h.nodup.filterMap fun other other' p hp hp' => ?_
  rw [(rest_eq_some_iff.mp hp).2, (rest_eq_some_iff.mp hp').2]

/-- Above an entry there are directories only. -/
theorem entryAt?_of_append (hp : p ≠ []) (hentry : (fs.entryAt? (place ++ p)).isSome) :
    fs.entryAt? place = some .directory := by
  induction p using List.reverseRecOn with
  | nil => exact absurd rfl hp
  | append_singleton p name ih =>
      rw [← List.append_assoc, isSome_entryAt?_iff (List.concat_ne_nil _ _)] at hentry
      have hparent := h.parent _ hentry
      rw [List.dropLast_concat] at hparent
      rcases List.eq_nil_or_concat p with rfl | ⟨q, last, rfl⟩
      · rwa [List.append_nil] at hparent
      · exact ih (by simp) (by rw [hparent]; rfl)

/-- What lies below a directory of a tree is what is reached from it. -/
theorem mem_below_iff_reached : p ∈ fs.below place ↔ fs.Reached place p := by
  rw [mem_below_iff]
  constructor
  · rintro ⟨hp, hentry⟩
    induction p generalizing place with
    | nil => exact absurd rfl hp
    | cons name p ih =>
        rw [List.append_cons] at hentry
        rcases eq_or_ne p [] with rfl | hrest
        · exact .entry (by simpa using hentry)
        · exact .step (h.entryAt?_of_append hrest hentry) (ih hrest hentry)
  · intro hp
    induction hp with
    | entry hentry => exact ⟨List.cons_ne_nil _ _, hentry⟩
    | step _ _ ih => exact ⟨List.cons_ne_nil _ _, by simpa using ih.2⟩

theorem no_way_up_of_isSome (hentry : (fs.entryAt? place).isSome) : ".." ∉ place := by
  rcases eq_or_ne place [] with rfl | hplace
  · exact List.not_mem_nil
  · exact h.no_way_up place ((isSome_entryAt?_iff hplace).mp hentry)

end IsTree

end Below

section Follow

variable {fs : FileStore} {root : Path} {place : Place} {p : List String}

/-- After parts that lead to a place, the way goes on from there with the links that are left. -/
theorem exists_follow_append {links : Nat} {here : Place} {before : List String}
    (h : fs.follow links here before = .ok place) :
    ∃ left, ∀ parts, fs.follow links here (before ++ parts) = fs.follow left place parts := by
  fun_induction follow fs links here before with
  | case1 links here =>
      obtain rfl := Except.ok.inj h
      exact ⟨links, fun parts => rfl⟩
  | case2 links here rest hhere ih =>
      obtain ⟨left, hleft⟩ := ih h
      refine ⟨left, fun parts => ?_⟩
      rw [List.cons_append, follow, hhere, ← hleft]
      exact if_pos rfl
  | case3 => cases h
  | case4 => cases h
  | case5 here part rest hhere hpart target hlink links ih =>
      obtain ⟨left, hleft⟩ := ih h
      refine ⟨left, fun parts => ?_⟩
      rw [List.cons_append, follow, hhere, hlink, ← hleft, List.append_assoc]
      exact if_neg hpart
  | case6 links here part rest hhere hpart e hnolink hentry ih =>
      obtain ⟨left, hleft⟩ := ih h
      refine ⟨left, fun parts => ?_⟩
      rw [List.cons_append, follow, hhere, hentry, ← hleft]
      cases e with
      | file bytes => exact if_neg hpart
      | directory => exact if_neg hpart
      | link target => exact absurd rfl (hnolink target)
  | case7 => cases h

/-- The way from directory to directory leads to what is reached, unless this is a link. -/
theorem Reached.follow_eq (hp : fs.Reached place p) (links : Nat)
    (hplace : fs.entryAt? place = some .directory) (hup : ".." ∉ p)
    (hkind : (fs.entryAt? (place ++ p)).map Entry.kind ≠ some .link) :
    fs.follow links place p = .ok (place ++ p) := by
  induction hp with
  | @entry place name h =>
      rw [List.mem_singleton] at hup
      obtain ⟨e, he⟩ := Option.isSome_iff_exists.mp h
      rw [he] at hkind
      rw [follow, hplace, he]
      simp only [if_neg (Ne.symm hup)]
      cases e with
      | file bytes => simp only [follow]
      | directory => simp only [follow]
      | link target => exact absurd rfl hkind
  | @step place name p h _ ih =>
      rw [List.mem_cons, not_or] at hup
      rw [List.append_cons] at hkind
      rw [follow, hplace, h]
      simp only [if_neg (Ne.symm hup.1)]
      rw [ih h hup.2 hkind, ← List.append_cons]

/-- Whether what is reached below a directory and is no link is a file does not depend on how the
directory is spelled. -/
theorem IsTree.isFile_join_iff (h : fs.IsTree) (hroot : fs.locate root = .ok place)
    (hp : p ∈ fs.below place) (hkind : (fs.entryAt? (place ++ p)).map Entry.kind ≠ some .link) :
    fs.isFile (root.join ⟨"", p⟩) = true ↔
      (fs.entryAt? (place ++ p)).map Entry.kind = some .file := by
  obtain ⟨hne, hentry⟩ := mem_below_iff.mp hp
  have hup : ".." ∉ p := fun hmem =>
    h.no_way_up_of_isSome hentry (List.mem_append_right place hmem)
  obtain ⟨left, hleft⟩ := exists_follow_append hroot
  have hlocate : fs.locate (root.join ⟨"", p⟩) = .ok (place ++ p) :=
    (hleft p).trans ((h.mem_below_iff_reached.mp hp).follow_eq left
      (h.entryAt?_of_append hne hentry) hup hkind)
  simp only [isFile, find?, hlocate]
  cases fs.entryAt? (place ++ p) with
  | none => simp
  | some e => cases e <;> simp [Entry.kind]

end Follow

section Collected

variable {fs fs' : FileStore} {root root' : Path} {place place' : Place} {p : List String}

/-- The files below a place that a directory stands for, as parts from there on. -/
def collectedParts (fs : FileStore) (root : Path) (place : Place) : List (List String) :=
  ((fs.below place).filter (fs.isCollected root)).mergeSort Path.partsPrecede

theorem collect_eq_map (hroot : fs.locate root = .ok place) :
    fs.collect root = (fs.collectedParts root place).map fun p => root.join ⟨"", p⟩ := by
  rw [collect, hroot]
  rfl

theorem IsTree.pairwise_collectedParts (h : fs.IsTree) (root : Path) (place : Place) :
    (fs.collectedParts root place).Pairwise (· < ·) :=
  Path.pairwise_lt_mergeSort ((h.nodup_below place).filter _)

theorem IsTree.mem_collectedParts_iff (h : fs.IsTree) :
    p ∈ fs.collectedParts root place ↔ fs.Reached place p ∧
      fs.isFile (root.join ⟨"", p⟩) = true ∧ Path.IsRubyFileName (root.join ⟨"", p⟩).name ∧
      ∀ part ∈ p, part ∉ skippedNames := by
  rw [collectedParts, List.mem_mergeSort, List.mem_filter, h.mem_below_iff_reached, isCollected,
    Bool.and_eq_true, Bool.and_eq_true, Path.isRubyFile, Path.isRubyName_iff, and_assoc]
  simp

theorem AlikeBelow.mem_below (h : AlikeBelow fs root place fs' root' place') :
    p ∈ fs.below place ↔ p ∈ fs'.below place' := by
  have hsome (hp : p ∈ fs.below place ++ fs'.below place') :
      (fs.entryAt? (place ++ p)).isSome = (fs'.entryAt? (place' ++ p)).isSome := by
    rw [← Option.isSome_map (f := Entry.kind), h.kinds p hp, Option.isSome_map]
  constructor
  · intro hp
    obtain ⟨hne, hentry⟩ := mem_below_iff.mp hp
    exact mem_below_iff.mpr ⟨hne, (hsome (List.mem_append_left _ hp)).symm.trans hentry⟩
  · intro hp
    obtain ⟨hne, hentry⟩ := mem_below_iff.mp hp
    exact mem_below_iff.mpr ⟨hne, (hsome (List.mem_append_right _ hp)).trans hentry⟩

theorem AlikeBelow.isFile_join_iff (h : AlikeBelow fs root place fs' root' place')
    (htree : fs.IsTree) (htree' : fs'.IsTree) (hroot : fs.locate root = .ok place)
    (hroot' : fs'.locate root' = .ok place') (hp : p ∈ fs.below place) :
    fs.isFile (root.join ⟨"", p⟩) = true ↔ fs'.isFile (root'.join ⟨"", p⟩) = true := by
  have hkinds := h.kinds p (List.mem_append_left _ hp)
  by_cases hlink : (fs.entryAt? (place ++ p)).map Entry.kind = some .link
  · rw [h.links p hp hlink]
  · rw [htree.isFile_join_iff hroot hp hlink, hkinds]
    exact (htree'.isFile_join_iff hroot' (h.mem_below.mp hp) (hkinds ▸ hlink)).symm

theorem isRubyName_of_mem_skippedNames {name : String} (h : name ∈ skippedNames) :
    Path.isRubyName name = false := by
  have hall : ∀ name ∈ skippedNames, Path.isRubyName name = false := by decide
  exact hall name h

end Collected

/-- A directory of a tree stands for the files that are reached below it, from directory to
directory and through no link, that are called as Ruby files are and that no part on the way is
the name of a skipped directory. They come in the order of their parts, and each comes once. No
file is skipped for its own name. What the parts from the directory on are depends on what lies
below the directory alone, and so neither on its name nor on where it lies. -/
theorem collected_files_are_reached {fs : FileStore} (h : fs.IsTree) {root : Path} {place : Place}
    (hroot : fs.locate root = .ok place) :
    (fs.collect root).Pairwise (fun p q => p.parts < q.parts) ∧
      (∀ path, path ∈ fs.collect root ↔ ∃ p, path = root.join ⟨"", p⟩ ∧ fs.Reached place p ∧
        fs.isFile path = true ∧ Path.IsRubyFileName path.name ∧ ∀ part ∈ p, part ∉ skippedNames) ∧
      (∀ name, Path.IsRubyFileName name → name ∉ skippedNames) ∧
      ∀ fs' root' place', fs'.IsTree → fs'.locate root' = .ok place' →
        AlikeBelow fs root place fs' root' place' →
        ∃ ps : List (List String), fs.collect root = ps.map (fun p => root.join ⟨"", p⟩) ∧
          fs'.collect root' = ps.map fun p => root'.join ⟨"", p⟩ := by
  rw [collect_eq_map hroot]
  refine ⟨?_, fun path => ?_, fun name hname hmem => ?_,
    fun fs' root' place' h' hroot' halike => ?_⟩
  · refine List.pairwise_map.mpr ((h.pairwise_collectedParts root place).imp fun hlt => ?_)
    exact List.append_left_lt hlt
  · rw [List.mem_map]
    constructor
    · rintro ⟨p, hp, rfl⟩
      exact ⟨p, rfl, h.mem_collectedParts_iff.mp hp⟩
    · rintro ⟨p, rfl, hp⟩
      exact ⟨p, h.mem_collectedParts_iff.mpr hp, rfl⟩
  · rw [← Path.isRubyName_iff, isRubyName_of_mem_skippedNames hmem] at hname
    cases hname
  · have hsame : fs.collectedParts root place = fs'.collectedParts root' place' := by
      refine (h.pairwise_collectedParts root place).eq_of_mem_iff
        (h'.pairwise_collectedParts root' place') fun p => ?_
      rw [h.mem_collectedParts_iff, h'.mem_collectedParts_iff, ← h.mem_below_iff_reached,
        ← h'.mem_below_iff_reached, ← halike.mem_below]
      refine and_congr_right fun hp => ?_
      have hne := (mem_below_iff.mp hp).1
      rw [halike.isFile_join_iff h h' hroot hroot' hp, Path.name_join_relative root hne,
        Path.name_join_relative root' hne]
    exact ⟨_, rfl, hsame ▸ collect_eq_map hroot'⟩

/-- What lies below a directory of Ruby files, with links to a file and to a directory. -/
def sampleBelow (target : List String) : List (Place × Entry) :=
  [(["b.rb"], .file []), (["lib"], .directory), (["lib", "a.rake"], .file []),
    (["lib", "log"], .directory), (["lib", "log", "c.rb"], .file []),
    (["d.rb"], .link ⟨"", target⟩), (["more"], .link ⟨"", ["lib"]⟩)]

/-- A store with the sample below a directory of temporary files. -/
def tmpStore : FileStore where
  entries := [(["w"], .directory), (["w", "tmp"], .directory)] ++
    (sampleBelow ["b.rb"]).map fun (place, e) => (["w", "tmp"] ++ place, e)

/-- A store with the sample elsewhere, where a link leads to another file. -/
def movedStore : FileStore where
  entries := (["r"], .directory) ::
    (sampleBelow ["lib", "a.rake"]).map fun (place, e) => (["r"] ++ place, e)

theorem isTree_tmpStore : tmpStore.IsTree where
  nodup := by decide
  below_root := by decide
  parent := by simp [tmpStore, sampleBelow, entryAt?, List.lookup_cons]
  no_way_up := by decide

theorem isTree_movedStore : movedStore.IsTree where
  nodup := by decide
  below_root := by decide
  parent := by simp [movedStore, sampleBelow, entryAt?, List.lookup_cons]
  no_way_up := by decide

theorem alikeBelow_sample :
    AlikeBelow tmpStore ⟨"", ["w", "tmp"]⟩ ["w", "tmp"] movedStore ⟨"", ["r"]⟩ ["r"] where
  kinds := by decide
  links := by
    have hbelow : tmpStore.below ["w", "tmp"] = (sampleBelow ["b.rb"]).map (·.1) := by decide
    simp only [hbelow, sampleBelow, List.map_cons, List.map_nil, List.forall_mem_cons]
    refine ⟨?_, ?_, ?_, ?_, ?_, ?_, ?_, List.forall_mem_nil _⟩ <;> intro _ <;> cbv

/-- Below a directory of temporary files the same is collected as anywhere else. -/
theorem collected_files_are_reached_sample :
    (tmpStore.collect ⟨"", ["w", "tmp"]⟩).Pairwise (fun p q => p.parts < q.parts) ∧
      ⟨"", ["w", "tmp", "lib", "a.rake"]⟩ ∈ tmpStore.collect ⟨"", ["w", "tmp"]⟩ ∧
      ∃ ps : List (List String),
        tmpStore.collect ⟨"", ["w", "tmp"]⟩ = ps.map (fun p => ⟨"", ["w", "tmp"] ++ p⟩) ∧
          movedStore.collect ⟨"", ["r"]⟩ = ps.map fun p => ⟨"", ["r"] ++ p⟩ := by
  have hlocate : tmpStore.locate ⟨"", ["w", "tmp"]⟩ = .ok ["w", "tmp"] := by cbv
  have hlocate' : movedStore.locate ⟨"", ["r"]⟩ = .ok ["r"] := by cbv
  obtain ⟨hsorted, hmem, -, hsame⟩ := collected_files_are_reached isTree_tmpStore hlocate
  refine ⟨hsorted, (hmem _).mpr ⟨["lib", "a.rake"], rfl, ?_, ?_, ?_, ?_⟩,
    hsame _ _ _ isTree_movedStore hlocate' alikeBelow_sample⟩
  · exact .step rfl (.entry rfl)
  · cbv
  · exact Or.inr ⟨"a", by decide, ".rake", by decide, rfl⟩
  · decide

end FileStore

end PeriodLint
