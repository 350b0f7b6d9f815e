import PeriodLint.Proofs.Settings.Loading

/-!
# The nearest configuration

Loading goes up from a directory until one holds a configuration file, and takes
the tool's own file there before the shared one. The entries further up and the
contents of all other files have no part in it. Of the file that is taken only
the table of settings matters, in whichever of the two files it is written.
-/

namespace PeriodLint

/-- The first number with a value decides the search through the numbers below a bound. -/
theorem findSome?_range_eq_some_iff {α : Type} {f : Nat → Option α} {n : Nat} {a : α} :
    (List.range n).findSome? f = some a ↔ ∃ k < n, f k = some a ∧ ∀ j < k, f j = none := by
  induction n with
  | zero => simp
  | succ n ih =>
      have hnone : (List.range n).findSome? f = none ↔ ∀ j < n, f j = none := by
        simp [List.findSome?_eq_none_iff]
      rw [List.range_succ, List.findSome?_append, Option.or_eq_some_iff, ih, hnone,
        List.findSome?_singleton]
      constructor
      · rintro (⟨k, hk, hfound⟩ | ⟨hbelow, hn⟩)
        · exact ⟨k, Nat.lt_succ_of_lt hk, hfound⟩
        · exact ⟨n, Nat.lt_succ_self n, hn, hbelow⟩
      · rintro ⟨k, hk, hfound, hbelow⟩
        rcases Nat.lt_succ_iff_lt_or_eq.mp hk with hk | rfl
        · exact Or.inl ⟨k, hk, hfound, hbelow⟩
        · exact Or.inr ⟨hbelow, hfound⟩

/-! ## Going up -/

namespace Path

/-- The directory so many steps above another, as the path is spelled. -/
def up (start : Path) (k : Nat) : Path := { start with parts := start.parts.rdrop k }

theorem up_zero (start : Path) : start.up 0 = start := by
  rw [up, List.rdrop_zero]

/-- A directory and those above it, the nearest first. -/
theorem self_cons_ancestors (start : Path) :
    start :: start.ancestors = (List.range (start.parts.length + 1)).map start.up := by
  rw [List.range_succ_eq_map, List.map_cons, up_zero, List.map_map, ancestors,
    List.range_eq_range', List.reverse_range', List.map_map, ← List.range_eq_range']
  congr 1
  refine List.map_congr_left fun k _ => ?_
  have htake : 0 + start.parts.length - 1 - k = start.parts.length - (k + 1) := by omega
  simp only [Function.comp_apply, up, List.rdrop, htake]

end Path

namespace Config

/-! ## The file that is used -/

/-- A directory with a configuration file. -/
def IsConfigured (fs : FileStore) (directory : Path) : Prop :=
  ∃ path ∈ candidatesIn directory, fs.isFile path = true

/-- The configuration file of a directory: the tool's own if it is a file, or else the shared
one. -/
inductive FileOf (fs : FileStore) (directory : Path) : Path → Prop where
  | own (hown : fs.isFile (directory.child ownFile) = true) :
      FileOf fs directory (directory.child ownFile)
  | shared (hown : fs.isFile (directory.child ownFile) = false)
      (hshared : fs.isFile (directory.child sharedFile) = true) :
      FileOf fs directory (directory.child sharedFile)

/-- The configuration file that is so many steps above a directory, with none below it. -/
structure Governs (fs : FileStore) (start : Path) (k : Nat) (path : Path) : Prop where
  le_length : k ≤ start.parts.length
  fileOf : FileOf fs (start.up k) path
  nearest : ∀ j < k, ¬ IsConfigured fs (start.up j)

/-- Two stores have the same configuration files in a directory. -/
def SameFiles (fs fs' : FileStore) (directory : Path) : Prop :=
  ∀ path ∈ candidatesIn directory, fs'.isFile path = fs.isFile path

section Search

variable {fs fs' : FileStore} {start directory path path' : Path} {k k' : Nat}

theorem find?_candidatesIn_eq_none_iff :
    (candidatesIn directory).find? fs.isFile = none ↔ ¬ IsConfigured fs directory := by
  simp [IsConfigured]

theorem find?_candidatesIn_eq_some_iff :
    (candidatesIn directory).find? fs.isFile = some path ↔ FileOf fs directory path := by
  rw [candidatesIn, List.find?_cons, List.find?_singleton]
  constructor
  · intro h
    split at h
    · next hown =>
        obtain rfl := Option.some.inj h
        exact .own hown
    · next hown =>
        split at h
        · next hshared =>
            obtain rfl := Option.some.inj h
            exact .shared hown hshared
        · cases h
  · rintro (hown | ⟨hown, hshared⟩)
    · rw [hown]
    · simp only [hown, hshared, if_true]

theorem find?_eq_findSome? :
    find? fs start = (List.range (start.parts.length + 1)).findSome? fun k =>
      (candidatesIn (start.up k)).find? fs.isFile := by
  rw [find?, start.self_cons_ancestors, List.find?_flatMap, List.findSome?_map]
  rfl

theorem find?_eq_some_iff : find? fs start = some path ↔ ∃ k, Governs fs start k path := by
  rw [find?_eq_findSome?, findSome?_range_eq_some_iff]
  simp only [find?_candidatesIn_eq_some_iff, find?_candidatesIn_eq_none_iff]
  constructor
  · rintro ⟨k, hk, hfile, hnearest⟩
    exact ⟨k, Nat.le_of_lt_succ hk, hfile, hnearest⟩
  · rintro ⟨k, hk, hfile, hnearest⟩
    exact ⟨k, Nat.lt_succ_of_le hk, hfile, hnearest⟩

theorem find?_eq_none_iff :
    find? fs start = none ↔ ∀ k ≤ start.parts.length, ¬ IsConfigured fs (start.up k) := by
  rw [find?_eq_findSome?, List.findSome?_eq_none_iff]
  simp only [find?_candidatesIn_eq_none_iff, List.mem_range, Nat.lt_succ_iff]

theorem FileOf.isConfigured (h : FileOf fs directory path) : IsConfigured fs directory := by
  cases h with
  | own hown => exact ⟨_, by simp [candidatesIn], hown⟩
  | shared _ hshared => exact ⟨_, by simp [candidatesIn], hshared⟩

theorem Governs.unique (h : Governs fs start k path) (h' : Governs fs start k' path') :
    k = k' ∧ path = path' := by
  have hpath : path = path' :=
    Option.some.inj ((find?_eq_some_iff.mpr ⟨k, h⟩).symm.trans (find?_eq_some_iff.mpr ⟨k', h'⟩))
  have hle : ¬ k < k' := fun hlt => h'.nearest k hlt h.fileOf.isConfigured
  have hge : ¬ k' < k := fun hlt => h.nearest k' hlt h'.fileOf.isConfigured
  exact ⟨by omega, hpath⟩

/-- What the files hold makes no difference to where a configuration lies. -/
theorem sameFiles_of_shape_eq (h : fs'.shape = fs.shape) (directory : Path) :
    SameFiles fs fs' directory := by
  intro path _
  rw [← fs'.isFile_shape, h, fs.isFile_shape]

theorem SameFiles.isConfigured_iff (h : SameFiles fs fs' directory) :
    IsConfigured fs' directory ↔ IsConfigured fs directory :=
  exists_congr fun path => and_congr_right fun hpath => by rw [h path hpath]

theorem SameFiles.fileOf (h : SameFiles fs fs' directory) (hfile : FileOf fs directory path) :
    FileOf fs' directory path := by
  have hown := h (directory.child ownFile) (by simp [candidatesIn])
  have hshared := h (directory.child sharedFile) (by simp [candidatesIn])
  cases hfile with
  | own hfs => exact .own (hown.trans hfs)
  | shared hfs hfs' => exact .shared (hown.trans hfs) (hshared.trans hfs')

/-- Only the configuration files up to the one that is used have a part in the search. -/
theorem Governs.of_sameFiles (h : Governs fs start k path)
    (hsame : ∀ j ≤ k, SameFiles fs fs' (start.up j)) : Governs fs' start k path where
  le_length := h.le_length
  fileOf := (hsame k le_rfl).fileOf h.fileOf
  nearest j hj := by
    rw [(hsame j hj.le).isConfigured_iff]
    exact h.nearest j hj

theorem load_of_governs (h : Governs fs start k path) :
    load fs start = ofFile path (fs.read path) := by
  rw [load, find?_eq_some_iff.mpr ⟨k, h⟩]

theorem load_of_not_isConfigured
    (h : ∀ k ≤ start.parts.length, ¬ IsConfigured fs (start.up k)) :
    load fs start = ⟨.ok {}, [.noConfiguration start.toString]⟩ := by
  rw [load, find?_eq_none_iff.mpr h]
  rfl

end Search

/-! ## The settings of a file -/

/-- A file that holds settings, in a document of its own or in a table of a shared one. -/
def Sets (fs : FileStore) (path : Path) (settings : Table) : Prop :=
  ∃ bytes cs document, fs.read path = .ok bytes ∧ Utf8.decode bytes = .ok cs ∧
    Toml.parse cs = some document ∧ SettingsIn path document settings

section Sets

variable {fs : FileStore} {start path : Path} {k : Nat} {document settings : Table}

theorem ofDocument_of_settingsIn (h : SettingsIn path document settings) :
    ofDocument path document = ofTable settings := by
  cases h with
  | own hname => rw [ofDocument, if_neg (by simpa using hname)]
  | @shared tools _ hname htools hsettings =>
      have hshared : sharedSettings document = .ok (.table settings) :=
        sharedSettings_eq_ok_iff.mpr ⟨tools, htools, tableAt_eq_table_iff.mpr hsettings⟩
      rw [ofDocument, if_pos (beq_iff_eq.mpr hname), hshared]
      rfl

/-- Settings are used alike, whichever file holds them. -/
theorem load_of_sets (hgoverns : Governs fs start k path) (hsets : Sets fs path settings) :
    (load fs start).value = Failure.lift .setting (ofTable settings) := by
  obtain ⟨bytes, cs, document, hread, hdecode, hparse, hin⟩ := hsets
  rw [load_of_governs hgoverns, hread, ofFile_of_document hdecode hparse,
    ofDocument_of_settingsIn hin]

end Sets

/-- Loading uses the one configuration file that governs a directory, or none if no directory up to
the root has one. Stores in which that file reads the same, and which have the same configuration
files up to it, are loaded alike. Settings of the right type come to the configuration of their
table, whichever file holds them. -/
theorem nearest_configuration_is_used (fs : FileStore) (start : Path) :
    ((∀ k ≤ start.parts.length, ¬ IsConfigured fs (start.up k)) ∧
        load fs start = ⟨.ok {}, [.noConfiguration start.toString]⟩ ∨
      ∃ k path, Governs fs start k path ∧
        (∀ k' path', Governs fs start k' path' → k' = k ∧ path' = path) ∧
        load fs start = ofFile path (fs.read path)) ∧
    (∀ fs' k path, Governs fs start k path → fs'.read path = fs.read path →
      (∀ j ≤ k, SameFiles fs fs' (start.up j)) → load fs' start = load fs start) ∧
    ∀ fs' start' k k' path path' settings, AreTyped settings →
      Governs fs start k path → Sets fs path settings →
      Governs fs' start' k' path' → Sets fs' path' settings →
        ∃ c, ofTable settings = .ok c ∧ (load fs start).value = .ok c ∧
          (load fs' start').value = .ok c := by
  refine ⟨?_, ?_, ?_⟩
  · cases hfind : find? fs start with
    | none =>
        have hnone := find?_eq_none_iff.mp hfind
        exact Or.inl ⟨hnone, load_of_not_isConfigured hnone⟩
    | some path =>
        obtain ⟨k, hgoverns⟩ := find?_eq_some_iff.mp hfind
        exact Or.inr ⟨k, path, hgoverns, fun _ _ h => h.unique hgoverns, load_of_governs hgoverns⟩
  · intro fs' k path hgoverns hread hsame
    rw [load_of_governs hgoverns, load_of_governs (hgoverns.of_sameFiles hsame), hread]
  · intro fs' start' k k' path path' settings htyped hgoverns hsets hgoverns' hsets'
    obtain ⟨c, hc⟩ := exists_ofTable_iff.mpr htyped.areUsable
    have hlift : Failure.lift .setting (ofTable settings) = .ok c := by
      rw [hc]
      rfl
    exact ⟨c, hc, (load_of_sets hgoverns hsets).trans hlift,
      (load_of_sets hgoverns' hsets').trans hlift⟩

/-! ## A configuration above a directory of its name -/

/-- The text of a selection. -/
def selection : List Char := "select = [\"dtr001\"]\n".toList

/-- The text of the same selection in a shared file. -/
def sharedSelection : List Char := "[tool.allday]\nselect = [\"dtr001\"]\n".toList

/-- A configuration beside a shared one and above a directory of its name. -/
def nestedStore (shared : Bytes) : FileStore where
  entries :=
    [(["work"], .directory),
      (["work", sharedFile], .file shared),
      (["work", ownFile], .file (Utf8.encode selection)),
      (["work", "lib"], .directory),
      (["work", "lib", ownFile], .directory)]

/-- The directory below the configuration. -/
def nestedStart : Path := ⟨"/", ["work", "lib"]⟩

/-- The path of the configuration. -/
def nestedPath : Path := ⟨"/", ["work", ownFile]⟩

/-- The same selection in a shared file. -/
def sharedStore : FileStore := { entries := [([sharedFile], .file (Utf8.encode sharedSelection))] }

/-- The path of the shared file. -/
def sharedPath : Path := ⟨"/", [sharedFile]⟩

theorem nearest_configuration_is_used_nested :
    let fs := nestedStore []
    let settings : Table := [("select", .list [.str "dtr001"])]
    Governs fs nestedStart 1 nestedPath ∧ AreTyped settings ∧ Sets fs nestedPath settings ∧
      Governs sharedStore ⟨"/", []⟩ 0 sharedPath ∧ Sets sharedStore sharedPath settings ∧
      (nestedStore [0xFF]).read nestedPath = fs.read nestedPath ∧
      (∀ j ≤ 1, SameFiles fs (nestedStore [0xFF]) (nestedStart.up j)) ∧
      load (nestedStore [0xFF]) nestedStart = load fs nestedStart ∧
      ∃ c, ofTable settings = .ok c ∧ (load fs nestedStart).value = .ok c ∧
        (load sharedStore ⟨"/", []⟩).value = .ok c := by
  intro fs settings
  have hgoverns : Governs fs nestedStart 1 nestedPath := by
    refine ⟨by decide, .own (by cbv), fun j hj => ?_⟩
    obtain rfl := Nat.lt_one_iff.mp hj
    rintro ⟨path, hpath, hfile⟩
    simp only [candidatesIn, List.mem_cons, List.not_mem_nil, or_false] at hpath
    rcases hpath with rfl | rfl
    · exact Bool.eq_false_iff.mp (by cbv) hfile
    · exact Bool.eq_false_iff.mp (by cbv) hfile
  have htyped : AreTyped settings := by
    refine ⟨?_, ?_, ?_⟩
    · simp [settings, Setting.IsTextList]
    · simp [settings, List.lookup_cons]
    · simp [settings, List.lookup_cons]
  have hsets : Sets fs nestedPath settings :=
    ⟨_, selection, settings, by cbv, Utf8.decode_encode _, by cbv, .own (by decide)⟩
  have hgoverns' : Governs sharedStore ⟨"/", []⟩ 0 sharedPath :=
    ⟨Nat.zero_le _, .shared (by cbv) (by cbv), fun j hj => absurd hj (Nat.not_lt_zero j)⟩
  have hsets' : Sets sharedStore sharedPath settings :=
    ⟨_, sharedSelection, [("tool", .table [("allday", .table settings)])], by cbv,
      Utf8.decode_encode _, by cbv, .shared rfl (Or.inl rfl) (Or.inl rfl)⟩
  have hread : (nestedStore [0xFF]).read nestedPath = fs.read nestedPath := by cbv
  have hshape : (nestedStore [0xFF]).shape = fs.shape := rfl
  have hsame : ∀ j ≤ 1, SameFiles fs (nestedStore [0xFF]) (nestedStart.up j) :=
    fun j _ => sameFiles_of_shape_eq hshape (nestedStart.up j)
  obtain ⟨-, hload, hvalue⟩ := nearest_configuration_is_used fs nestedStart
  exact ⟨hgoverns, htyped, hsets, hgoverns', hsets', hread, hsame,
    hload _ 1 nestedPath hgoverns hread hsame,
    hvalue sharedStore ⟨"/", []⟩ 1 0 nestedPath sharedPath settings htyped hgoverns hsets
      hgoverns' hsets'⟩

end Config

end PeriodLint
