import PeriodLint.Files.Collect
import PeriodLint.Settings.Load

/-!
# The shape of a file store

Where a path leads, and which files it stands for, depends on what lies where
and not on what the files hold. Writing to a file that can be read keeps the
shape of the store and changes what this file holds and no other.
-/

namespace PeriodLint

/-- An entry without what it holds. -/
def Entry.shape : Entry → Entry
  | .file _ => .file []
  | .directory => .directory
  | .link target => .link target

/-- Entries of one shape are equal or files. -/
theorem Entry.eq_or_files_of_shape_eq {a b : Option Entry}
    (h : a.map Entry.shape = b.map Entry.shape) :
    a = b ∨ ∃ x y, a = some (.file x) ∧ b = some (.file y) := by
  rcases a with _ | a
  · exact Or.inl (Option.map_eq_none_iff.mp h.symm).symm
  · obtain ⟨b, rfl, hshape⟩ := Option.map_eq_some_iff.mp h.symm
    cases a with
    | file x => cases b <;> simp_all [Entry.shape]
    | directory => cases b <;> simp_all [Entry.shape]
    | link target => cases b <;> simp_all [Entry.shape]

namespace FileStore

/-- The store with every file emptied. -/
def shape (fs : FileStore) : FileStore :=
  { fs with entries := fs.entries.map fun (place, e) => (place, e.shape) }

section Shape

variable (fs : FileStore)

theorem entryAt?_shape (place : Place) :
    fs.shape.entryAt? place = (fs.entryAt? place).map Entry.shape := by
  rw [entryAt?, entryAt?]
  split
  · rfl
  · rw [shape]
    induction fs.entries with
    | nil => rfl
    | cons entry entries ih =>
        rw [List.map_cons, List.lookup_cons, List.lookup_cons, ih]
        split <;> rfl

theorem follow_shape (links : Nat) (here : Place) (parts : List String) :
    fs.shape.follow links here parts = fs.follow links here parts := by
  fun_induction follow fs links here parts with
  | case1 => rw [follow]
  | case2 links here rest hhere ih =>
      rw [follow, entryAt?_shape, hhere]
      simpa [Entry.shape] using ih
  | case3 links here part rest hhere hpart hnone =>
      rw [follow, entryAt?_shape, hhere]
      simp [Entry.shape, hpart, entryAt?_shape, hnone]
  | case4 here part rest hhere hpart target hlink =>
      rw [follow, entryAt?_shape, hhere]
      simp [Entry.shape, hpart, entryAt?_shape, hlink]
  | case5 here part rest hhere hpart target hlink links ih =>
      rw [follow, entryAt?_shape, hhere]
      simpa [Entry.shape, hpart, entryAt?_shape, hlink] using ih
  | case6 links here part rest hhere hpart e hnolink hentry ih =>
      rw [follow, entryAt?_shape, hhere]
      cases e with
      | file bytes => simpa [Entry.shape, hpart, entryAt?_shape, hentry] using ih
      | directory => simpa [Entry.shape, hpart, entryAt?_shape, hentry] using ih
      | link target => exact absurd rfl (hnolink target)
  | case7 links here part rest hnodir =>
      rw [follow, entryAt?_shape]
      cases hhere : fs.entryAt? here with
      | none => simp
      | some e =>
          cases e with
          | directory => exact absurd hhere hnodir
          | file bytes => simp [Entry.shape]
          | link target => simp [Entry.shape]

theorem settle_shape (active : List Place) (here : Place) (parts : List String) :
    fs.shape.settle active here parts = fs.settle active here parts := by
  fun_induction settle fs active here parts with
  | case1 => rw [settle_nil]
  | case2 active here rest ih => rw [settle_up, ih]
  | case3 active here part rest hpart target hlink hmem =>
      rw [settle_cons hpart, entryAt?_shape, hlink]
      simp [Entry.shape, hmem]
  | case4 active here part rest hpart target hlink hmem place hplace ih ihrest =>
      rw [settle_cons hpart, entryAt?_shape, hlink]
      simp [Entry.shape, hmem, ih, hplace, ihrest]
  | case5 active here part rest hpart target hlink hmem e herror ih =>
      rw [settle_cons hpart, entryAt?_shape, hlink]
      simp [Entry.shape, hmem, ih, herror]
  | case6 active here part rest hpart e hnolink hentry ih =>
      rw [settle_cons hpart, entryAt?_shape, hentry]
      cases e with
      | file bytes => simpa [Entry.shape] using ih
      | directory => simpa [Entry.shape] using ih
      | link target => exact absurd rfl (hnolink target)
  | case7 active here part rest hpart hnone hnull =>
      rw [settle_cons hpart, entryAt?_shape, hnone]
      simp [hnull]
  | case8 active here part rest hpart hnone hnull ih =>
      rw [settle_cons hpart, entryAt?_shape, hnone]
      simpa [hnull] using ih

theorem locate_shape (p : Path) : fs.shape.locate p = fs.locate p := follow_shape ..

theorem resolve_shape (p : Path) : fs.shape.resolve p = fs.resolve p := by
  have hbase : fs.shape.base p = fs.base p := rfl
  rw [resolve, resolve, settle_shape, hbase]
  simp only [placeAsSpelled, follow_shape]

theorem find?_shape (p : Path) : fs.shape.find? p = (fs.find? p).map Entry.shape := by
  rw [find?, find?, locate_shape]
  cases fs.locate p with
  | ok place => exact fs.entryAt?_shape place
  | error e => rfl

theorem isFile_shape (p : Path) : fs.shape.isFile p = fs.isFile p := by
  rw [isFile, isFile, find?_shape]
  cases fs.find? p with
  | none => rfl
  | some e => cases e <;> rfl

theorem isDirectory_shape (p : Path) : fs.shape.isDirectory p = fs.isDirectory p := by
  rw [isDirectory, isDirectory, find?_shape]
  cases fs.find? p with
  | none => rfl
  | some e => cases e <;> rfl

theorem below_shape (place : Place) : fs.shape.below place = fs.below place := by
  rw [below, below, shape, List.map_map]
  rfl

theorem collect_shape (root : Path) : fs.shape.collect root = fs.collect root := by
  have hcollected : fs.shape.isCollected root = fs.isCollected root := by
    funext parts
    rw [isCollected, isCollected, isFile_shape]
  rw [collect, collect, locate_shape, hcollected]
  simp only [below_shape]

theorem expand_shape (p : Path) : fs.shape.expand p = fs.expand p := by
  rw [expand, expand, isDirectory_shape, collect_shape]

/-- The files that paths stand for depend on the shape alone. -/
theorem resolveFiles_shape (changed paths : List Path) :
    fs.shape.resolveFiles changed paths = fs.resolveFiles changed paths := by
  have hplace : fs.shape.withPlace = fs.withPlace := by
    funext p
    rw [withPlace, withPlace, resolve_shape]
  rw [resolveFiles, resolveFiles, candidates, candidates, funext fs.expand_shape, hplace]

theorem configFind?_shape (start : Path) : Config.find? fs.shape start = Config.find? fs start := by
  rw [Config.find?, Config.find?, funext fs.isFile_shape]

end Shape

/-! ## Writing to a file -/

theorem lookup_putEntry (place other : Place) (e : Entry) (entries : List (Place × Entry)) :
    (putEntry place e entries).lookup other =
      if other = place then some e else entries.lookup other := by
  induction entries with
  | nil =>
      by_cases h : other = place
      · simp [putEntry, h]
      · simp [putEntry, List.lookup_cons, h, beq_eq_false_iff_ne.mpr h]
  | cons entry entries ih =>
      obtain ⟨here, old⟩ := entry
      rw [putEntry]
      by_cases hhere : place = here
      · subst hhere
        by_cases h : other = place
        · simp [h]
        · simp [List.lookup_cons, h, beq_eq_false_iff_ne.mpr h]
      · rw [if_neg (by simpa using hhere), List.lookup_cons, List.lookup_cons, ih]
        by_cases h : other = here
        · subst h
          simp [Ne.symm hhere]
        · simp [beq_eq_false_iff_ne.mpr h]

theorem map_shape_putEntry {place : Place} {old new : Bytes} {entries : List (Place × Entry)}
    (h : entries.lookup place = some (.file old)) :
    (putEntry place (.file new) entries).map (fun (place, e) => (place, e.shape)) =
      entries.map fun (place, e) => (place, e.shape) := by
  induction entries with
  | nil => cases h
  | cons entry entries ih =>
      obtain ⟨here, e⟩ := entry
      rw [putEntry]
      by_cases hhere : place = here
      · subst hhere
        rw [List.lookup_cons, beq_self_eq_true] at h
        obtain rfl := Option.some.inj h
        simp [Entry.shape]
      · rw [List.lookup_cons, beq_eq_false_iff_ne.mpr hhere] at h
        rw [if_neg (by simpa using hhere), List.map_cons, List.map_cons, ih h]

section Write

variable {fs : FileStore} {p q : Path} {old new : Bytes}

theorem read_of_locate {place : Place} (h : fs.locate p = .ok place) :
    fs.read p = match fs.entryAt? place with
      | some (.file bytes) => .ok bytes
      | _ => .error .isDirectory := by
  rw [read, h]
  rfl

theorem read_of_locate_error {e : FileError} (h : fs.locate p = .error e) :
    fs.read p = .error e := by
  rw [read, h]
  rfl

theorem read_eq_of_locate_eq (h : fs.locate p = fs.locate q) : fs.read p = fs.read q := by
  rw [read, read, h]

theorem exists_locate_of_read (h : fs.read p = .ok old) :
    ∃ place, fs.locate p = .ok place ∧ fs.entryAt? place = some (.file old) := by
  cases hlocate : fs.locate p with
  | error e =>
      rw [read_of_locate_error hlocate] at h
      cases h
  | ok place =>
      rw [read_of_locate hlocate] at h
      split at h
      · next bytes hentry => exact ⟨place, rfl, Except.ok.inj h ▸ hentry⟩
      · cases h

theorem lookup_of_entryAt? {place : Place} (h : fs.entryAt? place = some (.file old)) :
    place ≠ [] ∧ fs.entries.lookup place = some (.file old) := by
  rw [entryAt?] at h
  split at h
  · cases h
  · next hne => exact ⟨by simpa using hne, h⟩

theorem entryAt?_put {place : Place} (other : Place) (e : Entry) (hplace : place ≠ []) :
    (fs.put place e).entryAt? other = if other = place then some e else fs.entryAt? other := by
  rw [entryAt?, entryAt?, put, lookup_putEntry]
  cases other with
  | nil => simp [hplace.symm]
  | cons => rfl

theorem write_eq_put {place : Place} (h : fs.locate p = .ok place) (new : Bytes) :
    fs.write p new = fs.put place (.file new) := by
  rw [write, h]

theorem shape_write (h : fs.read p = .ok old) (new : Bytes) :
    (fs.write p new).shape = fs.shape := by
  obtain ⟨place, hlocate, hentry⟩ := exists_locate_of_read h
  rw [write_eq_put hlocate, shape, shape]
  simp only [put, map_shape_putEntry (lookup_of_entryAt? hentry).2]

theorem locate_write (h : fs.read p = .ok old) (new : Bytes) (q : Path) :
    (fs.write p new).locate q = fs.locate q := by
  rw [← locate_shape, shape_write h, locate_shape]

theorem read_write_self (h : fs.read p = .ok old) (new : Bytes) :
    (fs.write p new).read p = .ok new := by
  obtain ⟨place, hlocate, hentry⟩ := exists_locate_of_read h
  have hplace := (lookup_of_entryAt? hentry).1
  rw [read_of_locate ((locate_write h new p).trans hlocate), write_eq_put hlocate,
    entryAt?_put place _ hplace, if_pos rfl]

/-- Writing to a file leaves what is read at other places. -/
theorem read_write_of_ne (h : fs.read p = .ok old) (new : Bytes) (hne : fs.locate q ≠ fs.locate p) :
    (fs.write p new).read q = fs.read q := by
  obtain ⟨place, hlocate, hentry⟩ := exists_locate_of_read h
  have hplace := (lookup_of_entryAt? hentry).1
  cases hq : fs.locate q with
  | error e =>
      rw [read_of_locate_error ((locate_write h new q).trans hq), read_of_locate_error hq]
  | ok other =>
      have hother : other ≠ place := by
        rintro rfl
        exact hne (hq.trans hlocate.symm)
      rw [read_of_locate ((locate_write h new q).trans hq), read_of_locate hq,
        write_eq_put hlocate, entryAt?_put other _ hplace, if_neg hother]

/-- In stores of one shape a path is read differently exactly if its place has changed. -/
theorem read_ne_iff {store : FileStore} (h : store.shape = fs.shape) :
    store.read p ≠ fs.read p ↔
      ∃ place, fs.locate p = .ok place ∧ store.entryAt? place ≠ fs.entryAt? place := by
  have hlocate : store.locate p = fs.locate p := by rw [← locate_shape, h, locate_shape]
  cases hplace : fs.locate p with
  | error e =>
      rw [hplace] at hlocate
      simp [read_of_locate_error hlocate, read_of_locate_error hplace]
  | ok place =>
      rw [hplace] at hlocate
      have hentry :
          (store.entryAt? place).map Entry.shape = (fs.entryAt? place).map Entry.shape := by
        rw [← entryAt?_shape, h, entryAt?_shape]
      rw [read_of_locate hlocate, read_of_locate hplace]
      rcases Entry.eq_or_files_of_shape_eq hentry with heq | ⟨new, old, hnew, hold⟩
      · simp [heq]
      · simp [hnew, hold]

end Write

/-! ## Names in the root -/

section Names

variable {fs : FileStore} {name : String}

theorem base_eq_nil (hcwd : fs.cwd = []) (p : Path) : fs.base p = [] := by
  rw [base]
  split
  · rfl
  · exact hcwd

theorem locate_of_file_at (hcwd : fs.cwd = []) (hname : name ≠ "..") {bytes : Bytes}
    (h : fs.entryAt? [name] = some (.file bytes)) (root : String) :
    fs.locate ⟨root, [name]⟩ = .ok [name] := by
  have hroot : fs.entryAt? [] = some .directory := rfl
  rw [locate, base_eq_nil hcwd, follow, hroot]
  simp only [if_neg hname, List.nil_append, h]
  rw [follow]

theorem read_of_file_at (hcwd : fs.cwd = []) (hname : name ≠ "..") {bytes : Bytes}
    (h : fs.entryAt? [name] = some (.file bytes)) (root : String) :
    fs.read ⟨root, [name]⟩ = .ok bytes := by
  rw [read_of_locate (locate_of_file_at hcwd hname h root), h]

theorem locate_of_nothing_at (hcwd : fs.cwd = []) (hname : name ≠ "..")
    (h : fs.entryAt? [name] = none) (root : String) :
    fs.locate ⟨root, [name]⟩ = .error .notFound := by
  have hroot : fs.entryAt? [] = some .directory := rfl
  rw [locate, base_eq_nil hcwd, follow, hroot]
  simp only [if_neg hname, List.nil_append, h]

theorem isFile_of_nothing_at (hcwd : fs.cwd = []) (hname : name ≠ "..")
    (h : fs.entryAt? [name] = none) (root : String) : fs.isFile ⟨root, [name]⟩ = false := by
  rw [isFile, find?, locate_of_nothing_at hcwd hname h]

theorem isFile_of_file_at (hcwd : fs.cwd = []) (hname : name ≠ "..") {bytes : Bytes}
    (h : fs.entryAt? [name] = some (.file bytes)) (root : String) :
    fs.isFile ⟨root, [name]⟩ = true := by
  rw [isFile, find?, locate_of_file_at hcwd hname h]
  simp only [h]

/-- In the root only two files are looked at for a configuration. -/
theorem configFind?_eq (hcwd : fs.cwd = []) :
    Config.find? fs fs.cwdPath =
      [(⟨"/", [Config.ownFile]⟩ : Path), ⟨"/", [Config.sharedFile]⟩].find? fs.isFile := by
  rw [Config.find?, cwdPath, hcwd]
  rfl

theorem configFind?_of_own_at (hcwd : fs.cwd = []) {bytes : Bytes}
    (h : fs.entryAt? [Config.ownFile] = some (.file bytes)) :
    Config.find? fs fs.cwdPath = some ⟨"/", [Config.ownFile]⟩ := by
  rw [configFind?_eq hcwd]
  exact List.find?_cons_of_pos (isFile_of_file_at hcwd (by decide) h "/")

theorem configFind?_of_nothing_at (hcwd : fs.cwd = [])
    (hown : fs.entryAt? [Config.ownFile] = none)
    (hshared : fs.entryAt? [Config.sharedFile] = none) : Config.find? fs fs.cwdPath = none := by
  rw [configFind?_eq hcwd, List.find?_cons_of_neg, List.find?_cons_of_neg, List.find?_nil]
  · rw [isFile_of_nothing_at hcwd (by decide) hshared]
    exact Bool.false_ne_true
  · rw [isFile_of_nothing_at hcwd (by decide) hown]
    exact Bool.false_ne_true

/-- Where no configuration lies, nothing is configured. -/
theorem load_of_nothing_at (hcwd : fs.cwd = []) (hown : fs.entryAt? [Config.ownFile] = none)
    (hshared : fs.entryAt? [Config.sharedFile] = none) :
    (Config.load fs fs.cwdPath).value = .ok {} := by
  rw [Config.load, configFind?_of_nothing_at hcwd hown hshared]
  rfl

theorem load_of_own_at (hcwd : fs.cwd = []) {bytes : Bytes}
    (h : fs.entryAt? [Config.ownFile] = some (.file bytes)) :
    Config.load fs fs.cwdPath = Config.ofFile ⟨"/", [Config.ownFile]⟩ (.ok bytes) := by
  rw [Config.load, configFind?_of_own_at hcwd h]
  exact congrArg (Config.ofFile ⟨"/", [Config.ownFile]⟩) (read_of_file_at hcwd (by decide) h "/")

end Names

end FileStore

end PeriodLint
