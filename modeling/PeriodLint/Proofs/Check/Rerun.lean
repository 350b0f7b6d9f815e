import PeriodLint.Check.Run
import PeriodLint.Proofs.Check.Mending
import PeriodLint.Proofs.Files.RealPlace

/-!
# Running again

A file that was mended is read back as the text that mending left, so a run over
the mended files finds what the first run reported. The files are found in the
same way, because mending keeps the shape of the store, and each file is touched
once, because no two of them lie at the same place.
-/

namespace PeriodLint

open Utf8 Text

/-- Two paths do not lead to one place. -/
def FileStore.Apart (fs : FileStore) (p q : Path) : Prop :=
  ∀ place, fs.locate p = .ok place → fs.locate q ≠ .ok place

namespace FileStore

variable {fs store : FileStore}

theorem locate_congr (h : store.shape = fs.shape) (p : Path) : store.locate p = fs.locate p := by
  rw [← locate_shape, h, locate_shape]

theorem Apart.congr {p q : Path} (hapart : fs.Apart p q) (h : store.shape = fs.shape) :
    store.Apart p q := by
  intro place hp
  rw [locate_congr h] at hp ⊢
  exact hapart place hp

theorem Apart.symm {p q : Path} (h : fs.Apart p q) : fs.Apart q p :=
  fun place hq hp => h place hp hq

theorem Apart.read_write {p q : Path} {old : Bytes} (h : fs.Apart p q) (hread : fs.read p = .ok old)
    (new : Bytes) : (fs.write p new).read q = fs.read q := by
  obtain ⟨place, hplace, -⟩ := exists_locate_of_read hread
  refine read_write_of_ne hread new ?_
  rw [hplace]
  exact h place hplace

/-- Paths with different real places do not lead to one place. -/
theorem apart_of_resolve_ne {p q : Path} (h : fs.resolve p ≠ fs.resolve q) : fs.Apart p q :=
  fun _ hp hq => h ((resolve_of_locate hp).trans (resolve_of_locate hq).symm)

theorem resolveFiles_congr (h : store.shape = fs.shape) (changed paths : List Path) :
    store.resolveFiles changed paths = fs.resolveFiles changed paths := by
  rw [← resolveFiles_shape, h, resolveFiles_shape]

theorem pairwise_apart_resolveFiles {changed paths files : List Path}
    (h : fs.resolveFiles changed paths = .ok files) : files.Pairwise fs.Apart :=
  (pairwise_resolve_resolveFiles h).imp apart_of_resolve_ne

end FileStore

namespace Check

section Texts

variable {parse : Parser} {rules : List Rule} {source final : String} {n : Nat}

theorem readText_encode (h : '\r' ∉ source.toList) :
    readText (encode source.toList) = .ok source := by
  rw [readText, decode_encode]
  simp [Failure.lift, unifyBreaks_eq_self h]

theorem not_mem_of_readText {bytes : Bytes} (h : readText bytes = .ok source) :
    '\r' ∉ source.toList := by
  cases hdecode : decode bytes with
  | error e =>
      rw [readText, hdecode] at h
      cases h
  | ok cs =>
      rw [readText, hdecode] at h
      obtain rfl := Except.ok.inj h
      rw [String.toList_ofList]
      exact not_mem_unifyBreaks cs

theorem Mended.not_mem (h : Mended parse rules n source final)
    (hrules : ∀ rule ∈ rules, rule.IsWholePeriod) (hsource : '\r' ∉ source.toList) :
    '\r' ∉ final.toList := by
  induction h with
  | refl => exact hsource
  | step hfixes _ _ ih =>
      obtain ⟨fixed, hfixed, rfl⟩ := hfixes
      exact ih (not_mem_applyFixes hrules hsource hfixed)

theorem exists_examine_true (hrules : ∀ rule ∈ rules, rule.IsWholePeriod) (parse : Parser)
    (source : String) :
    ∃ final ds, (examine parse rules true source).value = .ok (final, ds) := by
  obtain ⟨⟨final, ds⟩, hmend⟩ := exists_mend_eq_ok hrules parse maxPasses source
  exact ⟨final, ds, hmend⟩

/-- What examining a text with mending ends with, examining it again ends with at once. -/
theorem examine_again {ds : List Diagnostic} {again : Bool}
    (h : (examine parse rules true source).value = .ok (final, ds))
    (hpasses : again = true → ¬ Mended parse rules maxPasses source final) :
    (examine parse rules again final).value = .ok (final, ds) := by
  obtain ⟨rfl, n, -, hmended, hend⟩ := exists_mended_of_mend h
  cases again with
  | false => rfl
  | true =>
      rcases hend with rfl | hself
      · exact absurd hmended (hpasses rfl)
      · exact mend_of_fixes_self maxPasses hself

end Texts

/-! ## One file again -/

section File

variable {parse : Parser} {rules : List Rule} {fs store : FileStore} {path : Path}

/-- A mended text that was written back is read again. -/
theorem exists_read_writeBack {bytes : Bytes} {source final : String}
    (hread : fs.read path = .ok bytes) (htext : readText bytes = .ok source)
    (hfinal : '\r' ∉ final.toList) :
    ∃ left, (writeBack fs path source final).value.read path = .ok left ∧
      readText left = .ok final := by
  rw [writeBack]
  split
  · next hsame =>
      rw [hsame]
      exact ⟨bytes, hread, htext⟩
  · exact ⟨encode final.toList, FileStore.read_write_self hread _, readText_encode hfinal⟩

/-- A file that cannot be read as text fails every run alike. -/
theorem file_again_error {e : Failure} (hrules : ∀ rule ∈ rules, rule.IsWholePeriod)
    (h : (file parse rules true fs path).value = .error e) (hread : store.read path = fs.read path)
    (again : Bool) : (file parse rules again store path).value = .error e := by
  cases hbytes : fs.read path with
  | error err =>
      rw [file_of_read_error hbytes] at h
      cases h
  | ok bytes =>
      rw [hbytes] at hread
      cases htext : readText bytes with
      | error err =>
          rw [file_of_text_error hbytes htext] at h
          obtain rfl := Except.error.inj h
          exact file_of_text_error hread htext
      | ok source =>
          obtain ⟨final, ds, hexamine⟩ := exists_examine_true hrules parse source
          rw [file_of_examine hbytes htext hexamine] at h
          cases h

/-- A file that holds what a run with mending left is reported as that run did. -/
theorem file_again {one : FileOutcome} {again : Bool} (hrules : ∀ rule ∈ rules, rule.IsWholePeriod)
    (h : (file parse rules true fs path).value = .ok one)
    (hread : store.read path = one.store.read path)
    (hpasses : again = true → ¬ UsesAllPasses parse rules fs path) :
    (file parse rules again store path).value = .ok { one with store := store } := by
  cases hbytes : fs.read path with
  | error e =>
      rw [file_of_read_error hbytes] at h
      obtain rfl := Except.ok.inj h
      exact file_of_read_error (hread.trans hbytes)
  | ok bytes =>
      cases htext : readText bytes with
      | error e =>
          rw [file_of_text_error hbytes htext] at h
          cases h
      | ok source =>
          obtain ⟨final, ds, hexamine⟩ := exists_examine_true hrules parse source
          rw [file_of_examine hbytes htext hexamine] at h
          obtain rfl := Except.ok.inj h
          have hagain : (examine parse rules again final).value = .ok (final, ds) :=
            examine_again hexamine fun hfix hmended =>
              hpasses hfix ⟨bytes, source, final, hbytes, htext, hmended⟩
          obtain ⟨-, n, -, hmended, -⟩ := exists_mended_of_mend hexamine
          obtain ⟨left, hleft, htextLeft⟩ := exists_read_writeBack hbytes htext
            (hmended.not_mem hrules (not_mem_of_readText htext))
          rw [file_of_examine (hread.trans hleft) htextLeft hagain, writeBack, if_pos rfl]
          rfl

/-- A run over a file leaves the store or writes to the file. -/
theorem store_of_file {one : FileOutcome} {fix : Bool}
    (h : (file parse rules fix fs path).value = .ok one) :
    one.store = fs ∨ ∃ old new, fs.read path = .ok old ∧ one.store = fs.write path new := by
  cases hbytes : fs.read path with
  | error e =>
      rw [file_of_read_error hbytes] at h
      obtain rfl := Except.ok.inj h
      exact Or.inl rfl
  | ok bytes =>
      cases htext : readText bytes with
      | error e =>
          rw [file_of_text_error hbytes htext] at h
          cases h
      | ok source =>
          cases hexamine : (examine parse rules fix source).value with
          | error e =>
              rw [file_of_examine_error hbytes htext hexamine] at h
              cases h
          | ok outcome =>
              rw [file_of_examine hbytes htext hexamine] at h
              obtain rfl := Except.ok.inj h
              dsimp only
              rw [writeBack]
              split
              · exact Or.inl rfl
              · exact Or.inr ⟨bytes, _, rfl, rfl⟩

theorem shape_of_file {one : FileOutcome} {fix : Bool}
    (h : (file parse rules fix fs path).value = .ok one) : one.store.shape = fs.shape := by
  rcases store_of_file h with heq | ⟨old, new, hread, heq⟩
  · rw [heq]
  · rw [heq, FileStore.shape_write hread]

/-- A run over a file touches no file at another place. -/
theorem read_of_file {one : FileOutcome} {fix : Bool} {other : Path}
    (h : (file parse rules fix fs path).value = .ok one) (hapart : fs.Apart path other) :
    one.store.read other = fs.read other := by
  rcases store_of_file h with heq | ⟨old, new, hread, heq⟩
  · rw [heq]
  · rw [heq, hapart.read_write hread]

end File

/-! ## All files again -/

section Files

variable {parse : Parser} {rules : List Rule} {fix : Bool} {o : Outcome} {path : Path}
  {paths : List Path}

/-- What a run has come to after one more file. -/
def Outcome.add (o : Outcome) (one : FileOutcome) : Outcome :=
  { o with
    store := one.store
    lines := o.lines ++ one.lines
    errors := o.errors ++ one.error.toList }

theorem files_cons_error {e : Failure}
    (h : (file parse rules fix o.store path).value = .error e) (paths : List Path) :
    (files parse rules fix o (path :: paths)).value = { o with failure := some e } := by
  rw [files, Logged.value_bind, h]
  rfl

theorem files_cons_ok {one : FileOutcome}
    (h : (file parse rules fix o.store path).value = .ok one) (paths : List Path) :
    (files parse rules fix o (path :: paths)).value =
      (files parse rules fix (o.add one) paths).value := by
  rw [files, Logged.value_bind, h]
  rfl

/-- A run keeps the shape of the store. -/
theorem shape_files : (files parse rules fix o paths).value.store.shape = o.store.shape := by
  induction paths generalizing o with
  | nil => rfl
  | cons path paths ih =>
      cases hfile : (file parse rules fix o.store path).value with
      | error e => rw [files_cons_error hfile]
      | ok one =>
          rw [files_cons_ok hfile, ih]
          exact shape_of_file hfile

/-- A run touches no file at a place that none of its paths leads to. -/
theorem read_files {other : Path} (hapart : ∀ path ∈ paths, o.store.Apart path other) :
    (files parse rules fix o paths).value.store.read other = o.store.read other := by
  induction paths generalizing o with
  | nil => rfl
  | cons path paths ih =>
      obtain ⟨hpath, hpaths⟩ := List.forall_mem_cons.mp hapart
      cases hfile : (file parse rules fix o.store path).value with
      | error e => rw [files_cons_error hfile]
      | ok one =>
          rw [files_cons_ok hfile, ih fun p hp => (hpaths p hp).congr (shape_of_file hfile)]
          exact read_of_file hfile hpath

theorem usesAllPasses_congr {fs store : FileStore} (h : store.read path = fs.read path) :
    UsesAllPasses parse rules store path ↔ UsesAllPasses parse rules fs path := by
  rw [UsesAllPasses, UsesAllPasses, h]

/-- A run over the files that a run with mending left comes to the same outcome. -/
theorem files_again {again : Bool} (hrules : ∀ rule ∈ rules, rule.IsWholePeriod)
    (hapart : paths.Pairwise o.store.Apart)
    (hpasses : again = true → ∀ path ∈ paths, ¬ UsesAllPasses parse rules o.store path) :
    (files parse rules again
        { o with store := (files parse rules true o paths).value.store } paths).value =
      (files parse rules true o paths).value := by
  induction paths generalizing o with
  | nil => rfl
  | cons path paths ih =>
      obtain ⟨hpath, hpaths⟩ := List.pairwise_cons.mp hapart
      cases hfile : (file parse rules true o.store path).value with
      | error e =>
          rw [files_cons_error hfile]
          have hagain := file_again_error hrules hfile rfl again
          exact files_cons_error hagain paths
      | ok one =>
          have hshape := shape_of_file hfile
          have hread : (files parse rules true (o.add one) paths).value.store.read path =
              one.store.read path :=
            read_files fun p hp => (hpath p hp).symm.congr hshape
          have hfirst := file_again hrules hfile hread fun hfix =>
            hpasses hfix path List.mem_cons_self
          have hrest : again = true →
              ∀ p ∈ paths, ¬ UsesAllPasses parse rules one.store p := by
            intro hfix p hp
            rw [usesAllPasses_congr (read_of_file hfile (hpath p hp))]
            exact hpasses hfix p (List.mem_cons_of_mem path hp)
          rw [files_cons_ok hfile]
          exact (files_cons_ok (o := { o with store := _ }) hfirst paths).trans
            (ih (hpaths.imp fun hpq => hpq.congr hshape) hrest)

end Files

/-! ## A whole run again -/

/-- The files that a run finds, if every path has a real place. -/
def foundFiles (fs : FileStore) (request : CheckRequest) (changed : Logged (List Path)) :
    Except PathError (List Path) :=
  fs.resolveFiles (if request.diff then changed.value else []) request.paths

/-- The files that a run checks. These are none if a path has no real place. -/
def checkedFiles (fs : FileStore) (request : CheckRequest) (changed : Logged (List Path)) :
    List Path :=
  match foundFiles fs request changed with
  | .error _ => []
  | .ok paths => paths

section Run

variable {parse : Parser} {registry : List Rule} {fs store : FileStore} {request : CheckRequest}
  {changed : Logged (List Path)}

theorem checkedFiles_of_error {e : PathError} (h : foundFiles fs request changed = .error e) :
    checkedFiles fs request changed = [] := by
  rw [checkedFiles, h]

theorem checkedFiles_of_ok {paths : List Path} (h : foundFiles fs request changed = .ok paths) :
    checkedFiles fs request changed = paths := by
  rw [checkedFiles, h]

theorem pairwise_apart_checkedFiles (fs : FileStore) (request : CheckRequest)
    (changed : Logged (List Path)) : (checkedFiles fs request changed).Pairwise fs.Apart := by
  cases hfound : foundFiles fs request changed with
  | error e =>
      rw [checkedFiles_of_error hfound]
      exact List.Pairwise.nil
  | ok paths =>
      rw [checkedFiles_of_ok hfound]
      exact FileStore.pairwise_apart_resolveFiles hfound

/-- A run finds its files, loads the configuration and checks the files one after the other. -/
theorem value_run (parse : Parser) (registry : List Rule) (fs : FileStore) (request : CheckRequest)
    (changed : Logged (List Path)) :
    (run parse registry fs request changed).value =
      match foundFiles fs request changed with
      | .error e => { store := fs, failure := some (.path e) }
      | .ok paths =>
          match (Config.load fs fs.cwdPath).value with
          | .error e => { store := fs, failure := some e }
          | .ok config =>
              (files parse (config.activeRules registry).value request.fix { store := fs }
                paths).value := by
  have hothers : (if request.diff then changed else pure []).value =
      if request.diff then changed.value else [] := by
    split <;> rfl
  rw [run, Logged.value_bind, hothers, ← foundFiles]
  cases foundFiles fs request changed with
  | error e => rfl
  | ok paths =>
      simp only [Logged.value_bind]
      cases (Config.load fs fs.cwdPath).value with
      | error e => rfl
      | ok config => rfl

theorem run_of_found_error {e : PathError} (h : foundFiles fs request changed = .error e) :
    (run parse registry fs request changed).value =
      { store := fs, failure := some (.path e) } := by
  rw [value_run, h]

theorem run_of_load_error {paths : List Path} {e : Failure}
    (hfound : foundFiles fs request changed = .ok paths)
    (h : (Config.load fs fs.cwdPath).value = .error e) :
    (run parse registry fs request changed).value = { store := fs, failure := some e } := by
  rw [value_run, hfound, h]

theorem run_of_load {paths : List Path} {config : Config}
    (hfound : foundFiles fs request changed = .ok paths)
    (h : (Config.load fs fs.cwdPath).value = .ok config) :
    (run parse registry fs request changed).value =
      (files parse (config.activeRules registry).value request.fix { store := fs }
        paths).value := by
  rw [value_run, hfound, h]

theorem store_of_load_error {e : Failure} (h : (Config.load fs fs.cwdPath).value = .error e) :
    (run parse registry fs request changed).value.store = fs := by
  cases hfound : foundFiles fs request changed with
  | error e => rw [run_of_found_error hfound]
  | ok paths => rw [run_of_load_error hfound h]

/-- With a configuration a run prints and writes what the check of its files does, also if it has
found none. -/
theorem lines_store_of_load {config : Config} (h : (Config.load fs fs.cwdPath).value = .ok config) :
    let o := (run parse registry fs request changed).value
    let left := (files parse (config.activeRules registry).value request.fix { store := fs }
      (checkedFiles fs request changed)).value
    o.lines = left.lines ∧ o.store = left.store := by
  intro o left
  cases hfound : foundFiles fs request changed with
  | error e =>
      have ho : o = { store := fs, failure := some (.path e) } := run_of_found_error hfound
      have hleft : left = { store := fs } := by
        simp only [left, checkedFiles_of_error hfound]
        rfl
      rw [ho, hleft]
      exact ⟨rfl, rfl⟩
  | ok paths =>
      have ho : o = left := by
        simp only [o, left, checkedFiles_of_ok hfound]
        exact run_of_load hfound h
      rw [ho]
      exact ⟨rfl, rfl⟩

theorem isWholePeriod_of_mem_activeRules (config : Config) :
    ∀ rule ∈ (config.activeRules Rule.registry).value, rule.IsWholePeriod := by
  intro rule hrule
  rw [Config.activeRules, Logged.value_mapM] at hrule
  obtain ⟨known, hknown, rfl⟩ := List.mem_map.mp hrule
  obtain rfl := List.mem_singleton.mp (List.mem_filter.mp hknown).1
  rw [Config.configureRule]
  split
  · exact ⟨_, rfl⟩
  · exact ⟨_, rfl⟩

/-- The configuration is found and read alike in stores of one shape that agree on its file. -/
theorem load_congr (hshape : store.shape = fs.shape)
    (hread : ∀ path, Config.find? fs fs.cwdPath = some path → store.read path = fs.read path) :
    Config.load store store.cwdPath = Config.load fs fs.cwdPath := by
  have hcwd : store.cwdPath = fs.cwdPath := by
    have hshape := congrArg FileStore.cwd hshape
    exact congrArg (Path.mk "/") hshape
  have hfind : Config.find? store fs.cwdPath = Config.find? fs fs.cwdPath := by
    rw [← FileStore.configFind?_shape, hshape, FileStore.configFind?_shape]
  rw [hcwd, Config.load, Config.load, hfind]
  cases hpath : Config.find? fs fs.cwdPath with
  | none => rfl
  | some path => simp only [hread path hpath]

theorem foundFiles_congr {again : Logged (List Path)} (hshape : store.shape = fs.shape)
    (hchanged : request.diff = true → again.value = changed.value) :
    foundFiles store request again = foundFiles fs request changed := by
  have hothers : (if request.diff then again.value else []) =
      if request.diff then changed.value else [] := by
    split
    · next hdiff => exact hchanged hdiff
    · rfl
  rw [foundFiles, foundFiles, hothers, FileStore.resolveFiles_congr hshape]

/-- A run over the store that a run with mending left comes to the same outcome, with mending only
if no file used up all passes before. -/
theorem run_again {changedAgain : Logged (List Path)} {again : Bool}
    (hchanged : request.diff = true → changedAgain.value = changed.value)
    (hconfig : ∀ path, Config.find? fs fs.cwdPath = some path →
      ∀ p ∈ checkedFiles fs request changed, fs.Apart p path)
    (hpasses : again = true → ∀ config, (Config.load fs fs.cwdPath).value = .ok config →
      ∀ p ∈ checkedFiles fs request changed,
        ¬ UsesAllPasses parse (config.activeRules Rule.registry).value fs p) :
    let first := (run parse Rule.registry fs { request with fix := true } changed).value
    (run parse Rule.registry first.store { request with fix := again } changedAgain).value =
      first := by
  intro first
  have hfoundAgain (hshape : first.store.shape = fs.shape) :
      foundFiles first.store { request with fix := again } changedAgain =
        foundFiles fs request changed :=
    foundFiles_congr hshape hchanged
  cases hfound : foundFiles fs request changed with
  | error e =>
      have hfirst : first = { store := fs, failure := some (.path e) } :=
        run_of_found_error hfound
      rw [hfirst] at hfoundAgain ⊢
      exact run_of_found_error ((hfoundAgain rfl).trans hfound)
  | ok paths =>
      rw [checkedFiles_of_ok hfound] at hconfig hpasses
      cases hload : (Config.load fs fs.cwdPath).value with
      | error e =>
          have hfirst : first = { store := fs, failure := some e } :=
            run_of_load_error hfound hload
          rw [hfirst] at hfoundAgain ⊢
          exact run_of_load_error ((hfoundAgain rfl).trans hfound) hload
      | ok config =>
          let rules := (config.activeRules Rule.registry).value
          have hfirst : first = (files parse rules true { store := fs } paths).value :=
            run_of_load hfound hload
          have hshape : first.store.shape = fs.shape := by
            rw [hfirst]
            exact shape_files
          have hread : ∀ path, Config.find? fs fs.cwdPath = some path →
              first.store.read path = fs.read path := by
            intro path hpath
            rw [hfirst]
            exact read_files (hconfig path hpath)
          have hloadAgain : (Config.load first.store first.store.cwdPath).value = .ok config := by
            rw [load_congr hshape hread, hload]
          have hagain : (run parse Rule.registry first.store { request with fix := again }
              changedAgain).value =
                (files parse rules again { store := first.store } paths).value :=
            run_of_load ((hfoundAgain hshape).trans hfound) hloadAgain
          rw [hagain, hfirst]
          exact files_again (isWholePeriod_of_mem_activeRules config)
            (FileStore.pairwise_apart_resolveFiles hfound) fun hfix => hpasses hfix config hload

end Run

/-- What mending reports belongs to what it leaves. The diagnostics at its end are those of the text
at its end, which all passes have changed or which a further pass would not change. So, unless the
configuration is itself checked, a plain run after a run with mending reports the same with the same
exit status, and a second run with mending changes no file if none has used up all passes. -/
theorem reports_what_mending_leaves (parse : Parser) :
    (∀ rules source final ds, (examine parse rules true source).value = .ok (final, ds) →
      ds = (analyze parse rules final).value ∧
        ∃ n ≤ maxPasses, Mended parse rules n source final ∧
          (n = maxPasses ∨ Fixes parse rules final final)) ∧
    ∀ (fs : FileStore) (request : CheckRequest) (changed changedAgain : Logged (List Path)),
      (request.diff = true → changedAgain.value = changed.value) →
      (∀ path, Config.find? fs fs.cwdPath = some path →
        ∀ p ∈ checkedFiles fs request changed, fs.Apart p path) →
      let first := (run parse Rule.registry fs { request with fix := true } changed).value
      let plain :=
        (run parse Rule.registry first.store { request with fix := false } changedAgain).value
      let second :=
        (run parse Rule.registry first.store { request with fix := true } changedAgain).value
      (plain.lines = first.lines ∧ plain.errors = first.errors ∧ plain.failure = first.failure ∧
        plain.exitCode = first.exitCode ∧ plain.store = first.store) ∧
      ((∀ config, (Config.load fs fs.cwdPath).value = .ok config →
        ∀ p ∈ checkedFiles fs request changed,
          ¬ UsesAllPasses parse (config.activeRules Rule.registry).value fs p) →
        second.store = first.store) := by
  constructor
  · intro rules source final ds h
    exact exists_mended_of_mend h
  · intro fs request changed changedAgain hchanged hconfig first plain second
    have hplain : plain = first := run_again hchanged hconfig nofun
    rw [hplain]
    refine ⟨⟨rfl, rfl, rfl, rfl, rfl⟩, fun hpasses => ?_⟩
    have hsecond : second = first := run_again hchanged hconfig fun _ => hpasses
    rw [hsecond]

/-! ## A directory with one program -/

theorem analyze_parseNested_eq_nil {rules : List Rule} {source : String}
    (hrules : ∀ rule ∈ rules, rule.IsWholePeriod) (hne : source ≠ Nested.source) :
    (analyze parseNested rules source).value = [] := by
  refine analyze_eq_nil_of_no_ranges hrules ?_
  rw [parseNested, if_neg hne, Node.ofKind_eq]
  rfl

/-- Only one text is changed by a pass, so no file uses up all passes. -/
theorem not_usesAllPasses_parseNested {rules : List Rule}
    (hrules : ∀ rule ∈ rules, rule.IsWholePeriod) (fs : FileStore) (path : Path) :
    ¬ UsesAllPasses parseNested rules fs path := by
  have hsource : ∀ {source updated}, Fixes parseNested rules source updated → updated ≠ source →
      source = Nested.source := by
    intro source updated hfixes hchanged
    by_contra hne
    have hself := fixes_self_of_eq_nil (analyze_parseNested_eq_nil hrules hne)
    exact hchanged (hfixes.unique hself)
  rintro ⟨bytes, source, final, -, -, hmended⟩
  cases hmended with
  | step hfixes hchanged hrest =>
      cases hrest with
      | step hfixes' hchanged' =>
          exact hchanged ((hsource hfixes' hchanged').trans (hsource hfixes hchanged).symm)

/-- A directory with a configuration and one program. -/
def nestedStore : FileStore where
  entries := [
    ([Config.ownFile], .file []),
    (["a.rb"], .file (encode Nested.source.toList))]

/-- The path of the program. -/
def nestedPath : Path := ⟨"", ["a.rb"]⟩

theorem locate_nestedPath : nestedStore.locate nestedPath = .ok ["a.rb"] := by
  simp [FileStore.locate, FileStore.follow, FileStore.entryAt?, FileStore.base, nestedStore,
    nestedPath, Config.ownFile, Path.isAbsolute, List.lookup_cons]

theorem locate_nestedConfig :
    nestedStore.locate ⟨"/", [Config.ownFile]⟩ = .ok [Config.ownFile] := by
  have hname : Config.ownFile ≠ ".." := by decide
  simp [FileStore.locate, FileStore.follow, FileStore.entryAt?, FileStore.base, nestedStore,
    Path.isAbsolute, hname]

theorem configFind?_nestedStore :
    Config.find? nestedStore nestedStore.cwdPath = some ⟨"/", [Config.ownFile]⟩ :=
  FileStore.configFind?_of_own_at rfl rfl

theorem checkedFiles_nestedStore (changed : Logged (List Path)) :
    checkedFiles nestedStore { paths := [nestedPath] } changed = [nestedPath] := by
  have hfile : nestedStore.isDirectory nestedPath = false := by
    rw [FileStore.isDirectory, FileStore.find?, locate_nestedPath]
    rfl
  exact checkedFiles_of_ok
    (FileStore.resolveFiles_singleton hfile (FileStore.resolve_of_locate locate_nestedPath))

theorem reports_what_mending_leaves_nestedStore :
    let request : CheckRequest := { paths := [nestedPath] }
    let first := (run parseNested Rule.registry nestedStore { request with fix := true }
      (pure [])).value
    let plain := (run parseNested Rule.registry first.store { request with fix := false }
      (pure [])).value
    let second := (run parseNested Rule.registry first.store { request with fix := true }
      (pure [])).value
    (∃ final ds, (examine parseNested Rule.registry true Nested.source).value = .ok (final, ds) ∧
      ds = (analyze parseNested Rule.registry final).value) ∧
    (plain.lines = first.lines ∧ plain.exitCode = first.exitCode) ∧ second.store = first.store := by
  intro request first plain second
  have hrules : ∀ rule ∈ Rule.registry, rule.IsWholePeriod :=
    List.forall_mem_singleton.mpr ⟨.warning, rfl⟩
  obtain ⟨final, ds, hexamine⟩ := exists_examine_true hrules parseNested Nested.source
  have hconfig : ∀ path, Config.find? nestedStore nestedStore.cwdPath = some path →
      ∀ p ∈ checkedFiles nestedStore request (pure []), nestedStore.Apart p path := by
    intro path hpath p hp
    rw [configFind?_nestedStore] at hpath
    rw [checkedFiles_nestedStore] at hp
    obtain rfl := Option.some.inj hpath
    obtain rfl := List.mem_singleton.mp hp
    intro place hplace
    rw [locate_nestedPath] at hplace
    obtain rfl := Except.ok.inj hplace
    rw [locate_nestedConfig]
    decide
  obtain ⟨htexts, hruns⟩ := reports_what_mending_leaves parseNested
  obtain ⟨⟨hlines, -, -, hexit, -⟩, hsecond⟩ :=
    hruns nestedStore request (pure []) (pure []) nofun hconfig
  obtain ⟨hds, -⟩ := htexts Rule.registry Nested.source final ds hexamine
  refine ⟨⟨final, ds, hexamine, hds⟩, ⟨hlines, hexit⟩, hsecond fun config _ p _ => ?_⟩
  exact not_usesAllPasses_parseNested (isWholePeriod_of_mem_activeRules config) nestedStore p

end Check

end PeriodLint
