import PeriodLint.Proofs.Check.Rerun

/-!
# Files that cannot be read

A file that cannot be opened is reported and passed over, and all other files
are checked as if it were not listed. A file that opens and is no text ends the
run instead, so that the files behind it are neither checked nor reported. A
path without a real place ends it before any file is checked.
-/

namespace PeriodLint

open Utf8 Text

namespace Check

/-- Why a file cannot be read as text, if it cannot. -/
def readError? (fs : FileStore) (p : Path) : Option String :=
  match fs.read p with
  | .error e => some (e.message p.toString)
  | .ok bytes =>
      match readText bytes with
      | .error e => some e.message
      | .ok _ => none

/-- Whether a file can be read as text. -/
def isReadable (fs : FileStore) (p : Path) : Bool := (readError? fs p).isNone

/-- A file opens, but its bytes are no text. -/
def IsGarbled (fs : FileStore) (p : Path) (e : Failure) : Prop :=
  ∃ bytes, fs.read p = .ok bytes ∧ readText bytes = .error e

section Reading

variable {fs store : FileStore} {p q : Path} {e : Failure}

theorem readError?_congr (h : store.read p = fs.read p) : readError? store p = readError? fs p := by
  rw [readError?, readError?, h]

theorem isReadable_congr (h : store.read p = fs.read p) : isReadable store p = isReadable fs p := by
  rw [isReadable, isReadable, readError?_congr h]

theorem filter_isReadable_congr {paths : List Path}
    (h : ∀ p ∈ paths, store.read p = fs.read p) :
    paths.filter (isReadable store) = paths.filter (isReadable fs) :=
  List.filter_congr fun p hp => isReadable_congr (h p hp)

theorem filterMap_readError?_congr {paths : List Path}
    (h : ∀ p ∈ paths, store.read p = fs.read p) :
    paths.filterMap (readError? store) = paths.filterMap (readError? fs) :=
  List.filterMap_congr fun p hp => readError?_congr (h p hp)

theorem isGarbled_congr (h : store.read p = fs.read p) :
    IsGarbled store p e ↔ IsGarbled fs p e := by
  rw [IsGarbled, IsGarbled, h]

theorem isReadable_iff :
    isReadable fs p = true ↔
      ∃ bytes source, fs.read p = .ok bytes ∧ readText bytes = .ok source := by
  rw [isReadable, readError?]
  cases fs.read p with
  | error e => simp
  | ok bytes => cases h : readText bytes <;> simp [h]

theorem IsGarbled.isReadable_eq_false (h : IsGarbled fs p e) : isReadable fs p = false := by
  obtain ⟨bytes, hread, htext⟩ := h
  rw [isReadable, readError?, hread]
  simp only [htext]
  rfl

theorem not_isGarbled_of_isReadable (h : isReadable fs p = true) : ¬ IsGarbled fs p e := by
  intro hgarbled
  rw [hgarbled.isReadable_eq_false] at h
  cases h

theorem not_isGarbled_of_read_error {err : FileError} (h : fs.read p = .error err) :
    ¬ IsGarbled fs p e := by
  rintro ⟨bytes, hread, -⟩
  rw [h] at hread
  cases hread

/-- A file can be read as text, cannot be opened, or is no text. -/
theorem readable_or_unopened_or_garbled (fs : FileStore) (p : Path) :
    isReadable fs p = true ∨ (∃ e, fs.read p = .error e) ∨ ∃ e, IsGarbled fs p e := by
  cases hread : fs.read p with
  | error e => exact Or.inr (Or.inl ⟨e, rfl⟩)
  | ok bytes =>
      cases htext : readText bytes with
      | error e => exact Or.inr (Or.inr ⟨e, bytes, hread, htext⟩)
      | ok source => exact Or.inl (isReadable_iff.mpr ⟨bytes, source, hread, htext⟩)

theorem isReadable_eq_false_of_read_error {err : FileError} (h : fs.read p = .error err) :
    isReadable fs p = false := by
  rw [isReadable, readError?, h]
  rfl

/-- Readable files and unreadable ones lie at different places. -/
theorem apart_of_isReadable (hp : isReadable fs p = true) (hq : isReadable fs q = false) :
    fs.Apart p q := by
  intro place hpplace hqplace
  obtain ⟨bytes, source, hread, htext⟩ := isReadable_iff.mp hp
  have hsame : fs.read q = fs.read p :=
    FileStore.read_eq_of_locate_eq (hqplace.trans hpplace.symm)
  rw [isReadable_iff.mpr ⟨bytes, source, hsame.trans hread, htext⟩] at hq
  cases hq

end Reading

/-! ## Going on after an unreadable file -/

section Files

variable {parse : Parser} {rules : List Rule} {fix : Bool} {fs : FileStore} {o : Outcome}
  {path : Path} {paths : List Path}

theorem exists_examine (hrules : ∀ rule ∈ rules, rule.IsWholePeriod) (parse : Parser) (fix : Bool)
    (source : String) : ∃ final ds, (examine parse rules fix source).value = .ok (final, ds) := by
  cases fix with
  | false => exact ⟨source, _, rfl⟩
  | true => exact exists_examine_true hrules parse source

theorem exists_file_of_isReadable (parse : Parser) (fix : Bool)
    (hrules : ∀ rule ∈ rules, rule.IsWholePeriod) (h : isReadable fs path = true) :
    ∃ one, (file parse rules fix fs path).value = .ok one ∧ one.error = none := by
  obtain ⟨bytes, source, hread, htext⟩ := isReadable_iff.mp h
  obtain ⟨final, ds, hexamine⟩ := exists_examine hrules parse fix source
  exact ⟨_, file_of_examine hread htext hexamine, rfl⟩

theorem file_of_isGarbled {e : Failure} (h : IsGarbled fs path e) :
    (file parse rules fix fs path).value = .error e := by
  obtain ⟨bytes, hread, htext⟩ := h
  exact file_of_text_error hread htext

/-- From a given outcome on, a run comes to what another comes to and to some errors more. -/
structure AddsErrors (o whole part : Outcome) (errors : List String) : Prop where
  failure_eq : whole.failure = o.failure
  errors_eq : whole.errors = o.errors ++ errors
  lines_eq : whole.lines = part.lines
  store_eq : whole.store = part.store

/-- What a file adds to the errors comes before what the files behind it add. -/
theorem AddsErrors.of_add {one : FileOutcome} {whole part : Outcome} {errors : List String}
    (h : AddsErrors (o.add one) whole part errors) :
    AddsErrors o whole part (one.error.toList ++ errors) where
  failure_eq := h.failure_eq
  errors_eq := h.errors_eq.trans (List.append_assoc _ _ _)
  lines_eq := h.lines_eq
  store_eq := h.store_eq

/-- Files that cannot be opened are reported and otherwise make no difference. -/
theorem files_skip (parse : Parser) (fix : Bool) (o part : Outcome)
    (hrules : ∀ rule ∈ rules, rule.IsWholePeriod) (hapart : paths.Pairwise o.store.Apart)
    (htext : ∀ p ∈ paths, ∀ e, ¬ IsGarbled o.store p e)
    (hstore : part.store = o.store) (hlines : part.lines = o.lines) :
    AddsErrors o (files parse rules fix o paths).value
      (files parse rules fix part (paths.filter (isReadable o.store))).value
      (paths.filterMap (readError? o.store)) := by
  induction paths generalizing o part with
  | nil => exact ⟨rfl, (List.append_nil _).symm, hlines.symm, hstore.symm⟩
  | cons path paths ih =>
      obtain ⟨hpath, hpaths⟩ := List.pairwise_cons.mp hapart
      obtain ⟨hpathText, hpathsText⟩ := List.forall_mem_cons.mp htext
      rcases readable_or_unopened_or_garbled o.store path with
        hreadable | ⟨e, hread⟩ | ⟨e, hgarbled⟩
      · -- Both runs check the file and go on from stores of one shape.
        obtain ⟨one, hone, herror⟩ :=
          exists_file_of_isReadable parse fix hrules hreadable
        have hsame : ∀ p ∈ paths, one.store.read p = o.store.read p :=
          fun p hp => read_of_file hone (hpath p hp)
        have hrest := ih (o.add one) (part.add one)
          (hpaths.imp fun hpq => hpq.congr (shape_of_file hone))
          (fun p hp e => mt (isGarbled_congr (hsame p hp)).mp (hpathsText p hp e)) rfl
          (congrArg (· ++ one.lines) hlines)
        have hpart : (file parse rules fix part.store path).value = .ok one := by
          rw [hstore]
          exact hone
        have hnone : readError? o.store path = none := Option.isNone_iff_eq_none.mp hreadable
        rw [List.filter_cons_of_pos hreadable, files_cons_ok hone, files_cons_ok hpart,
          List.filterMap_cons_none hnone, ← filter_isReadable_congr hsame,
          ← filterMap_readError?_congr hsame]
        have hadds := hrest.of_add
        rwa [herror] at hadds
      · -- Only the whole run comes across the file, and it adds an error.
        have hskip : isReadable o.store path = false := isReadable_eq_false_of_read_error hread
        have herror : readError? o.store path = some (e.message path.toString) := by
          rw [readError?, hread]
        have hrest := ih (o.add { store := o.store, error := some (e.message path.toString) }) part
          hpaths hpathsText hstore (hlines.trans (List.append_nil o.lines).symm)
        rw [List.filter_cons_of_neg (by simp [hskip]), List.filterMap_cons_some herror,
          files_cons_ok (file_of_read_error hread)]
        exact hrest.of_add
      · exact absurd hgarbled (hpathText e)

/-- What a run without failure has come to is where the run goes on. -/
theorem files_append {before after : List Path}
    (h : (files parse rules fix o before).value.failure = none) :
    (files parse rules fix o (before ++ after)).value =
      (files parse rules fix (files parse rules fix o before).value after).value := by
  induction before generalizing o with
  | nil => rfl
  | cons path before ih =>
      cases hfile : (file parse rules fix o.store path).value with
      | error e =>
          rw [files_cons_error hfile] at h
          cases h
      | ok one =>
          rw [files_cons_ok hfile] at h ⊢
          rw [List.cons_append, files_cons_ok hfile, ih h]

/-- A file that is no text ends a run. -/
theorem files_stop {before after : List Path} {bad : Path} {e : Failure}
    (hrules : ∀ rule ∈ rules, rule.IsWholePeriod) (hnone : o.failure = none)
    (hapart : (before ++ bad :: after).Pairwise o.store.Apart)
    (htext : ∀ p ∈ before, ∀ e, ¬ IsGarbled o.store p e) (hbad : IsGarbled o.store bad e) :
    (files parse rules fix o (before ++ bad :: after)).value =
      { (files parse rules fix o before).value with failure := some e } := by
  obtain ⟨hbefore, -, hacross⟩ := List.pairwise_append.mp hapart
  have hgood : (files parse rules fix o before).value.failure = none :=
    (files_skip parse fix o o hrules hbefore htext rfl rfl).failure_eq.trans hnone
  have hread : (files parse rules fix o before).value.store.read bad = o.store.read bad :=
    read_files fun p hp => hacross p hp bad List.mem_cons_self
  rw [files_append hgood, files_cons_error (file_of_isGarbled ((isGarbled_congr hread).mpr hbad))]

end Files

/-! ## Files that are not listed -/

/-- The files that a request lists, before those at the same place are dropped. -/
def listedFiles (fs : FileStore) (request : CheckRequest) (changed : Logged (List Path)) :
    List Path :=
  (if request.diff then changed.value else []) ++ request.paths.flatMap fs.expand

/-- The request for the readable files among those that a request lists. -/
def readableRequest (fs : FileStore) (request : CheckRequest) (changed : Logged (List Path)) :
    CheckRequest :=
  { request with diff := false, paths := (listedFiles fs request changed).filter (isReadable fs) }

section Listed

variable {fs : FileStore} {request : CheckRequest} {changed : Logged (List Path)}

theorem isDirectory_of_isReadable {p : Path} (h : isReadable fs p = true) :
    fs.isDirectory p = false := by
  obtain ⟨bytes, source, hread, -⟩ := isReadable_iff.mp h
  exact FileStore.isDirectory_of_read hread

/-- The files that are found are told apart among those that are listed. -/
theorem foundFiles_eq_ok_iff {paths : List Path} :
    foundFiles fs request changed = .ok paths ↔
      ∃ placed, placed.map (·.1) = listedFiles fs request changed ∧ fs.ArePlaced placed ∧
        paths = FileStore.distinct [] placed :=
  FileStore.resolveFiles_eq_ok_iff

theorem exists_foundFiles_iff :
    (∃ paths, foundFiles fs request changed = .ok paths) ↔
      ∀ p ∈ listedFiles fs request changed, ∃ place, fs.resolve p = .ok place :=
  FileStore.exists_resolveFiles_iff

theorem exists_mem_listedFiles {e : PathError} (h : foundFiles fs request changed = .error e) :
    ∃ p ∈ listedFiles fs request changed, fs.resolve p = .error e := by
  obtain ⟨before, p, after, hsplit, -, hp⟩ := FileStore.exists_of_resolveFiles_eq_error h
  refine ⟨p, ?_, hp⟩
  rw [show listedFiles fs request changed = _ from hsplit]
  exact List.mem_append_right before List.mem_cons_self

theorem mem_listedFiles_of_mem_checkedFiles {p : Path} (h : p ∈ checkedFiles fs request changed) :
    p ∈ listedFiles fs request changed := by
  cases hfound : foundFiles fs request changed with
  | error e =>
      rw [checkedFiles_of_error hfound] at h
      cases h
  | ok paths =>
      rw [checkedFiles_of_ok hfound] at h
      exact FileStore.mem_candidates_of_mem_resolveFiles hfound h

/-- The readable files that are listed are found by themselves. -/
theorem listedFiles_readableRequest :
    listedFiles fs (readableRequest fs request changed) (pure []) =
      (listedFiles fs request changed).filter (isReadable fs) :=
  FileStore.candidates_eq_self fun _ hp => isDirectory_of_isReadable (List.mem_filter.mp hp).2

/-- No unreadable file has the real place of a readable one. -/
def AreSeparate (fs : FileStore) (ps : List Path) : Prop :=
  ∀ p ∈ ps, ∀ q ∈ ps, isReadable fs p = true → isReadable fs q = false → fs.resolve p ≠ fs.resolve q

theorem areSeparate_pair {p q : Path} (hp : isReadable fs p = false) (hq : isReadable fs q = true)
    (hne : fs.resolve q ≠ fs.resolve p) : AreSeparate fs [p, q] := by
  intro a ha b hb hreadable hunreadable
  rcases List.mem_pair.mp ha with rfl | rfl
  · rw [hp] at hreadable
    cases hreadable
  · rcases List.mem_pair.mp hb with rfl | rfl
    · exact hne
    · rw [hq] at hunreadable
      cases hunreadable

/-- Where they lie elsewhere, unreadable files may be dropped before the others are told apart. -/
theorem filter_distinct {seen others : List Place} {placed : List (Path × Place)}
    (hplaced : fs.ArePlaced placed) (hps : AreSeparate fs (placed.map (·.1)))
    (hseen : ∀ e ∈ placed, isReadable fs e.1 = true → (e.2 ∈ seen ↔ e.2 ∈ others)) :
    (FileStore.distinct seen placed).filter (isReadable fs) =
      FileStore.distinct others (placed.filter fun e => isReadable fs e.1) := by
  induction placed generalizing seen others with
  | nil => rfl
  | cons e placed ih =>
      obtain ⟨p, place⟩ := e
      obtain ⟨hplace, hplaced⟩ := hplaced.of_cons
      have hrest : AreSeparate fs (placed.map (·.1)) := fun a ha b hb =>
        hps a (List.mem_cons_of_mem p ha) b (List.mem_cons_of_mem p hb)
      obtain ⟨hpseen, hseen⟩ := List.forall_mem_cons.mp hseen
      rw [FileStore.distinct, List.contains_eq_mem]
      cases hp : isReadable fs p with
      | true =>
          rw [List.filter_cons, if_pos hp, FileStore.distinct, List.contains_eq_mem]
          simp only [hpseen hp]
          split
          · exact ih hplaced hrest hseen
          · rw [List.filter_cons_of_pos hp, ih hplaced hrest fun q hq hread => ?_]
            rw [List.mem_cons, List.mem_cons, hseen q hq hread]
      | false =>
          have hpnot : ¬ isReadable fs p = true := by simp [hp]
          rw [List.filter_cons, if_neg hpnot]
          split
          · exact ih hplaced hrest hseen
          · -- The place of the dropped file was seen on one side, and no readable file has it.
            rw [List.filter_cons_of_neg hpnot]
            refine ih hplaced hrest fun q hq hread => ?_
            have hqmem : q.1 ∈ placed.map (·.1) := List.mem_map_of_mem hq
            have hne := hps q.1 (List.mem_cons_of_mem p hqmem) p List.mem_cons_self hread hp
            rw [hplaced q hq, hplace] at hne
            rw [List.mem_cons, or_iff_right fun heq => hne (congrArg Except.ok heq),
              hseen q hq hread]

/-- The files that are found and can be read are those that are found without the others. -/
theorem foundFiles_readableRequest {paths : List Path}
    (h : AreSeparate fs (listedFiles fs request changed))
    (hfound : foundFiles fs request changed = .ok paths) :
    foundFiles fs (readableRequest fs request changed) (pure []) =
      .ok (paths.filter (isReadable fs)) := by
  obtain ⟨placed, hlisted, hplaced, rfl⟩ := foundFiles_eq_ok_iff.mp hfound
  rw [← hlisted] at h
  refine foundFiles_eq_ok_iff.mpr ⟨placed.filter fun e => isReadable fs e.1, ?_,
    fun e he => hplaced e (List.mem_of_mem_filter he), filter_distinct hplaced h fun _ _ _ => Iff.rfl⟩
  rw [listedFiles_readableRequest, ← hlisted, List.filter_map]
  rfl

end Listed

/-! ## Runs -/

/-- A run reports every unreadable file, leaves it as it is, and otherwise comes to what a run
without these files comes to. -/
structure SkipsUnreadable (fs : FileStore) (checked : List Path) (whole without : Outcome) :
    Prop where
  failure_eq : whole.failure = none
  errors_eq : whole.errors = checked.filterMap (readError? fs)
  read_eq : ∀ p, isReadable fs p = false → whole.store.read p = fs.read p
  lines_eq : whole.lines = without.lines
  store_eq : whole.store = without.store
  exitCode_eq : whole.exitCode = without.exitCode

section Run

variable {parse : Parser} {fs : FileStore} {config : Config} {request : CheckRequest}
  {changed : Logged (List Path)}

theorem exists_first_garbled {ps : List Path} (h : ∃ p ∈ ps, ∃ e, IsGarbled fs p e) :
    ∃ before bad after e, ps = before ++ bad :: after ∧
      (∀ p ∈ before, ∀ e, ¬ IsGarbled fs p e) ∧ IsGarbled fs bad e := by
  induction ps with
  | nil =>
      obtain ⟨p, hp, -⟩ := h
      cases hp
  | cons p ps ih =>
      by_cases hp : ∃ e, IsGarbled fs p e
      · obtain ⟨e, he⟩ := hp
        exact ⟨[], p, ps, e, rfl, nofun, he⟩
      · obtain ⟨q, hq, e, he⟩ := h
        have hq : q ∈ ps := (List.mem_cons.mp hq).resolve_left fun heq => hp ⟨e, heq ▸ he⟩
        obtain ⟨before, bad, after, e, rfl, hbefore, hbad⟩ := ih ⟨q, hq, e, he⟩
        exact ⟨p :: before, bad, after, e, rfl,
          List.forall_mem_cons.mpr ⟨not_exists.mp hp, hbefore⟩, hbad⟩

/-- A run in which every file that opens is text skips the others. -/
theorem skipsUnreadable (hload : (Config.load fs fs.cwdPath).value = .ok config)
    (hseparate : AreSeparate fs (listedFiles fs request changed)) {paths : List Path}
    (hfound : foundFiles fs request changed = .ok paths)
    (htext : ∀ p ∈ paths, ∀ e, ¬ IsGarbled fs p e) :
    SkipsUnreadable fs paths (run parse Rule.registry fs request changed).value
      (run parse Rule.registry fs (readableRequest fs request changed) (pure [])).value := by
  have hrules := isWholePeriod_of_mem_activeRules config
  have hapart := FileStore.pairwise_apart_resolveFiles hfound
  rw [run_of_load hfound hload, run_of_load (foundFiles_readableRequest hseparate hfound) hload]
  have hwhole := files_skip parse request.fix { store := fs } { store := fs } hrules hapart htext
    rfl rfl
  have hwithout := files_skip parse request.fix { store := fs } { store := fs } hrules
    (hapart.filter (isReadable fs)) (fun p hp => htext p (List.mem_of_mem_filter hp)) rfl rfl
  refine ⟨hwhole.failure_eq, hwhole.errors_eq, fun p hp => ?_, hwhole.lines_eq, hwhole.store_eq, ?_⟩
  · rw [hwhole.store_eq]
    exact read_files fun q hq => apart_of_isReadable (List.mem_filter.mp hq).2 hp
  · rw [Outcome.exitCode, Outcome.exitCode, hwhole.failure_eq, hwhole.lines_eq]
    rw [← hwithout.failure_eq]
    rfl

/-- A run over a file that opens and is no text ends there. -/
theorem run_stops (hload : (Config.load fs fs.cwdPath).value = .ok config)
    {before after : List Path} {bad : Path} {e : Failure}
    (hchecked : checkedFiles fs request changed = before ++ bad :: after)
    (htext : ∀ p ∈ before, ∀ e, ¬ IsGarbled fs p e) (hbad : IsGarbled fs bad e) :
    (run parse Rule.registry fs request changed).value =
      { (files parse (config.activeRules Rule.registry).value request.fix { store := fs }
        before).value with failure := some e } := by
  have hapart := pairwise_apart_checkedFiles fs request changed
  rw [hchecked] at hapart
  cases hfound : foundFiles fs request changed with
  | error e =>
      rw [checkedFiles_of_error hfound] at hchecked
      exact absurd hchecked (by simp)
  | ok paths =>
      rw [checkedFiles_of_ok hfound] at hchecked
      rw [run_of_load hfound hload, hchecked]
      exact files_stop (isWholePeriod_of_mem_activeRules config) rfl hapart htext hbad

end Run

/-- Unreadable files are reported and skipped, and the other files are checked as if these were not
listed, exactly if every listed path has a real place and no checked file opens and is no text. The
first file that does ends the run: what the files before it come to is all that was written and
printed, and it and the files behind it are left as they are. A path without a real place ends the
run before anything is written or printed. -/
theorem unreadable_files_skipped_iff (parse : Parser) {fs : FileStore} {config : Config}
    (hload : (Config.load fs fs.cwdPath).value = .ok config) (request : CheckRequest)
    (changed : Logged (List Path)) (hseparate : AreSeparate fs (listedFiles fs request changed)) :
    let listed := listedFiles fs request changed
    let checked := checkedFiles fs request changed
    let whole := (run parse Rule.registry fs request changed).value
    let without := (run parse Rule.registry fs (readableRequest fs request changed) (pure [])).value
    (SkipsUnreadable fs checked whole without ↔
      (∀ p ∈ listed, ∃ place, fs.resolve p = .ok place) ∧
        ∀ p ∈ checked, ∀ e, ¬ IsGarbled fs p e) ∧
    (∀ before bad after e, checked = before ++ bad :: after →
      (∀ p ∈ before, ∀ e, ¬ IsGarbled fs p e) → IsGarbled fs bad e →
        whole = { (files parse (config.activeRules Rule.registry).value request.fix { store := fs }
          before).value with failure := some e } ∧
        ∀ p ∈ bad :: after, whole.store.read p = fs.read p) ∧
    ((∃ p ∈ listed, ∀ place, fs.resolve p ≠ .ok place) →
      ∃ p ∈ listed, ∃ e, fs.resolve p = .error e ∧
        whole = { store := fs, failure := some (.path e) }) := by
  intro listed checked whole without
  have hresolved : (∃ paths, foundFiles fs request changed = .ok paths) ↔
      ∀ p ∈ listed, ∃ place, fs.resolve p = .ok place := exists_foundFiles_iff
  refine ⟨?_, ?_, ?_⟩
  · rw [← hresolved]
    cases hfound : foundFiles fs request changed with
    | error e =>
        have hwhole : whole = _ := run_of_found_error hfound
        refine iff_of_false (fun hskips => ?_) (by simp)
        rw [hwhole] at hskips
        cases hskips.failure_eq
    | ok paths =>
        have hchecked : checked = paths := checkedFiles_of_ok hfound
        rw [and_iff_right ⟨paths, rfl⟩]
        refine ⟨fun hskips => ?_, fun htext => ?_⟩
        · by_contra hgarbled
          push Not at hgarbled
          obtain ⟨before, bad, after, e, hsplit, htext, hbad⟩ := exists_first_garbled hgarbled
          have hfailure := hskips.failure_eq
          rw [show whole = _ from run_stops hload hsplit htext hbad] at hfailure
          cases hfailure
        · rw [hchecked] at htext ⊢
          exact skipsUnreadable hload hseparate hfound htext
  · intro before bad after e hchecked htext hbad
    have hwhole : whole = _ := run_stops hload hchecked htext hbad
    refine ⟨hwhole, fun p hp => ?_⟩
    have hapart : checked.Pairwise fs.Apart := pairwise_apart_checkedFiles fs request changed
    rw [hchecked] at hapart
    rw [hwhole]
    exact read_files fun q hq => (List.pairwise_append.mp hapart).2.2 q hq p hp
  · rintro ⟨p, hp, hnone⟩
    cases hfound : foundFiles fs request changed with
    | error e =>
        obtain ⟨q, hq, hresolve⟩ := exists_mem_listedFiles hfound
        exact ⟨q, hq, e, hresolve, run_of_found_error hfound⟩
    | ok paths =>
        obtain ⟨place, hplace⟩ := hresolved.mp ⟨paths, hfound⟩ p hp
        exact absurd hplace (hnone place)

/-! ## A directory with a program -/

/-- A directory with a file that is no text and a program. -/
def garbledStore : FileStore where
  entries := [(["a.rb"], .file [0xFF]), (["b.rb"], .file (encode dayText.toList))]

/-- The path of an entry of the working directory. -/
def pathTo (name : String) : Path := ⟨"", [name]⟩

/-- The failure to read the file that is no text. -/
def garbledFailure : Failure := .text ⟨.invalidStart, 0, 1, 0xFF⟩

section Garbled

theorem load_garbledStore : (Config.load garbledStore garbledStore.cwdPath).value = .ok {} :=
  FileStore.load_of_nothing_at rfl (by decide) (by decide)

theorem read_garbled : garbledStore.read (pathTo "a.rb") = .ok [0xFF] :=
  FileStore.read_of_file_at rfl (by decide) rfl ""

theorem isGarbled_garbledStore : IsGarbled garbledStore (pathTo "a.rb") garbledFailure := by
  have hdecode : decode [0xFF] = .error ⟨.invalidStart, 0, 1, 0xFF⟩ := by decide +kernel
  refine ⟨[0xFF], read_garbled, ?_⟩
  rw [readText, hdecode]
  rfl

theorem read_program : garbledStore.read (pathTo "b.rb") = .ok (encode dayText.toList) :=
  FileStore.read_of_file_at rfl (by decide) rfl ""

theorem readText_program : readText (encode dayText.toList) = .ok dayText :=
  readText_encode (by decide)

theorem isReadable_program : isReadable garbledStore (pathTo "b.rb") = true :=
  isReadable_iff.mpr ⟨_, _, read_program, readText_program⟩

theorem resolve_program : garbledStore.resolve (pathTo "b.rb") = .ok ["b.rb"] :=
  FileStore.resolve_of_locate (FileStore.locate_of_file_at rfl (by decide) rfl "")

theorem listedFiles_garbledStore {name : String}
    (h : garbledStore.isDirectory (pathTo name) = false) (fix : Bool) :
    listedFiles garbledStore { paths := [pathTo name, pathTo "b.rb"], fix := fix } (pure []) =
      [pathTo name, pathTo "b.rb"] := by
  exact FileStore.candidates_eq_self (List.forall_mem_cons.mpr
    ⟨h, List.forall_mem_singleton.mpr (FileStore.isDirectory_of_read read_program)⟩)

/-- The check of the program alone reports its range. -/
theorem lines_program {request : CheckRequest} (hfix : request.fix = false)
    {changed : Logged (List Path)}
    (hfound : foundFiles garbledStore request changed = .ok [pathTo "b.rb"]) :
    (run (fun _ => dayRange) Rule.registry garbledStore request changed).value.lines =
      ["b.rb:1:0: DTR001 Use `date.all_day` instead."] := by
  have hfile : (file (fun _ => dayRange) [.wholePeriod .warning] false garbledStore
      (pathTo "b.rb")).value = .ok _ :=
    file_of_examine read_program readText_program rfl
  have hrules : (({} : Config).activeRules Rule.registry).value = [.wholePeriod .warning] := rfl
  rw [run_of_load hfound load_garbledStore, hrules, hfix, files_cons_ok hfile,
    isSoleRange_dayRange.analyze_eq (fun _ => dayRange) .warning]
  decide +kernel

end Garbled

/-- A missing file is reported, and the program behind it is checked as if it stood alone. -/
theorem unreadable_files_skipped_iff_missing :
    let request : CheckRequest := { paths := [pathTo "gone.rb", pathTo "b.rb"], fix := true }
    let whole := (run (fun _ => dayRange) Rule.registry garbledStore request (pure [])).value
    let without := (run (fun _ => dayRange) Rule.registry garbledStore
      (readableRequest garbledStore request (pure [])) (pure [])).value
    ((Config.load garbledStore garbledStore.cwdPath).value = .ok {} ∧
        AreSeparate garbledStore (listedFiles garbledStore request (pure []))) ∧
      SkipsUnreadable garbledStore (checkedFiles garbledStore request (pure [])) whole without := by
  intro request whole without
  have hgone : garbledStore.locate (pathTo "gone.rb") = .error .notFound :=
    FileStore.locate_of_nothing_at rfl (by decide) rfl ""
  have hread := FileStore.read_of_locate_error hgone
  have hplace : garbledStore.resolve (pathTo "gone.rb") = .ok ["gone.rb"] :=
    FileStore.resolve_of_nothing_at rfl (by decide) rfl rfl ""
  have hlisted : listedFiles garbledStore request (pure []) =
      [pathTo "gone.rb", pathTo "b.rb"] := by
    refine listedFiles_garbledStore ?_ true
    rw [FileStore.isDirectory, FileStore.find?, hgone]
  have hseparate : AreSeparate garbledStore (listedFiles garbledStore request (pure [])) := by
    rw [hlisted]
    refine areSeparate_pair (isReadable_eq_false_of_read_error hread) isReadable_program ?_
    rw [resolve_program, hplace]
    exact fun heq => absurd (Except.ok.inj heq) (by decide)
  refine ⟨⟨load_garbledStore, hseparate⟩, ?_⟩
  obtain ⟨hiff, -⟩ := unreadable_files_skipped_iff (fun _ => dayRange) load_garbledStore request
    (pure []) hseparate
  refine hiff.mpr ⟨?_, fun p hp e => ?_⟩
  · rw [hlisted]
    exact List.forall_mem_cons.mpr
      ⟨⟨_, hplace⟩, List.forall_mem_singleton.mpr ⟨_, resolve_program⟩⟩
  · have hp := mem_listedFiles_of_mem_checkedFiles hp
    rw [hlisted] at hp
    rcases List.mem_pair.mp hp with rfl | rfl
    · exact not_isGarbled_of_read_error hread
    · exact not_isGarbled_of_isReadable isReadable_program

/-- A file that is no text is not reported as one, and the program behind it is not checked. -/
theorem garbled_file_ends_run :
    let request : CheckRequest := { paths := [pathTo "a.rb", pathTo "b.rb"] }
    let whole := (run (fun _ => dayRange) Rule.registry garbledStore request (pure [])).value
    let without := (run (fun _ => dayRange) Rule.registry garbledStore
      (readableRequest garbledStore request (pure [])) (pure [])).value
    (whole.failure = some (.text ⟨.invalidStart, 0, 1, 0xFF⟩) ∧ whole.errors = [] ∧
        whole.lines = []) ∧
      without.lines = ["b.rb:1:0: DTR001 Use `date.all_day` instead."] ∧
      ¬ SkipsUnreadable garbledStore (checkedFiles garbledStore request (pure [])) whole
        without := by
  intro request whole without
  have hlisted : listedFiles garbledStore request (pure []) = [pathTo "a.rb", pathTo "b.rb"] :=
    listedFiles_garbledStore (FileStore.isDirectory_of_read read_garbled) false
  have hplace : garbledStore.resolve (pathTo "a.rb") = .ok ["a.rb"] :=
    FileStore.resolve_of_locate (FileStore.locate_of_file_at rfl (by decide) rfl "")
  let placed : List (Path × Place) := [(pathTo "a.rb", ["a.rb"]), (pathTo "b.rb", ["b.rb"])]
  have hplaced : garbledStore.ArePlaced placed :=
    List.forall_mem_cons.mpr ⟨hplace, List.forall_mem_singleton.mpr resolve_program⟩
  have hfound : foundFiles garbledStore request (pure []) =
      .ok ([] ++ pathTo "a.rb" :: [pathTo "b.rb"]) :=
    foundFiles_eq_ok_iff.mpr ⟨placed, hlisted.symm, hplaced, rfl⟩
  have hwhole : whole = { store := garbledStore, failure := some garbledFailure } :=
    run_stops load_garbledStore (checkedFiles_of_ok hfound) (List.forall_mem_nil _)
      isGarbled_garbledStore
  have hunreadable : ¬ isReadable garbledStore (pathTo "a.rb") = true :=
    fun h => not_isGarbled_of_isReadable h isGarbled_garbledStore
  have hreadable : foundFiles garbledStore (readableRequest garbledStore request (pure []))
      (pure []) = .ok [pathTo "b.rb"] := by
    refine foundFiles_eq_ok_iff.mpr ⟨[(pathTo "b.rb", ["b.rb"])], ?_,
      List.forall_mem_singleton.mpr resolve_program, rfl⟩
    rw [listedFiles_readableRequest, hlisted, List.filter_cons_of_neg hunreadable,
      List.filter_cons_of_pos isReadable_program]
    rfl
  rw [hwhole]
  refine ⟨⟨rfl, rfl, rfl⟩, lines_program rfl hreadable, fun hskips => ?_⟩
  cases hskips.failure_eq

end Check

end PeriodLint
