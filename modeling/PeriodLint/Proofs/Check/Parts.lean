import PeriodLint.Proofs.Check.Unreadable

/-!
# The parts of a run

What a run adds for one file depends only on what is read of this file. As no
two checked files lie at one place, no file that a run writes is read by it
later, so a run over many files comes to the sum of its parts.
-/

namespace PeriodLint

open Utf8 Text

/-- At a place something else lies in the second store than in the first one. -/
def FileStore.ChangedTo (before after : FileStore) (place : Place) (e : Option Entry) : Prop :=
  after.entryAt? place = e ∧ before.entryAt? place ≠ e

namespace FileStore

variable {fs store : FileStore} {p : Path} {place : Place} {e : Option Entry}

theorem not_changedTo_self : ¬ fs.ChangedTo fs place e := by
  rintro ⟨hafter, hbefore⟩
  exact hbefore hafter

theorem exists_changedTo_iff :
    (∃ e, fs.ChangedTo store place e) ↔ store.entryAt? place ≠ fs.entryAt? place := by
  constructor
  · rintro ⟨e, rfl, hne⟩
    exact hne.symm
  · intro hne
    exact ⟨_, rfl, hne.symm⟩

theorem entryAt?_eq_of_not_changedTo (h : ∀ e, ¬ fs.ChangedTo store place e) :
    store.entryAt? place = fs.entryAt? place :=
  not_ne_iff.mp (mt exists_changedTo_iff.mpr (not_exists.mpr h))

theorem changedTo_write_iff {old new : Bytes} (hread : fs.read p = .ok old) :
    fs.ChangedTo (fs.write p new) place e ↔
      fs.locate p = .ok place ∧ e = some (.file new) ∧ old ≠ new := by
  obtain ⟨here, hlocate, hentry⟩ := exists_locate_of_read hread
  have hhere := (lookup_of_entryAt? hentry).1
  rw [ChangedTo, write_eq_put hlocate, entryAt?_put place _ hhere, hlocate, Except.ok.injEq]
  by_cases hplace : place = here
  · subst hplace
    rw [if_pos rfl, hentry]
    constructor
    · rintro ⟨rfl, hne⟩
      exact ⟨rfl, rfl, fun heq => hne (by rw [heq])⟩
    · rintro ⟨-, rfl, hne⟩
      exact ⟨rfl, by simpa using hne⟩
  · rw [if_neg hplace]
    constructor
    · rintro ⟨rfl, hne⟩
      exact absurd rfl hne
    · rintro ⟨rfl, -⟩
      exact absurd rfl hplace

end FileStore

namespace Check

/-- What a file adds to a run: lines for the reader, an error, and the bytes that are written to it,
if it is rewritten. -/
structure Part where
  lines : List String := []
  error : Option String := none
  bytes : Option Bytes := none
  deriving Inhabited

/-- What a file adds to a run, given what is read of it. -/
def part (parse : Parser) (rules : List Rule) (fix : Bool) (path : Path) :
    Except FileError Bytes → Except Failure Part
  | .error e => .ok { error := some (e.message path.toString) }
  | .ok bytes =>
      match readText bytes with
      | .error e => .error e
      | .ok source =>
          match (examine parse rules fix source).value with
          | .error e => .error e
          | .ok (final, ds) =>
              .ok {
                lines := ds.map (reportLine path)
                bytes := if final = source then none else some (encode final.toList) }

namespace Part

/-- The store in which a part is written to its file. -/
def store (r : Part) (fs : FileStore) (path : Path) : FileStore :=
  match r.bytes with
  | none => fs
  | some bytes => fs.write path bytes

/-- A part with the store in which it is written. -/
def outcome (r : Part) (fs : FileStore) (path : Path) : FileOutcome :=
  ⟨r.store fs path, r.lines, r.error⟩

/-- A part changes what lies at a place. -/
def Changes (r : Part) (fs : FileStore) (path : Path) (place : Place) (e : Option Entry) : Prop :=
  fs.locate path = .ok place ∧
    ∃ bytes, r.bytes = some bytes ∧ e = some (.file bytes) ∧ fs.read path ≠ .ok bytes

end Part

section File

variable {parse : Parser} {rules : List Rule} {fix : Bool} {fs store : FileStore} {path : Path}
  {bytes : Bytes} {source final : String} {ds : List Diagnostic} {r : Part}

theorem part_of_examine (htext : readText bytes = .ok source)
    (hexamine : (examine parse rules fix source).value = .ok (final, ds)) :
    part parse rules fix path (.ok bytes) = .ok {
      lines := ds.map (reportLine path)
      bytes := if final = source then none else some (encode final.toList) } := by
  rw [part]
  simp only [htext, hexamine]

/-- A part comes from a file that does not open or from a text that is examined. -/
theorem part_cases {answer : Except FileError Bytes}
    (h : part parse rules fix path answer = .ok r) :
    (∃ e, answer = .error e ∧ r = { error := some (e.message path.toString) }) ∨
      ∃ bytes source final ds, answer = .ok bytes ∧ readText bytes = .ok source ∧
        (examine parse rules fix source).value = .ok (final, ds) ∧
        r = { lines := ds.map (reportLine path)
              bytes := if final = source then none else some (encode final.toList) } := by
  cases answer with
  | error e => exact Or.inl ⟨e, rfl, (Except.ok.inj h).symm⟩
  | ok bytes =>
      cases htext : readText bytes with
      | error e =>
          rw [part] at h
          simp only [htext, reduceCtorEq] at h
      | ok source =>
          cases hexamine : (examine parse rules fix source).value with
          | error e =>
              rw [part] at h
              simp only [htext, hexamine, reduceCtorEq] at h
          | ok outcome =>
              rw [part_of_examine htext hexamine] at h
              exact Or.inr ⟨bytes, source, outcome.1, outcome.2, rfl, htext, hexamine,
                (Except.ok.inj h).symm⟩

/-- The check of a file comes to its part and depends on nothing else that lies in the store. -/
theorem file_eq_part :
    (file parse rules fix fs path).value =
      (part parse rules fix path (fs.read path)).map fun r => r.outcome fs path := by
  cases hread : fs.read path with
  | error e => exact file_of_read_error hread
  | ok bytes =>
      cases htext : readText bytes with
      | error e =>
          rw [file_of_text_error hread htext, part]
          simp only [htext, Except.map]
      | ok source =>
          cases hexamine : (examine parse rules fix source).value with
          | error e =>
              rw [file_of_examine_error hread htext hexamine, part]
              simp only [htext, hexamine, Except.map]
          | ok outcome =>
              rw [file_of_examine hread htext hexamine, part_of_examine htext hexamine, writeBack,
                Except.map, Part.outcome, Part.store]
              split <;> rfl

theorem file_of_part (h : part parse rules fix path (fs.read path) = .ok r) :
    (file parse rules fix fs path).value = .ok (r.outcome fs path) := by
  rw [file_eq_part, h]
  rfl

theorem file_of_part_error {e : Failure}
    (h : part parse rules fix path (fs.read path) = .error e) :
    (file parse rules fix fs path).value = .error e := by
  rw [file_eq_part, h]
  rfl

theorem exists_part_of_not_isGarbled (parse : Parser) (fix : Bool)
    (hrules : ∀ rule ∈ rules, rule.IsWholePeriod) (h : ∀ e, ¬ IsGarbled fs path e) :
    ∃ r, part parse rules fix path (fs.read path) = .ok r := by
  cases hread : fs.read path with
  | error e => exact ⟨_, rfl⟩
  | ok bytes =>
      cases htext : readText bytes with
      | error e => exact absurd ⟨bytes, hread, htext⟩ (h e)
      | ok source =>
          obtain ⟨final, ds, hexamine⟩ := exists_examine hrules parse fix source
          exact ⟨_, part_of_examine htext hexamine⟩

/-- Only a file that opens is rewritten. -/
theorem exists_read_of_part (h : part parse rules fix path (fs.read path) = .ok r) {new : Bytes}
    (hnew : r.bytes = some new) : ∃ old, fs.read path = .ok old := by
  rcases part_cases h with ⟨e, -, rfl⟩ | ⟨old, source, final, ds, hread, -⟩
  · cases hnew
  · exact ⟨old, hread⟩

theorem changedTo_store_iff (h : part parse rules fix path (fs.read path) = .ok r) {place : Place}
    {e : Option Entry} : fs.ChangedTo (r.store fs path) place e ↔ r.Changes fs path place e := by
  rw [Part.store, Part.Changes]
  cases hbytes : r.bytes with
  | none => simp [FileStore.not_changedTo_self]
  | some new =>
      obtain ⟨old, hread⟩ := exists_read_of_part h hbytes
      simp [FileStore.changedTo_write_iff hread, hread]

theorem Part.changes_congr (hshape : store.shape = fs.shape)
    (hread : store.read path = fs.read path) {place : Place} {e : Option Entry} :
    r.Changes store path place e ↔ r.Changes fs path place e := by
  rw [Part.Changes, Part.Changes, hread, FileStore.locate_congr hshape]

end File

/-! ## Many files -/

section Files

variable {parse : Parser} {rules : List Rule} {fix : Bool} {o : Outcome} {paths : List Path}
  {parts : Path → Part}

/-- A run changes at a place exactly what one of its parts changes there. -/
theorem changedTo_files_iff (hapart : paths.Pairwise o.store.Apart)
    (hparts : ∀ p ∈ paths, part parse rules fix p (o.store.read p) = .ok (parts p)) {place : Place}
    {e : Option Entry} :
    o.store.ChangedTo (files parse rules fix o paths).value.store place e ↔
      ∃ p ∈ paths, (parts p).Changes o.store p place e := by
  induction paths generalizing o e with
  | nil =>
      simp only [List.not_mem_nil, false_and, exists_false, iff_false]
      exact FileStore.not_changedTo_self
  | cons p paths ih =>
      obtain ⟨hp, hpaths⟩ := List.pairwise_cons.mp hapart
      obtain ⟨hpart, hparts⟩ := List.forall_mem_cons.mp hparts
      have hfile := file_of_part hpart
      have hshape := shape_of_file hfile
      have hread : ∀ q ∈ paths, ((parts p).store o.store p).read q = o.store.read q :=
        fun q hq => read_of_file hfile (hp q hq)
      have hrest {e : Option Entry} : ((parts p).store o.store p).ChangedTo
          (files parse rules fix (o.add ((parts p).outcome o.store p)) paths).value.store place e ↔
            ∃ q ∈ paths, (parts q).Changes o.store q place e :=
        (ih (o := o.add ((parts p).outcome o.store p)) (hpaths.imp fun hpq => hpq.congr hshape)
          fun q hq => (congrArg _ (hread q hq)).trans (hparts q hq)).trans
          (exists_congr fun q => and_congr_right fun hq => Part.changes_congr hshape (hread q hq))
      rw [files_cons_ok hfile, List.exists_mem_cons_iff, ← changedTo_store_iff hpart]
      by_cases hplace : o.store.locate p = .ok place
      · -- No other file lies at the place, so it stays as this file leaves it.
        have hnone {e : Option Entry} : ¬ ∃ q ∈ paths, (parts q).Changes o.store q place e := by
          rintro ⟨q, hq, hlocate, -⟩
          exact hp q hq place hplace hlocate
        rw [or_iff_left hnone, FileStore.ChangedTo, FileStore.ChangedTo,
          FileStore.entryAt?_eq_of_not_changedTo fun e => mt hrest.mp hnone]
      · -- This file lies elsewhere, so the place is as it was before.
        have hnot {e : Option Entry} :
            ¬ o.store.ChangedTo ((parts p).store o.store p) place e := by
          intro hchanged
          exact hplace ((changedTo_store_iff hpart).mp hchanged).1
        rw [or_iff_right hnot, ← hrest, FileStore.ChangedTo, FileStore.ChangedTo,
          FileStore.entryAt?_eq_of_not_changedTo fun e => hnot]

end Files

end Check

end PeriodLint
