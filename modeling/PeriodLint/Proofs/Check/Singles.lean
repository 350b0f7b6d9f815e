import PeriodLint.Proofs.Check.Parts
import PeriodLint.Proofs.Check.Rewritten
import PeriodLint.Proofs.Settings.Loading

/-!
# Runs over single files

A run over many files comes to the sum of the runs over the single files, from
the same store. Each of these stays the same when another file gets other
contents. Only a configuration that cannot be used and a path without a real
place have an effect on all of them.
-/

namespace PeriodLint

open Utf8 Text

namespace Check

section Singles

variable {parse : Parser} {fs store : FileStore} {request : CheckRequest} {config : Config}
  {paths found : List Path} {p : Path} {r : Part}

/-- The parts of the files that a run checks. -/
theorem exists_parts (parse : Parser) (config : Config) (fix : Bool)
    (htext : ∀ p ∈ paths, ∀ e, ¬ IsGarbled fs p e) :
    ∃ parts : Path → Part, ∀ p ∈ paths,
      part parse (config.activeRules Rule.registry).value fix p (fs.read p) = .ok (parts p) := by
  have hparts : ∀ p ∈ paths, ∃ r,
      part parse (config.activeRules Rule.registry).value fix p (fs.read p) = .ok r :=
    fun p hp => exists_part_of_not_isGarbled parse fix (isWholePeriod_of_mem_activeRules config)
      (htext p hp)
  choose! parts hparts using hparts
  exact ⟨parts, hparts⟩

end Singles

/-- A directory with a program that has a range and one that has none. -/
def pairStore : FileStore where
  entries := [(["a.rb"], .file (encode dayText.toList)),
    (["b.rb"], .file (encode "x = 1\r\n".toList))]

/-- The paths of the programs. -/
def pairPaths : List Path := [pathTo "a.rb", pathTo "b.rb"]

section Pair

theorem read_pairStore_first :
    pairStore.read (pathTo "a.rb") = .ok (encode dayText.toList) :=
  FileStore.read_of_file_at rfl (by decide) rfl ""

theorem read_pairStore_second :
    pairStore.read (pathTo "b.rb") = .ok (encode "x = 1\r\n".toList) :=
  FileStore.read_of_file_at rfl (by decide) rfl ""

theorem locate_pairStore_first : pairStore.locate (pathTo "a.rb") = .ok ["a.rb"] :=
  FileStore.locate_of_file_at rfl (by decide) rfl ""

theorem locate_pairStore_second : pairStore.locate (pathTo "b.rb") = .ok ["b.rb"] :=
  FileStore.locate_of_file_at rfl (by decide) rfl ""

theorem load_pairStore : (Config.load pairStore pairStore.cwdPath).value = .ok {} :=
  FileStore.load_of_nothing_at rfl rfl rfl

theorem resolveFiles_pairStore : pairStore.resolveFiles [] pairPaths = .ok pairPaths := by
  let placed : List (Path × Place) := [(pathTo "a.rb", ["a.rb"]), (pathTo "b.rb", ["b.rb"])]
  have hfiles : ∀ p ∈ pairPaths, pairStore.isDirectory p = false :=
    List.forall_mem_cons.mpr ⟨FileStore.isDirectory_of_read read_pairStore_first,
      List.forall_mem_singleton.mpr (FileStore.isDirectory_of_read read_pairStore_second)⟩
  have hplaced : pairStore.ArePlaced placed :=
    List.forall_mem_cons.mpr ⟨FileStore.resolve_of_locate locate_pairStore_first,
      List.forall_mem_singleton.mpr (FileStore.resolve_of_locate locate_pairStore_second)⟩
  exact FileStore.resolveFiles_eq_ok_iff.mpr
    ⟨placed, (FileStore.candidates_eq_self hfiles).symm, hplaced, rfl⟩

theorem not_isGarbled_pairStore : ∀ p ∈ pairPaths, ∀ e, ¬ IsGarbled pairStore p e := by
  have hfirst : isReadable pairStore (pathTo "a.rb") = true :=
    isReadable_iff.mpr ⟨_, _, read_pairStore_first, readText_encode_eq _⟩
  have hsecond : isReadable pairStore (pathTo "b.rb") = true :=
    isReadable_iff.mpr ⟨_, _, read_pairStore_second, readText_encode_eq _⟩
  exact List.forall_mem_cons.mpr ⟨fun _ => not_isGarbled_of_isReadable hfirst,
    List.forall_mem_singleton.mpr fun _ => not_isGarbled_of_isReadable hsecond⟩

end Pair

end Check

end PeriodLint
