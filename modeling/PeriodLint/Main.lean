import PeriodLint.Check.Run
import PeriodLint.Grammar.Parse

/-!
# The command line

A run works on a store that holds what it may read: the configuration files of
the working directory and the directories above it, and what the paths of the
command line lead to. A link that leads nowhere is not among it, since what it
holds cannot be asked for. Files whose bytes differ afterwards are written back.
-/

namespace PeriodLint.CommandLine

/-- The place of a path from the root. -/
def placeOf (spelling : String) : Place := (Path.ofString spelling).parts

/-- The path from the root to a place. -/
def spellingOf (place : Place) : String := (Path.mk "/" place).toString

/-- The bytes of a file. -/
def bytesAt (place : Place) : IO Bytes := do
  return (← IO.FS.readBinFile (spellingOf place)).toList

/-- Put what lies at a place into a store. A link leads to the real place, which is put there
too. -/
def putPlace (fs : FileStore) (place : Place) (kind : IO.FS.FileType) : IO FileStore := do
  match kind with
  | .dir => return fs.putDirectories place
  | .file => return (fs.putDirectories place.dropLast).put place (.file (← bytesAt place))
  | .symlink =>
      let real ← IO.FS.realPath (spellingOf place)
      let target := placeOf real.toString
      let fs := (fs.putDirectories place.dropLast).put place (.link ⟨"/", target⟩)
      if ← real.isDir then
        return fs.putDirectories target
      else
        return (fs.putDirectories target.dropLast).put target (.file (← bytesAt target))
  | _ => return fs

/-- Put what lies below a directory into a store, except for files that are never collected. -/
partial def putBelow (fs : FileStore) (directory : Place) : IO FileStore := do
  let real ← IO.FS.realPath (spellingOf directory)
  let mut fs := fs
  for entry in ← real.readDir do
    let place := directory ++ [entry.fileName]
    let kind := (← entry.path.symlinkMetadata).type
    if kind == .dir then
      unless FileStore.skippedNames.contains entry.fileName do
        fs ← putBelow (fs.putDirectories place) place
    else if Path.isRubyName entry.fileName then
      fs ← putPlace fs place kind
  return fs

/-- Put what a path leads to into a store, with the links on the way. -/
def putPath (fs : FileStore) (p : Path) : IO FileStore := do
  let mut fs := fs
  let mut here ← IO.FS.realPath "/"
  for part in fs.base p ++ p.parts do
    let spelled := here / part
    if ← spelled.pathExists then
      unless part == ".." do
        fs ← putPlace fs (placeOf spelled.toString) (← spelled.symlinkMetadata).type
      here ← IO.FS.realPath spelled
    else
      return fs
  match fs.locate p with
  | .ok place => if fs.isDirectory p then putBelow fs place else return fs
  | .error _ => return fs

/-- The store for a check. -/
def storeFor (request : CheckRequest) : IO FileStore := do
  let cwd := placeOf (← IO.currentDir).toString
  let mut fs := FileStore.putDirectories { cwd } cwd
  let start := fs.cwdPath
  for candidate in (start :: start.ancestors).flatMap Config.candidatesIn do
    fs ← putPath fs candidate
  for p in request.paths do
    fs ← putPath fs p
  return fs

/-- Write back the files of a store that differ from those of an earlier one. -/
def writeChanges (before after : FileStore) : IO Unit := do
  for (place, entry) in after.entries do
    match entry, before.entryAt? place with
    | .file new, some (.file old) =>
        if new != old then IO.FS.writeBinFile (spellingOf place) ⟨new.toArray⟩
    | _, _ => pure ()

/-- Run a check and report what it found. Changed files are not asked of version control here. -/
def runCheck (request : CheckRequest) : IO Nat := do
  let fs ← storeFor request
  let changed := CommandResult.changedFiles? none none
  let run := Check.run Grammar.parse Rule.registry fs request changed
  for line in Check.shownLog request.verbose run.log do IO.eprintln line
  for error in run.value.errors do IO.eprintln ("error: " ++ error)
  IO.print run.value.printed
  writeChanges fs run.value.store
  for failure in run.value.failure.toList do IO.eprintln failure.message
  return run.value.exitCode

/-- How the program is called. -/
def usage : String := "Usage: allday check [--diff] [--fix] [--verbose] PATHS... | allday serve"

end PeriodLint.CommandLine

open PeriodLint in
/-- Run the command that the arguments ask for. A server has nothing to answer without a transport
for the messages of an editor. -/
def main (args : List String) : IO UInt32 := do
  match Command.ofArguments args with
  | none =>
      IO.eprintln CommandLine.usage
      return 2
  | some .help =>
      IO.println CommandLine.usage
      return 0
  | some .serve => return 0
  | some (.check request) => return (← CommandLine.runCheck request).toUInt32
