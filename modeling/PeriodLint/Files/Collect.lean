import PeriodLint.Files.Store

/-!
# Collected files

The files that a list of paths stands for. A directory stands for the Ruby
files below it, in the order of their parts, except those in directories that
are never source. A link to a directory is not entered, and a link to a file
counts as a file. Of paths with the same real place the first is kept, and a
path without one is an error.
-/

namespace PeriodLint

namespace FileStore

/-- The names of directories that hold no source of the project. -/
def skippedNames : List String :=
  [".git", ".bundle", "vendor", "node_modules", "tmp", "log", "coverage", "public"]

/-- What lies below a place, as parts from there on. -/
def below (fs : FileStore) (place : Place) : List (List String) :=
  (fs.entries.map (·.1)).filterMap fun other =>
    if place.isPrefixOf other && place.length < other.length then
      some (other.drop place.length)
    else
      none

/-- Whether an entry below a directory is collected. -/
def isCollected (fs : FileStore) (root : Path) (parts : List String) : Bool :=
  let path := root.join ⟨"", parts⟩
  fs.isFile path && path.isRubyFile && !parts.any skippedNames.contains

/-- The Ruby files below a directory. -/
def collect (fs : FileStore) (root : Path) : List Path :=
  match fs.locate root with
  | .error _ => []
  | .ok place =>
      (((fs.below place).filter (fs.isCollected root)).mergeSort Path.partsPrecede).map fun parts =>
        root.join ⟨"", parts⟩

/-- A path with its real place. -/
def withPlace (fs : FileStore) (p : Path) : Except PathError (Path × Place) := do
  return (p, ← fs.resolve p)

/-- Of paths with their real places, those whose place was not seen before. -/
def distinct (seen : List Place) : List (Path × Place) → List Path
  | [] => []
  | (p, place) :: rest =>
      if seen.contains place then distinct seen rest
      else p :: distinct (place :: seen) rest

/-- What one path stands for. -/
def expand (fs : FileStore) (p : Path) : List Path :=
  if fs.isDirectory p then fs.collect p else [p]

/-- What paths stand for, after files that were found elsewhere. -/
def candidates (fs : FileStore) (changed paths : List Path) : List Path :=
  changed ++ paths.flatMap fs.expand

/-- The files that paths stand for, after others that were found elsewhere. The first of them
without a real place is an error. -/
def resolveFiles (fs : FileStore) (changed paths : List Path) : Except PathError (List Path) := do
  let placed ← (fs.candidates changed paths).mapM fs.withPlace
  return distinct [] placed

end FileStore

end PeriodLint
