import PeriodLint.Failure
import PeriodLint.Files.Store
import PeriodLint.Settings.Config
import PeriodLint.Settings.Toml.Document

/-!
# Loading the configuration

The configuration of a directory stands in the nearest directory, going up from
it, that holds a configuration file. A file of the tool's own is preferred to
one that it shares with other tools, in which it has a table of its own. A file
that is no document is noted and counts as absent.
-/

namespace PeriodLint

namespace Config

/-- The configuration file whose whole content belongs to the tool. -/
def ownFile : String := ".allday.toml"

/-- The configuration file that several tools share. -/
def sharedFile : String := "pyproject.toml"

/-- The configuration files in a directory, the preferred one first. -/
def candidatesIn (directory : Path) : List Path :=
  [directory.child ownFile, directory.child sharedFile]

/-- The configuration file that is nearest to a directory. -/
def find? (fs : FileStore) (start : Path) : Option Path :=
  ((start :: start.ancestors).flatMap candidatesIn).find? fs.isFile

/-- The value of a key, or an empty table. -/
def tableAt (t : Table) (key : String) : Setting := (t.lookup key).getD (.table [])

/-- The settings of the tool in a shared file. -/
def sharedSettings (document : Table) : Except SettingError Setting :=
  match tableAt document "tool" with
  | .table tools => .ok (tableAt tools "allday")
  | v => .error (.noEntries v.typeName)

/-- The configuration in a document, depending on the file that it was read from. -/
def ofDocument (path : Path) (document : Table) : Except SettingError Config := do
  if path.name == sharedFile then
    ofSetting (← sharedSettings document)
  else
    ofTable document

/-- The configuration in the bytes of a file. -/
def ofBytes (path : Path) (bytes : Bytes) : Logged (Except Failure Config) :=
  match Utf8.decode bytes with
  | .error e => pure (.error (.text e))
  | .ok cs =>
      match Toml.parse cs with
      | none => do
          Logged.note (.unreadableConfiguration path.toString none)
          return .ok {}
      | some document => do
          Logged.note (.loadedConfiguration path.toString)
          return Failure.lift .setting (ofDocument path document)

/-- The configuration that a file comes to, given what was read of it. A file that cannot be opened
is noted and counts as absent. -/
def ofFile (path : Path) : Except FileError Bytes → Logged (Except Failure Config)
  | .ok bytes => ofBytes path bytes
  | .error e => do
      Logged.note (.unreadableConfiguration path.toString (some (e.message path.toString)))
      return .ok {}

/-- The configuration for a directory. -/
def load (fs : FileStore) (start : Path) : Logged (Except Failure Config) :=
  match find? fs start with
  | none => do
      Logged.note (.noConfiguration start.toString)
      return .ok {}
  | some path => ofFile path (fs.read path)

end Config

namespace FileStore

/-- The path of the working directory. -/
def cwdPath (fs : FileStore) : Path := ⟨"/", fs.cwd⟩

end FileStore

end PeriodLint
