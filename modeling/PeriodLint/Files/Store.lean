import PeriodLint.Files.Path
import PeriodLint.Syntax.Span
import PeriodLint.Text.Quoted

/-!
# File stores

A file store holds the entries of a file system by the place where each lies: a
file with its bytes, a directory, or a link to a path. A path leads to a place
when every link on the way is followed. The real place of a path is found in
the same way, except that parts that do not exist are taken as they are.

A store stands for a file system in which every file can be opened and written
and every directory listed, so that only what lies where decides whether a path
leads to a file. No file has a second place, as it would by a hard link. Names
hold no null character, and neither names nor paths are limited in length. The
target of a link is kept without its empty parts and single dots.
-/

namespace PeriodLint

/-- Where an entry lies: the names from the root of the store down to it. -/
abbrev Place := List String

/-- The place of parts from the root on, where double dots lead up. -/
def Place.ofParts (parts : List String) : Place :=
  parts.foldl (fun here part => if part = ".." then here.dropLast else here ++ [part]) []

/-- What lies at a place. -/
inductive Entry where
  | file (bytes : Bytes)
  | directory
  | link (target : Path)
  deriving Repr

/-- A file system. `cwd` is the place of the working directory. -/
structure FileStore where
  entries : List (Place × Entry) := []
  cwd : Place := []
  deriving Repr

/-- Why a path leads nowhere. -/
inductive FileError where
  | notFound
  | notDirectory
  | isDirectory
  | linkLoop
  deriving DecidableEq, Repr

namespace FileError

/-- The number of an error of the operating system. -/
def code : FileError → Nat
  | notFound => 2
  | notDirectory => 20
  | isDirectory => 21
  | linkLoop => 40

/-- The words for an error. -/
def words : FileError → String
  | notFound => "No such file or directory"
  | notDirectory => "Not a directory"
  | isDirectory => "Is a directory"
  | linkLoop => "Too many levels of symbolic links"

/-- The report of an error of a path. -/
def message (e : FileError) (path : String) : String :=
  s!"[Errno {e.code}] {e.words}: {Text.quote path}"

end FileError

/-- Why a path has no real place. A loop is told by the parts from the root on that lead into it. -/
inductive PathError where
  | linkLoop (parts : List String)
  | nullCharacter
  deriving DecidableEq, Repr

namespace PathError

/-- The words for an error. -/
def message : PathError → String
  | linkLoop parts => "Symlink loop from " ++ Text.quote (Path.mk "/" parts).toString
  | nullCharacter => "embedded null byte"

/-- The error of a way that has further parts. -/
def followedBy (rest : List String) : PathError → PathError
  | linkLoop parts => linkLoop (parts ++ rest)
  | nullCharacter => nullCharacter

end PathError

namespace FileStore

/-- The entry at a place. The root of the store is a directory. -/
def entryAt? (fs : FileStore) (place : Place) : Option Entry :=
  if place.isEmpty then some .directory else fs.entries.lookup place

/-- The place from which a path counts. -/
def base (fs : FileStore) (p : Path) : Place := if p.isAbsolute then [] else fs.cwd

/-- The place from which the target of a link counts that lies in a directory. -/
def targetBase (here : Place) (target : Path) : Place := if target.isAbsolute then [] else here

/-- The number of links that are followed on one way. -/
def maxLinks : Nat := 40

/-- The place that parts lead to from a directory, where at most so many links may be followed. -/
def follow (fs : FileStore) (links : Nat) (here : Place) (parts : List String) :
    Except FileError Place :=
  match parts with
  | [] => .ok here
  | part :: rest =>
      match fs.entryAt? here with
      | some .directory =>
          if part = ".." then
            fs.follow links here.dropLast rest
          else
            match fs.entryAt? (here ++ [part]) with
            | none => .error .notFound
            | some (.link target) =>
                match links with
                | 0 => .error .linkLoop
                | links + 1 =>
                    fs.follow links (targetBase here target) (target.parts ++ rest)
            | some _ => fs.follow links (here ++ [part]) rest
      | _ => .error .notDirectory
termination_by (links, parts.length)

/-- The place that a path leads to. -/
def locate (fs : FileStore) (p : Path) : Except FileError Place :=
  fs.follow maxLinks (fs.base p) p.parts

/-- The entry that a path leads to. -/
def find? (fs : FileStore) (p : Path) : Option Entry :=
  match fs.locate p with
  | .ok place => fs.entryAt? place
  | .error _ => none

/-- Whether a path leads to a file. -/
def isFile (fs : FileStore) (p : Path) : Bool :=
  match fs.find? p with
  | some (.file _) => true
  | _ => false

/-- Whether a path leads to a directory. -/
def isDirectory (fs : FileStore) (p : Path) : Bool :=
  match fs.find? p with
  | some .directory => true
  | _ => false

/-- The entries outside of some places. -/
def outside (fs : FileStore) (places : List Place) : List (Place × Entry) :=
  fs.entries.filter fun entry => !places.contains entry.1

theorem mem_entries_of_entryAt? {fs : FileStore} {place : Place} {e : Entry} (hplace : place ≠ [])
    (h : fs.entryAt? place = some e) : (place, e) ∈ fs.entries := by
  rw [entryAt?, if_neg (by simpa using hplace)] at h
  obtain ⟨before, after, hentries, -⟩ := List.lookup_eq_some_iff.mp h
  rw [hentries]
  exact List.mem_append_right before List.mem_cons_self

/-- Fewer entries are outside of one place more. -/
theorem length_outside_cons_lt {fs : FileStore} {place : Place} {places : List Place} {e : Entry}
    (hplace : place ≠ []) (h : fs.entryAt? place = some e) (hnot : place ∉ places) :
    (fs.outside (place :: places)).length < (fs.outside places).length := by
  have hsplit : fs.outside (place :: places) =
      (fs.outside places).filter fun entry => !entry.1 == place := by
    rw [outside, outside, List.filter_filter]
    refine List.filter_congr fun entry _ => ?_
    rw [List.contains_cons, Bool.not_or]
  rw [hsplit, List.length_filter_lt_length_iff_exists]
  refine ⟨(place, e), List.mem_filter.mpr ⟨mem_entries_of_entryAt? hplace h, ?_⟩, by simp⟩
  simpa using hnot

/-- The real place of parts below a directory, while some links are being followed. A link is
followed to its own real place before the parts behind it are looked at. The parts from a link on
that is already being followed are kept as they are spelled. -/
def settle (fs : FileStore) (active : List Place) (here : Place) (parts : List String) :
    Except PathError Place :=
  match parts with
  | [] => .ok here
  | part :: rest =>
      if part = ".." then
        fs.settle active here.dropLast rest
      else
        match _ : fs.entryAt? (here ++ [part]) with
        | some (.link target) =>
            if _ : here ++ [part] ∈ active then
              .error (.linkLoop (here ++ part :: rest))
            else
              match fs.settle ((here ++ [part]) :: active) (targetBase here target)
                  target.parts with
              | .ok place => fs.settle active place rest
              | .error e => .error (e.followedBy rest)
        | some _ => fs.settle active (here ++ [part]) rest
        | none =>
            if Path.hasNull part then .error .nullCharacter
            else fs.settle active (here ++ [part]) rest
termination_by ((fs.outside active).length, parts.length)
decreasing_by
  · exact Prod.Lex.right _ (by simp)
  · exact Prod.Lex.left _ _ (length_outside_cons_lt (by simp) ‹_› ‹_›)
  · exact Prod.Lex.right _ (by simp)
  · exact Prod.Lex.right _ (by simp)
  · exact Prod.Lex.right _ (by simp)

section Settle

variable {fs : FileStore} {active : List Place} {here : Place} {part : String} {rest : List String}

@[simp] theorem settle_nil : fs.settle active here [] = .ok here := by
  rw [settle]

@[simp] theorem settle_up : fs.settle active here (".." :: rest) =
    fs.settle active here.dropLast rest := by
  rw [settle, if_pos rfl]

theorem settle_cons (hpart : part ≠ "..") :
    fs.settle active here (part :: rest) =
      match fs.entryAt? (here ++ [part]) with
      | some (.link target) =>
          if here ++ [part] ∈ active then
            .error (.linkLoop (here ++ part :: rest))
          else
            match fs.settle ((here ++ [part]) :: active) (targetBase here target) target.parts with
            | .ok place => fs.settle active place rest
            | .error e => .error (e.followedBy rest)
      | some _ => fs.settle active (here ++ [part]) rest
      | none =>
          if Path.hasNull part then .error .nullCharacter
          else fs.settle active (here ++ [part]) rest := by
  rw [settle, if_neg hpart]
  split
  · next target hentry =>
      simp only [hentry]
      split <;> rfl
  · next e hnolink hentry =>
      rw [hentry]
      cases e with
      | link target => exact absurd rfl (hnolink target)
      | _ => rfl
  · next hentry => rw [hentry]

end Settle

/-- The place that parts from the root on are spelled to lie at. A loop of links is an error only if
it is met on the way to this place, since double dots may have led out of it. -/
def placeAsSpelled (fs : FileStore) (parts : List String) : Except PathError Place :=
  let place := Place.ofParts parts
  if place.any Path.hasNull then
    .error .nullCharacter
  else
    match fs.follow maxLinks [] place with
    | .error .linkLoop => .error (.linkLoop place)
    | _ => .ok place

/-- The real place of a path, whether or not anything lies there. There is no limit to the links on
the way, and a way without a loop ends at a place that no link lies on. -/
def resolve (fs : FileStore) (p : Path) : Except PathError Place :=
  match fs.settle [] (fs.base p) p.parts with
  | .error (.linkLoop parts) => fs.placeAsSpelled parts
  | settled => settled

/-- The bytes of the file that a path leads to. -/
def read (fs : FileStore) (p : Path) : Except FileError Bytes := do
  match fs.entryAt? (← fs.locate p) with
  | some (.file bytes) => return bytes
  | _ => throw .isDirectory

/-- Entries with another one at a place, which comes last if nothing lay there. -/
def putEntry (place : Place) (e : Entry) : List (Place × Entry) → List (Place × Entry)
  | [] => [(place, e)]
  | (other, old) :: rest =>
      if place == other then (other, e) :: rest else (other, old) :: putEntry place e rest

/-- The store with an entry put at a place. -/
def put (fs : FileStore) (place : Place) (e : Entry) : FileStore :=
  { fs with entries := putEntry place e fs.entries }

/-- The store with other bytes in the file that a path leads to. A path that leads nowhere changes
nothing. -/
def write (fs : FileStore) (p : Path) (bytes : Bytes) : FileStore :=
  match fs.locate p with
  | .ok place => fs.put place (.file bytes)
  | .error _ => fs

/-- The store with the directories down to a place. -/
def putDirectories (fs : FileStore) (place : Place) : FileStore :=
  (List.range place.length).foldl (fun fs n =>
    let here := place.take (n + 1)
    if (fs.entryAt? here).isSome then fs else fs.put here .directory) fs

end FileStore

end PeriodLint
