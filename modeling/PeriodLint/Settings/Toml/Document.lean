import PeriodLint.Settings.Toml.Key
import PeriodLint.Settings.Toml.Number

/-!
# TOML documents

A document is a list of statements: headers that open a table or append one to
an array of tables, and key-value pairs that fill the table opened last. What a
statement may not do to an earlier one is kept as marks on paths: a `closed`
path may not be opened by a header again, and a `frozen` path and all paths
below it may not be changed at all. Tables and arrays may be nested to any
depth.
-/

namespace PeriodLint.Toml

open Scan

/-- A path through tables. -/
abbrev Path := List String

/-- What is forbidden of a path. -/
inductive Mark where
  | closed
  | frozen
  deriving DecidableEq, Repr

/-- The marks that paths bear. -/
abbrev Marks := List (Path × Mark)

/-- Whether a path may not be opened again. -/
def Marks.closes (marks : Marks) (path : Path) : Bool := marks.contains (path, .closed)

/-- Whether a path may not be changed: some start of it is frozen. The whole document is not. -/
def Marks.freezes (marks : Marks) (path : Path) : Bool :=
  !path.isEmpty && marks.any fun (marked, mark) => mark == .frozen && marked.isPrefixOf path

/-- The marks without those of a path and the paths below it. -/
def Marks.release (marks : Marks) (path : Path) : Marks :=
  marks.filter fun (marked, _) => !path.isPrefixOf marked

/-- A table with the value of a key replaced in its place. -/
def replaceEntry (t : Table) (key : String) (value : Setting) : Table :=
  t.map fun (k, v) => if k == key then (k, value) else (k, v)

/-- The table at a path, changed. Missing tables on the way are created. An array of tables stands
for its last table, if arrays are passed through at all. -/
def changeAt (throughArrays : Bool) (change : Table → Option Table) :
    Path → Table → Option Table
  | [], t => change t
  | k :: ks, t =>
      match t.lookup k with
      | none => do
          let inner ← changeAt throughArrays change ks []
          some (t ++ [(k, .table inner)])
      | some (.table inner) => do
          let inner ← changeAt throughArrays change ks inner
          some (replaceEntry t k (.table inner))
      | some (.list items) =>
          match throughArrays, items.getLast? with
          | true, some (.table inner) => do
              let inner ← changeAt throughArrays change ks inner
              some (replaceEntry t k (.list (items.dropLast ++ [.table inner])))
          | _, _ => none
      | some _ => none

/-- A table with a new entry. A key that has a value may not get another. -/
def addEntry (key : String) (value : Setting) (t : Table) : Option Table :=
  if (t.lookup key).isSome then none else some (t ++ [(key, value)])

/-- A table with one more empty table in the array of a key. -/
def appendTable (key : String) (t : Table) : Option Table :=
  match t.lookup key with
  | none => some (t ++ [(key, .list [.table []])])
  | some (.list items) => some (replaceEntry t key (.list (items ++ [.table []])))
  | some _ => none

/-- An array or a table written as a value, which later statements may not change. -/
def isInline : Setting → Bool
  | .list _ => true
  | .table _ => true
  | _ => false

/-- A key, an equals sign and a value. -/
def pairWith (value : Scan Setting) : Scan (Path × Setting) := do
  let path ← key
  exactly ['=']
  spaces
  return (path, ← value)

/-- The rest of an array, after its bracket. -/
def arrayWith (value : Scan Setting) : Scan Setting := do
  gaps
  if ← accept [']'] then
    return .list []
  repeatFrom [] fun items => do
    let item ← value
    gaps
    if ← accept [']'] then
      return .done (.list (items ++ [item]))
    exactly [',']
    gaps
    if ← accept [']'] then
      return .done (.list (items ++ [item]))
    return .more (items ++ [item])

/-- The rest of an inline table, after its brace. -/
def inlineTableWith (value : Scan Setting) : Scan Setting := do
  spaces
  if ← accept ['}'] then
    return .table []
  repeatFrom (([], []) : Table × Marks) fun (t, marks) => do
    let (path, v) ← pairWith value
    guard (!marks.freezes path)
    match changeAt false (addEntry (path.getLast?.getD "") v) path.dropLast t with
    | none => failure
    | some t =>
        spaces
        if ← accept ['}'] then
          return .done (.table t)
        exactly [',']
        spaces
        return .more (t, if isInline v then (path, .frozen) :: marks else marks)

/-- A value whose parts are read by `inner`. -/
def valueWith (inner : Scan Setting) : Scan Setting := do
  match ← peek? with
  | some '"' => return .str (← text true)
  | some '\'' => return .str (← text true)
  | some '[' => do
      let _ ← char
      arrayWith inner
  | some '{' => do
      let _ ← char
      inlineTableWith inner
  | _ =>
      if ← accept "true".toList then return .bool true
      else if ← accept "false".toList then return .bool false
      else number

/-- A value in which at most so many arrays and tables are nested. -/
def valueWithin : Nat → Scan Setting
  | 0 => failure
  | n + 1 => valueWith (valueWithin n)

/-- A value. Every nesting reads a bracket, so the rest of the text bounds the nestings. -/
def value : Scan Setting := do valueWithin ((← rest).length + 1)

/-- A document that has been read in part: its table, the path of the table opened last, the marks
in force, and the marks that come into force with the next header. -/
structure Draft where
  table : Table := []
  header : Path := []
  marks : Marks := []
  pending : Marks := []

namespace Draft

/-- Bring the pending marks into force. -/
def settle (d : Draft) : Draft := { d with marks := d.pending ++ d.marks, pending := [] }

/-- Open a table. -/
def openTable (d : Draft) (path : Path) : Option Draft := do
  guard (!d.marks.closes path && !d.marks.freezes path)
  let table ← changeAt true some path d.table
  return { d with table, header := path, marks := (path, .closed) :: d.marks }

/-- Append a table to an array of tables. -/
def openArray (d : Draft) (path : Path) : Option Draft := do
  guard (!d.marks.freezes path)
  let table ← changeAt true (appendTable (path.getLast?.getD "")) path.dropLast d.table
  return { d with table, header := path, marks := (path, .closed) :: d.marks.release path }

/-- The proper starts of a key, as paths of the document. -/
def outerPaths (header path : Path) : List Path :=
  (List.range (path.length - 1)).map fun i => header ++ path.take (i + 1)

/-- Set the value of a key in the table opened last. -/
def addPair (d : Draft) (path : Path) (v : Setting) : Option Draft := do
  let outer := outerPaths d.header path
  guard (!outer.any fun p => d.marks.closes p)
  let parent := d.header ++ path.dropLast
  guard (!d.marks.freezes parent)
  let table ← changeAt true (addEntry (path.getLast?.getD "") v) parent d.table
  let marks := if isInline v then (d.header ++ path, .frozen) :: d.marks else d.marks
  return { d with table, marks, pending := outer.map (·, .closed) ++ d.pending }

end Draft

/-- A header, after its first bracket. -/
def header (d : Draft) : Scan Draft := do
  let many ← accept ['[']
  spaces
  let path ← key
  exactly (if many then [']', ']'] else [']'])
  let opened := if many then d.settle.openArray path else d.settle.openTable path
  match opened with
  | some d => return d
  | none => failure

/-- The statement of a line. A line may be empty. -/
def statement (d : Draft) : Scan Draft := do
  match ← peek? with
  | none => return d
  | some '\n' => return d
  | some '#' => return d
  | some '[' => do
      let _ ← char
      let d ← header d
      spaces
      return d
  | some _ => do
      let (path, v) ← pairWith value
      spaces
      match d.addPair path v with
      | some d => return d
      | none => failure

/-- All statements, each on a line of its own. -/
def statements : Scan Table :=
  repeatFrom ({} : Draft) fun d => do
    spaces
    let d ← statement d
    comment
    match ← peek? with
    | none => return .done d.table
    | some _ => do
        exactly ['\n']
        return .more d

/-- The text with every carriage return before a line feed left out. -/
def normaliseBreaks : List Char → List Char
  | [] => []
  | '\r' :: '\n' :: cs => '\n' :: normaliseBreaks cs
  | c :: cs => c :: normaliseBreaks cs

/-- The table that a text writes, if it is a document. -/
def parse (cs : List Char) : Option Table := (statements (normaliseBreaks cs)).map (·.1)

end PeriodLint.Toml
