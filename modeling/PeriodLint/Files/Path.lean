import PeriodLint.Text.Blank
import PeriodLint.Text.Line

/-!
# Paths

A path is a list of parts below a root, or below the working directory where it
has no root. Empty parts and single dots are dropped, and double dots are kept,
because what is above a link is not known from the path alone.
-/

namespace PeriodLint

/-- A path as it is spelled. `root` is empty for a path below the working directory. -/
structure Path where
  root : String := ""
  parts : List String := []
  deriving DecidableEq, Repr

namespace Path

/-- The root that a spelling starts with. Exactly two slashes are a root of their own. -/
def rootOf : List Char → String
  | '/' :: '/' :: '/' :: _ => "/"
  | '/' :: '/' :: _ => "//"
  | '/' :: _ => "/"
  | _ => ""

/-- The parts of a spelling. -/
def partsOf (cs : List Char) : List String :=
  ((Text.pieces '/' cs).map String.ofList).filter fun part => part != "" && part != "."

/-- The path with a spelling. -/
def ofString (s : String) : Path := ⟨rootOf s.toList, partsOf s.toList⟩

/-- The spelling of a path. -/
def toString (p : Path) : String :=
  if p.root == "" && p.parts.isEmpty then "." else p.root ++ "/".intercalate p.parts

/-- Whether the path does not depend on the working directory. -/
def isAbsolute (p : Path) : Bool := p.root != ""

/-- A path below another. A path with a root is below nothing. -/
def join (p q : Path) : Path :=
  if q.isAbsolute then q else ⟨p.root, p.parts ++ q.parts⟩

/-- The path of an entry of a directory. -/
def child (p : Path) (name : String) : Path := { p with parts := p.parts ++ [name] }

/-- Whether a part holds a null character, as no name does. -/
def hasNull (part : String) : Bool := part.toList.contains '\x00'

/-- The last part, which is empty for a root and for the working directory. -/
def name (p : Path) : String := p.parts.getLast?.getD ""

/-- The directory that the path is spelled below, and the directories above it. -/
def ancestors (p : Path) : List Path :=
  (List.range p.parts.length).reverse.map fun n => { p with parts := p.parts.take n }

/-- The end of a name from its last dot on. A dot at either end of the name begins none. -/
def suffixOf (name : List Char) : List Char :=
  let tail := name.reverse.takeWhile (· != '.')
  if tail.isEmpty || name.length ≤ tail.length + 1 then [] else '.' :: tail.reverse

/-- The suffixes of Ruby files. -/
def rubySuffixes : List String := [".rb", ".rake", ".ru", ".gemspec"]

/-- The names of Ruby files that have no suffix. -/
def rubyNames : List String := ["Gemfile", "Rakefile"]

/-- Whether a file of this name is a Ruby file. -/
def isRubyName (name : String) : Bool :=
  rubySuffixes.contains (String.ofList (suffixOf name.toList)) || rubyNames.contains name

/-- Whether the path is that of a Ruby file. -/
def isRubyFile (p : Path) : Bool := isRubyName p.name

/-- Whether one list of parts comes before another: part by part, and a list before its
continuations. -/
def partsPrecede : List String → List String → Bool
  | [], _ => true
  | _ :: _, [] => false
  | a :: as, b :: bs => if a == b then partsPrecede as bs else a < b

end Path

end PeriodLint
