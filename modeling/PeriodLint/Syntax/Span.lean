import PeriodLint.Syntax.Node
import PeriodLint.Text.Utf8

/-!
# Texts and positions of nodes

Nodes are located by byte offsets, whereas positions in reports count lines
from one and characters from zero. A column is found by decoding the bytes
between the start of the line and the offset.
-/

namespace PeriodLint

/-- A stretch of a text from a line and column to another. Positions that come from outside may be
negative. -/
structure Span where
  line : Int
  col : Int
  endLine : Int
  endCol : Int
  deriving DecidableEq, Repr

/-- The bytes of a text. -/
abbrev Bytes := List UInt8

/-- The line feed. -/
def lineFeed : UInt8 := 10

/-- The number of line feeds before an offset. -/
def rowAt (source : Bytes) (offset : Nat) : Nat := (source.take offset).count lineFeed

/-- The number of bytes between the start of its line and an offset. -/
def byteColumnAt (source : Bytes) (offset : Nat) : Nat :=
  ((source.take offset).reverse.takeWhile (· != lineFeed)).length

/-- The text of a stretch of bytes. -/
def textBetween (source : Bytes) (start stop : Nat) : List Char :=
  Utf8.decodeLossy ((source.take stop).drop start)

/-- The number of characters between the start of its line and an offset. -/
def columnAt (source : Bytes) (offset : Nat) : Nat :=
  (textBetween source (offset - byteColumnAt source offset) offset).length

namespace Node

/-- The source text that a node covers. -/
def text (source : Bytes) (n : Node) : String := String.ofList (textBetween source n.start n.stop)

/-- The position of a node in lines and characters. -/
def span (source : Bytes) (n : Node) : Span where
  line := rowAt source n.start + 1
  col := columnAt source n.start
  endLine := rowAt source n.stop + 1
  endCol := columnAt source n.stop

end Node

end PeriodLint
