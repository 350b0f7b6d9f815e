import PeriodLint.Text.Interval

/-!
# Blanks and line breaks

A blank is a separator of Unicode, the next-line control, or one of the two
runs of controls around the tab and the file separator. The breaks that end a
line of running text are a subset of them.
-/

namespace PeriodLint.Text

/-- The blanks, as intervals of code points. -/
def blankIntervals : List (Nat × Nat) :=
  [(0x9, 0xD), (0x1C, 0x20), (0x85, 0x85), (0xA0, 0xA0), (0x1680, 0x1680), (0x2000, 0x200A),
    (0x2028, 0x2029), (0x202F, 0x202F), (0x205F, 0x205F), (0x3000, 0x3000)]

/-- Separators and blank controls. -/
def isBlank (c : Char) : Bool := within blankIntervals c

/-- The line breaks of running text, as intervals of code points. -/
def breakIntervals : List (Nat × Nat) :=
  [(0xA, 0xD), (0x1C, 0x1E), (0x85, 0x85), (0x2028, 0x2029)]

/-- A character that ends a line of running text. -/
def isBreak (c : Char) : Bool := within breakIntervals c

/-- The text without the blanks at its two ends. -/
def strip (cs : List Char) : List Char :=
  ((cs.dropWhile isBlank).reverse.dropWhile isBlank).reverse

/-- The lines of running text. A carriage return and a line feed in a row are one break, and a
break at the end of the text opens no further line. -/
def breakLines : List Char → List (List Char)
  | [] => []
  | '\r' :: '\n' :: cs => [] :: breakLines cs
  | c :: cs =>
      if isBreak c then
        [] :: breakLines cs
      else
        match breakLines cs with
        | [] => [[c]]
        | line :: lines => (c :: line) :: lines

end PeriodLint.Text
