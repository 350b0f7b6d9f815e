/-!
# Lines and their starts

A line of source text is ended by a line feed and by nothing else. Every text
has at least one line, and a line feed at its end opens a further empty one.
-/

namespace PeriodLint.Text

/-- The pieces of a text between the occurrences of a separator. There is one piece more than there
are separators. -/
def pieces (separator : Char) : List Char → List (List Char)
  | [] => [[]]
  | c :: cs =>
      if c = separator then
        [] :: pieces separator cs
      else
        match pieces separator cs with
        | [] => [[c]]
        | piece :: rest => (c :: piece) :: rest

/-- The lines of a text, without their line feeds. -/
def lines (cs : List Char) : List (List Char) := pieces '\n' cs

/-- The offsets at which the given lines begin when the first begins at `offset`, and after them
the offset at which a further line would begin. -/
def startsFrom (offset : Nat) : List (List Char) → List Nat
  | [] => [offset]
  | line :: rest => offset :: startsFrom (offset + line.length + 1) rest

/-- The offset of every line of a text, and one offset past the end of the text. -/
def lineStarts (cs : List Char) : List Nat := startsFrom 0 (lines cs)

theorem length_startsFrom (offset : Nat) (ls : List (List Char)) :
    (startsFrom offset ls).length = ls.length + 1 := by
  induction ls generalizing offset with
  | nil => rfl
  | cons line rest ih => simp [startsFrom, ih]

theorem pieces_ne_nil (separator : Char) (cs : List Char) : pieces separator cs ≠ [] := by
  induction cs with
  | nil => simp [pieces]
  | cons c cs ih =>
      unfold pieces
      split
      · simp
      · split <;> simp

end PeriodLint.Text
