/-!
# Scanning

A scan reads from the left of a text and either fails or yields a value and the
rest. Repetition is bounded by the length of the text, which is enough for
every step that reads something.
-/

namespace PeriodLint

/-- What a round of a repetition ends with. -/
inductive Round (σ α : Type) where
  | more (s : σ)
  | done (a : α)

/-- A reading of the start of a text. -/
abbrev Scan := StateT (List Char) Option

namespace Scan

variable {α σ : Type}

/-- The next character, which is not read. -/
def peek? : Scan (Option Char) := do return (← get).head?

/-- The rest of the text, which is not read. -/
def rest : Scan (List Char) := get

/-- Read one character. -/
def char : Scan Char := do
  match ← get with
  | [] => failure
  | c :: cs => set cs; return c

/-- Read one character of a class. -/
def satisfy (p : Char → Bool) : Scan Char := do
  let c ← char
  guard (p c)
  return c

/-- Read the given text. -/
def exactly (word : List Char) : Scan Unit := do
  let cs ← get
  guard (word.isPrefixOf cs)
  set (cs.drop word.length)

/-- Whether the rest starts with a text, which is read if it does. -/
def accept (word : List Char) : Scan Bool := do
  let cs ← get
  if word.isPrefixOf cs then
    set (cs.drop word.length)
    return true
  else
    return false

/-- Read the longest run of a class. -/
def takeWhile (p : Char → Bool) : Scan (List Char) := do
  let cs ← get
  set (cs.dropWhile p)
  return cs.takeWhile p

/-- Read over the longest run of a class. -/
def skipWhile (p : Char → Bool) : Scan Unit := do set ((← get).dropWhile p)

/-- At most so many rounds. -/
def rounds (step : σ → Scan (Round σ α)) : Nat → σ → Scan α
  | 0, _ => failure
  | n + 1, s => do
      match ← step s with
      | .more s => rounds step n s
      | .done a => return a

/-- Repeat a step that reads something in every round but the last. -/
def repeatFrom (s : σ) (step : σ → Scan (Round σ α)) : Scan α := do
  rounds step ((← get).length + 1) s

end Scan

end PeriodLint
