import PeriodLint.Grammar.Name
import PeriodLint.Syntax.Node
import PeriodLint.Text.Scan

/-!
# Reading a program

A reading consumes the start of a text, counts its bytes, and either fails or
yields a value. What nests is read through the `Inner` record, which holds the
same grammar one level further in. Every level is entered past at least one
character, so a text cannot nest deeper than it is long and the number of
characters bounds both the levels and the rounds of each repetition.
-/

namespace PeriodLint.Grammar

/-- A text that is announced on one line and stands below it. Its last line holds only the word,
which may be indented; a verbatim text has no code in it. -/
structure Heredoc where
  word : List Char
  indented : Bool
  verbatim : Bool

/-- What is left to read. -/
structure Cursor where
  rest : List Char
  offset : Nat := 0
  waiting : List Heredoc := []

/-- What the surroundings of an expression allow. -/
structure Context where
  /-- A line break ends the expression. -/
  lines : Bool := true
  /-- A call may take arguments without parentheses. -/
  commands : Bool := true
  /-- A call may take a block that starts with a word. -/
  doBlocks : Bool := true
  /-- A comma may be followed by a further target of an assignment. -/
  targets : Bool := true
  /-- A comma may be followed by a further part of a value or a pattern. -/
  lists : Bool := true
  /-- A list of targets may stand for itself. -/
  grouped : Bool := false
  /-- The words that end the surrounding construct. -/
  closers : List String := []

/-- The surroundings of a statement. -/
def Context.body (closers : List String) : Context := { closers }

/-- The surroundings of an element between brackets. -/
def Context.element : Context :=
  { lines := false, commands := false, targets := false, lists := false }

/-- The same surroundings for an operand, which may neither be a list nor take loose arguments. -/
def Context.operand (ctx : Context) : Context :=
  { ctx with commands := false, targets := false, lists := false, grouped := false }

/-- The same surroundings for a single value. -/
def Context.single (ctx : Context) : Context :=
  { ctx with targets := false, lists := false, grouped := false }

/-- The same surroundings for the value of an assignment. -/
def Context.assigned (ctx : Context) : Context := { ctx with targets := false, grouped := false }

/-- A reading that knows nothing of further levels. -/
abbrev Step := StateT Cursor Option

/-- The grammar one level further in, and a bound on the rounds of a repetition. -/
structure Inner where
  bound : Nat
  expression : Context → Nat → Step Node
  body : Context → Step (List Node)
  pattern : Context → Step Node
  parameters : Step (List Node)

/-- A reading of the start of a text. -/
abbrev Reading := ReaderT Inner Step

/-- A nested expression whose operators bind at least as strongly as a level. -/
def nested (ctx : Context) (level : Nat) : Reading Node := do (← read).expression ctx level

/-- Nested statements, up to what is none. -/
def nestedBody (closers : List String) : Reading (List Node) := do
  (← read).body (Context.body closers)

/-- At most so many rounds. -/
def rounds {σ α : Type} (step : σ → Reading (Round σ α)) : Nat → σ → Reading α
  | 0, _ => failure
  | n + 1, s => do
      match ← step s with
      | .more s => rounds step n s
      | .done a => return a

/-- Repeat a step that reads something in every round but the last. -/
def repeatFrom {σ α : Type} (s : σ) (step : σ → Reading (Round σ α)) : Reading α := do
  rounds step (← read).bound s

/-- The text that is left. -/
def rest : Reading (List Char) := do return (← get).rest

/-- The offset of the next byte. -/
def here : Reading Nat := do return (← get).offset

/-- The cursor some characters further on. -/
def Cursor.drop (cursor : Cursor) : Nat → Cursor
  | 0 => cursor
  | n + 1 =>
      match cursor.rest with
      | [] => cursor
      | c :: cs => { cursor with rest := cs, offset := cursor.offset + c.utf8Size }.drop n

@[simp] theorem Cursor.rest_drop (cursor : Cursor) (n : Nat) :
    (cursor.drop n).rest = cursor.rest.drop n := by
  induction n generalizing cursor with
  | zero => rfl
  | succ n ih =>
      rw [Cursor.drop]
      split
      · next h => rw [h, List.drop_nil]
      · next c cs h => rw [ih, h, List.drop_succ_cons]

@[simp] theorem Cursor.waiting_drop (cursor : Cursor) (n : Nat) :
    (cursor.drop n).waiting = cursor.waiting := by
  induction n generalizing cursor with
  | zero => rfl
  | succ n ih =>
      rw [Cursor.drop]
      split
      · rfl
      · rw [ih]

/-- Read so many characters. -/
def advance (count : Nat) : Reading Unit := modify (·.drop count)

/-- Whether a text comes next. -/
def isNext (text : String) : Reading Bool := do return text.toList.isPrefixOf (← rest)

/-- Run a reading and go back to where it started. -/
def lookahead {α : Type} (reading : Reading α) : Reading α := do
  let cursor ← get
  let a ← reading
  set cursor
  return a

/-- A node of so many characters. -/
def leaf (kind : String) (count : Nat) : Reading Node := do
  let start ← here
  advance count
  return { kind, start, stop := ← here }

/-- A token that is named by its own text. -/
def token (text : String) : Reading Node := do
  guard (← isNext text)
  return { (← leaf text text.length) with named := false }

/-- The token if it comes next. -/
def token? (text : String) : Reading (List Node) := do
  if ← isNext text then return [← token text] else return []

/-- The word that comes next. -/
def nextWord : Reading String := do return String.ofList (wordAt (← rest))

/-- A token that is a word of its own. -/
def keyword (word : String) : Reading Node := do
  guard ((← nextWord) == word)
  token word

/-- The word if it comes next. -/
def keyword? (word : String) : Reading (List Node) := do
  if (← nextWord) == word then return [← token word] else return []

end Grammar

/-- A node in a role for its parent. -/
def Node.playing (n : Node) (field : String) : Node := { n with field := some field }

/-- The node that spans its children. -/
def Node.over (kind : String) (children : List Node) : Node where
  kind := kind
  start := (children.head?.map Node.start).getD 0
  stop := (children.getLast?.map Node.stop).getD 0
  children := children

end PeriodLint
