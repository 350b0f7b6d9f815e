/-!
# Logs

Records of what happened on the way to a result. A logged value carries its
records in the order in which they were made.
-/

namespace PeriodLint

/-- How important a record is. -/
inductive Level where
  | debug
  | info
  | warning
  deriving DecidableEq, Repr

/-- The events that are recorded. The cause for which a configuration is unreadable is told if it did
not open, and not told if it is no document. -/
inductive Event where
  | skippedSource
  | skippedFix (offset : Int)
  | unknownSeverity (shown : String)
  | published (count : Nat) (uri : String)
  | noConfiguration (start : String)
  | loadedConfiguration (path : String)
  | unreadableConfiguration (path : String) (cause : Option String)
  | fixedFile (path : String)
  | gitUnavailable (reason : String)
  deriving DecidableEq, Repr

namespace Event

/-- The importance of an event. -/
def level : Event → Level
  | unknownSeverity _ => .warning
  | unreadableConfiguration _ _ => .warning
  | fixedFile _ => .info
  | _ => .debug

/-- The words for an event. -/
def message : Event → String
  | skippedSource => "Skipping source with syntax errors"
  | skippedFix offset => s!"Skipping fix at offset {offset} overlapping an earlier fix"
  | unknownSeverity shown => s!"DTR001: ignoring unknown severity {shown}"
  | published count uri => s!"Publishing {count} diagnostics for {uri}"
  | noConfiguration start => s!"No allday configuration found above {start}"
  | loadedConfiguration path => s!"Loaded configuration from {path}"
  | unreadableConfiguration path cause =>
      s!"Ignoring unreadable {path}" ++ cause.elim "" (": " ++ ·)
  | fixedFile path => s!"Fixed {path}"
  | gitUnavailable reason => s!"git unavailable: {reason}"

end Event

/-- The word for a level. -/
def Level.name : Level → String
  | .debug => "DEBUG"
  | .info => "INFO"
  | .warning => "WARNING"

/-- A record as one line. -/
def Event.line (e : Event) : String := e.level.name ++ " " ++ e.message

/-- A value and the events on the way to it. -/
structure Logged (α : Type) where
  value : α
  log : List Event := []
  deriving Repr

namespace Logged

/-- Record one event. -/
def note (e : Event) : Logged Unit := ⟨(), [e]⟩

instance : Monad Logged where
  pure a := ⟨a, []⟩
  bind x f := ⟨(f x.value).value, x.log ++ (f x.value).log⟩

@[simp] theorem value_pure {α : Type} (a : α) : (pure a : Logged α).value = a := rfl

@[simp] theorem log_pure {α : Type} (a : α) : (pure a : Logged α).log = [] := rfl

@[simp] theorem value_bind {α β : Type} (x : Logged α) (f : α → Logged β) :
    (x >>= f).value = (f x.value).value := rfl

@[simp] theorem log_bind {α β : Type} (x : Logged α) (f : α → Logged β) :
    (x >>= f).log = x.log ++ (f x.value).log := rfl

instance : LawfulMonad Logged := LawfulMonad.mk' Logged
  (fun x => congrArg (Logged.mk _) (List.append_nil x.log))
  (fun _ _ => rfl)
  (fun x _ _ => congrArg (Logged.mk _) (List.append_assoc x.log _ _))

theorem value_mapM {α β : Type} (f : α → Logged β) (xs : List α) :
    (xs.mapM f).value = xs.map fun x => (f x).value := by
  induction xs with
  | nil => rfl
  | cons x xs ih => rw [List.mapM_cons, value_bind, value_bind, value_pure, ih, List.map_cons]

end Logged

end PeriodLint
