import PeriodLint.Files.Path

/-!
# Arguments of the command line

The first argument names a command. Options of a check may stand before and
after its paths, short ones may be joined, and after two dashes everything is a
path. What does not fit is a usage error.
-/

namespace PeriodLint

/-- What a check was asked for. -/
structure CheckRequest where
  paths : List Path := []
  diff : Bool := false
  fix : Bool := false
  verbose : Bool := false
  help : Bool := false
  deriving DecidableEq, Repr

/-- What the command line asks for. -/
inductive Command where
  | check (request : CheckRequest)
  | serve
  | help
  deriving DecidableEq, Repr

namespace CheckRequest

/-- Take up a long option, given without its value. -/
def setLong (r : CheckRequest) (option : String) : Option CheckRequest :=
  if option = "--diff" then some { r with diff := true }
  else if option = "--fix" then some { r with fix := true }
  else if option = "--verbose" then some { r with verbose := true }
  else if option = "--help" then some { r with help := true }
  else none

/-- Take up short options that are joined after one dash. -/
def setShort (r : CheckRequest) (letters : List Char) : Option CheckRequest :=
  letters.foldlM (fun r c => if c = 'v' then some { r with verbose := true } else none) r

/-- Take up a path. -/
def addPath (r : CheckRequest) (spelling : String) : CheckRequest :=
  { r with paths := r.paths ++ [Path.ofString spelling] }

/-- Take up the arguments of a check from the left. -/
def ofArguments (r : CheckRequest) : List String → Option CheckRequest
  | [] => some r
  | argument :: rest =>
      match argument.toList with
      | ['-', '-'] => some (rest.foldl addPath r)
      | '-' :: '-' :: _ => do ofArguments (← r.setLong argument) rest
      | '-' :: c :: cs => do ofArguments (← r.setShort (c :: cs)) rest
      | _ => ofArguments (r.addPath argument) rest

end CheckRequest

namespace Command

/-- The command for a check, of which help is asked with the options. -/
def ofCheck (r : CheckRequest) : Command := if r.help then help else check r

/-- The command for a server, which takes no paths and no options but the one for help. -/
def ofServe (r : CheckRequest) : Option Command :=
  if r.diff || r.fix || r.verbose then none
  else if r.help then some help
  else if r.paths.isEmpty then some serve
  else none

/-- The command that the first argument names. -/
def named? : List String → Option Command
  | "--help" :: _ => some help
  | "check" :: [] => none
  | "check" :: rest => (CheckRequest.ofArguments {} rest).map ofCheck
  | "serve" :: rest => do ofServe (← CheckRequest.ofArguments {} rest)
  | _ => none

/-- The command that arguments ask for, if they are well used. -/
def ofArguments : List String → Option Command
  | "--" :: rest => named? rest
  | rest => named? rest

end Command

end PeriodLint
