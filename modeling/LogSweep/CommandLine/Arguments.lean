/-!
# Arguments

What the arguments of a run ask for, and why they may ask for nothing that can be run.
-/

namespace LogSweep.CommandLine

/-- Where to look for files: in the given paths, or below a root that no write may leave. -/
structure Places where
  paths : List String := []
  root : Option String := none
  deriving DecidableEq, Repr, Inhabited

/-- The paths to walk; the current directory when none were given. -/
def Places.targets (p : Places) : List String :=
  match p.root with
  | some root => [root]
  | none => if p.paths.isEmpty then ["."] else p.paths

/-- What is run. -/
inductive Job where
  | sweep
  | files (places : Places) (json : Bool) (excluded : List String)
  | init
  deriving DecidableEq, Repr, Inhabited

structure Arguments where
  job : Job := .sweep
  places : Places := {}
  target : Option String := none
  replacement : Option String := none
  keyword : Option String := none
  extensions : List String := []
  excluded : List String := []
  included : List String := []
  only : List String := []
  skip : List String := []
  select : Bool := false
  json : Bool := false
  verbose : Bool := false
  quiet : Bool := false
  dryRun : Bool := false
  check : Bool := false
  deriving DecidableEq, Repr, Inhabited

/-- A mistake in the arguments. -/
inductive Misuse where
  | unknownArgument (argument : String)
  | unknownCommand (name : String)
  /-- An argument was given twice, or two that exclude each other. -/
  | conflict (first second : String)
  | missingValue (option : String)
  | emptyPath (option : String)
  | unexpectedValue (flag : String)
  deriving DecidableEq, Repr, Inhabited

def Misuse.message : Misuse → String
  | .unknownArgument argument => s!"unexpected argument '{argument}' found"
  | .unknownCommand name => s!"unrecognized subcommand '{name}'"
  | .conflict first second =>
    if first == second then s!"the argument '{first}' cannot be used multiple times"
    else s!"the argument '{first}' cannot be used with '{second}'"
  | .missingValue option => s!"a value is required for '{option}' but none was supplied"
  | .emptyPath option => s!"a value is required for '{option}' but none was supplied"
  | .unexpectedValue flag => s!"unexpected value for '{flag}' found; no more were expected"

/-- Why nothing is run. -/
inductive Stop where
  | help
  | version
  | misuse (misuse : Misuse)
  deriving DecidableEq, Repr, Inhabited

end LogSweep.CommandLine
