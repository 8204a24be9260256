import LogSweep.Text.Character
import LogSweep.Text.Word

/-!
# Rules

What a sweep looks for and what it puts in its place. Rules are checked before the command line uses
them: the two functions are dotted names, the keyword is a single name, and the functions differ, so
that a redirected call is not found again.
-/

namespace LogSweep

structure Rules where
  /-- The function whose call statements are swept. -/
  target : String := "console.log"
  /-- The function called instead inside error handlers. -/
  replacement : String := "console.error"
  /-- The keyword that introduces an error handler. -/
  keyword : String := "catch"
  deriving DecidableEq, Repr, Inhabited

namespace Rules

/-- Why rules are refused. -/
inductive Fault where
  | emptyTarget
  | sameFunction (name : String)
  | notFunction (name : String)
  | notKeyword (word : String)
  deriving DecidableEq, Repr, Inhabited

def Fault.message : Fault → String
  | .emptyTarget => "target function must not be empty"
  | .sameFunction name => s!"replacement function must differ from target function '{name}'"
  | .notFunction name => s!"'{name}' is not a function name (expected something like console.log)"
  | .notKeyword word => s!"'{word}' is not a keyword (expected something like catch)"

/-- A name begins with an ASCII letter, an underscore or a dollar sign. -/
def beginsName (c : Char) : Bool :=
  c.isAlpha || c == '_' || c == '$'

/-- A name goes on with word characters and dollar signs. -/
def continuesName (c : Char) : Bool :=
  Text.isWord c || c == '$'

def isName : List Char → Bool
  | [] => false
  | c :: cs => beginsName c && cs.all continuesName

/-- Names joined by single dots. -/
def isDottedName (s : List Char) : Bool :=
  (s.splitOn '.').all isName

/-- The first fault of the rules. -/
def fault? (r : Rules) : Option Fault :=
  if (Text.trim r.target.toList).isEmpty then some .emptyTarget
  else if !isDottedName r.target.toList then some (.notFunction r.target)
  else if !isDottedName r.replacement.toList then some (.notFunction r.replacement)
  else if !isName r.keyword.toList then some (.notKeyword r.keyword)
  else if r.target == r.replacement then some (.sameFunction r.target)
  else none

end Rules

end LogSweep
