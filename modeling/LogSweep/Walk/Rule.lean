import LogSweep.Glob.Expression
import LogSweep.Glob.Reader
import LogSweep.Path
import LogSweep.Text.Character

/-!
# Ignore rules

A rule is a glob that is matched against paths relative to a directory. A leading `!` turns the rule
around, a trailing slash restricts it to directories, and a glob without a slash applies at every
depth. Of all rules that match, the last one decides.
-/

namespace LogSweep.Walk

/-- What rules say about a path. -/
inductive Decision where
  | ignored
  | kept
  deriving DecidableEq, Repr, Inhabited

/-- The opposite decision. -/
def Decision.inverse : Decision → Decision
  | .ignored => .kept
  | .kept => .ignored

structure Rule where
  tokens : List Glob.Token
  decision : Decision
  onlyDirectories : Bool
  pattern : Glob.Pattern := Glob.pattern tokens
  deriving Repr, Inhabited

/-- A line that is not a rule. -/
structure RuleFault where
  line : String
  fault : Glob.Fault
  deriving DecidableEq, Repr, Inhabited

def RuleFault.message (f : RuleFault) : String :=
  s!"error parsing glob '{f.line}': {f.fault.message}"

/-- Drops the white space at the end of a line, unless its last blank is escaped. -/
def trimLine (line : List Char) : List Char :=
  match line.reverse with
  | ' ' :: '\\' :: _ => line
  | reversed => (reversed.dropWhile Text.isBlank).reverse

/-- The mark in front of a line: what the rule decides, whether the glob starts at the directory of
the file, and the glob. -/
def readMark (line : List Char) : Decision × Bool × List Char :=
  match line with
  | '\\' :: '!' :: _ | '\\' :: '#' :: _ => (.ignored, false, line.drop 1)
  | '!' :: '/' :: rest => (.kept, true, rest)
  | '!' :: rest => (.kept, false, rest)
  | '/' :: rest => (.ignored, true, rest)
  | _ => (.ignored, false, line)

/-- The end of a glob: whether it applies to directories only, and the glob without its slash. -/
def readEnd (glob : List Char) : Bool × List Char :=
  match glob.reverse with
  | '/' :: '\\' :: rest => (true, rest.reverse)
  | '/' :: rest => (true, rest.reverse)
  | _ => (false, glob)

/-- The glob to match against relative paths. -/
def anchored (isAnchored : Bool) (glob : List Char) : List Char :=
  let deep := !isAnchored && !glob.contains '/' && glob != ['*', '*']
  let glob := if deep then ['*', '*', '/'] ++ glob else glob
  if ['/', '*', '*'].isSuffixOf glob then glob ++ ['/', '*'] else glob

/-- Reads a line. Empty lines and comments are no rules. -/
def readRule (lenient : Bool) (line : List Char) : Except RuleFault (Option Rule) :=
  if line.head? == some '#' then .ok none else
  let line := trimLine line
  if line.isEmpty then .ok none else
  let (decision, isAnchored, glob) := readMark line
  let (onlyDirectories, glob) := readEnd glob
  match Glob.read lenient (anchored isAnchored glob) with
  | .error fault => .error ⟨String.ofList line, fault⟩
  | .ok tokens => .ok (some { tokens, decision, onlyDirectories })

/-- Whether a rule applies to a path. -/
def Rule.applies (r : Rule) (path : Bytes) (isDirectory : Bool) : Bool :=
  (isDirectory || !r.onlyDirectories) && r.pattern.isMatch path

/-- What rules decide about a path, when one of them applies. -/
def decide? (rules : List Rule) (path : Bytes) (isDirectory : Bool) : Option Decision :=
  (rules.reverse.find? (·.applies path isDirectory)).map (·.decision)

/-! ## Rules of a directory -/

/-- Why rules do not work together: the expression of a glob is nested too deeply. -/
inductive SetFault where
  /-- The glob has an expression of its own. -/
  | alone (expression : String)
  /-- The glob is one of those that are searched for together. -/
  | among (index : Nat)
  deriving DecidableEq, Repr, Inhabited

def SetFault.message : SetFault → String
  | .alone expression => s!"error parsing glob '{expression}': error parsing pattern 0"
  | .among index => s!"error parsing pattern {index}"

/-- Whether the expression of a rule is nested too deeply. -/
def Rule.isTooDeep (r : Rule) : Bool :=
  Glob.nestLimit < Glob.height r.tokens

/-- The first fault of rules as a set. -/
def setFault? (rules : List Rule) : Option SetFault :=
  let searched := fun how => rules.filter fun r => Glob.search r.tokens == how
  match (searched .extension).find? Rule.isTooDeep with
  | some r => some (.alone (Glob.expression r.tokens))
  | none => ((searched .expression).findIdx? Rule.isTooDeep).map .among

/-- A path without a front part; the path itself when it does not begin with it. -/
def without (front path : String) : String :=
  if front.toList.isPrefixOf path.toList then String.ofList (path.toList.drop front.length)
  else path

/-- A path without one leading `./`. -/
def withoutDot (path : String) : String :=
  without "./" path

/-- A path as seen from the walked directory with the given path. Paths are compared as texts, so
that a directory that is spelled in another way is not recognized. -/
def relative (directory path : String) : String :=
  let path := withoutDot path
  let directory := withoutDot directory
  if Path.parts directory == [.here] || !path.toList.contains '/' then path
  else if directory.toList.isPrefixOf path.toList then without "/" (without directory path)
  else path

/-- What the rules of a directory decide about a path. -/
def decideIn? (directory : String) (rules : List Rule) (path : String) (isDirectory : Bool) :
    Option Decision :=
  decide? rules (Bytes.ofString (relative directory path)) isDirectory

end LogSweep.Walk
