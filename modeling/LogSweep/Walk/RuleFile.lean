import LogSweep.Files.Tree
import LogSweep.Text.Lines
import LogSweep.Walk.Rule

/-!
# Files of rules

An ignore file has a rule in each line. Lines that are not rules are faults and are passed over; a
line that is not text ends the file. When the rules do not work together, the file has none.
-/

namespace LogSweep.Walk

/-- A line without its line break. -/
def withoutBreak (line : Bytes) : Bytes :=
  match line.reverse with
  | Byte.newline :: Byte.carriageReturn :: rest => rest.reverse
  | Byte.newline :: rest => rest.reverse
  | _ => line

/-- What is wrong with a line. -/
inductive LineFault where
  | rule (fault : RuleFault)
  | notText
  deriving DecidableEq, Repr, Inhabited

def LineFault.message : LineFault → String
  | .rule fault => fault.message
  | .notText => Files.Fault.notText.message

/-- The rules of a file, and its faults with the numbers of their lines. -/
structure RuleFile where
  rules : List Rule := []
  faults : List (Nat × LineFault) := []
  deriving Repr, Inhabited

/-- Drops byte order marks. -/
def withoutMark (line : List Char) : List Char :=
  line.dropWhile (·.toNat == 0xFEFF)

/-- Reads lines, the first of which has the given number. -/
def RuleFile.ofLines (number : Nat) : List Bytes → RuleFile
  | [] => {}
  | line :: rest =>
    match Bytes.decode? (withoutBreak line) with
    | none => { faults := [(number, .notText)] }
    | some text =>
      let text := if number == 1 then withoutMark text.toList else text.toList
      let file := RuleFile.ofLines (number + 1) rest
      match readRule true text with
      | .ok rule => { file with rules := rule.toList ++ file.rules }
      | .error fault => { file with faults := (number, .rule fault) :: file.faults }

/-- Reads a file. -/
def RuleFile.ofContent (content : Bytes) : RuleFile :=
  .ofLines 1 (lines content)

/-- The rules of a file that work together. -/
def RuleFile.working (file : RuleFile) : List Rule :=
  if (setFault? file.rules).isSome then [] else file.rules

/-- The faults of a file with the given path, as they are shown. That a single line is not text is
not shown. -/
def RuleFile.messages (path : String) (file : RuleFile) : List String :=
  let lines := match file.faults with
    | [(_, .notText)] => []
    | faults => faults.map fun (number, fault) => s!"{path}: line {number}: {fault.message}"
  lines ++ (setFault? file.rules).toList.map SetFault.message

end LogSweep.Walk
