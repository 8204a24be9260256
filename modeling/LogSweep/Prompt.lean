import LogSweep.Path
import LogSweep.Selection
import LogSweep.Text.Lines

/-!
# Asking for a selection

The files are shown as a numbered list and lines of input are read until one is a selection. The end
of the input picks nothing.
-/

namespace LogSweep.Prompt

/-- What came of asking. -/
structure Result where
  /-- The files picked; `none` when a line of input was not text. -/
  picked : Option (List String)
  output : String
  unread : Bytes
  deriving DecidableEq, Repr, Inhabited

/-- A number padded with blanks on the left. -/
def padded (width n : Nat) : String :=
  let digits := toString n
  String.ofList (List.replicate (width - digits.length) ' ') ++ digits

/-- The numbered list of files. -/
def listing (files : List String) : String :=
  let width := (toString files.length).length
  let lines := files.zipIdx.map fun (file, i) => s!"  {padded width (i + 1)}) {Path.display file}\n"
  "Files to process:\n" ++ String.join lines

def question : String :=
  "Select files (e.g. 1,3-5 or !2; empty for all): "

/-- Reads lines until one is a selection, after the output so far. -/
def ask (files : List String) (output : String) : List Bytes → Result
  | [] => ⟨some [], output ++ question ++ "\n", []⟩
  | line :: rest =>
    match Bytes.decode? line with
    | none => ⟨none, output ++ question, rest.flatten⟩
    | some answer =>
      match Selection.read files.length answer.toList with
      | .ok selection => ⟨some (selection.apply files), output ++ question, rest.flatten⟩
      | .error fault =>
        ask files (output ++ question ++ s!"Invalid selection: {fault.message}\n") rest

/-- Asks which of the files to process; without files there is nothing to ask. -/
def select (files : List String) (input : Bytes) : Result :=
  if files.isEmpty then ⟨some [], "", input⟩ else ask files (listing files) (lines input)

end LogSweep.Prompt
