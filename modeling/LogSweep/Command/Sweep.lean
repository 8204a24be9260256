import LogSweep.Files.Confined
import LogSweep.Report.Basic
import LogSweep.Sweep.Source

/-!
# The sweep command

All files are read and swept in memory first. Then they are gone through in order, and each changed
file is shown or written back. A file that fails is reported and does not stop the sweep. What
happens to a file from outside, while the sweep goes on, is part of its turn: the sweep may have
been cancelled when the file is to be read, and the system may refuse to read or to write it.
-/

namespace LogSweep.Command

open Files

/-- The turn of a file: its path, and what comes from outside by the time it is reached. -/
structure Turn where
  path : String
  isCancelled : Bool := false
  /-- Why the system refuses to read the file, if it does. -/
  readFault : Option Fault := none
  /-- Why the system refuses to write the file, if it does. -/
  writeFault : Option Fault := none
  deriving DecidableEq, Repr, Inhabited

/-- What reading and sweeping a file in memory gave. -/
inductive Examined where
  | swept (outcome : Outcome)
  | failed (fault : SourceFault)
  | cancelled
  deriving DecidableEq, Repr, Inhabited

def Examined.isModified : Examined → Bool
  | .swept outcome => outcome.isModified
  | _ => false

/-- Reads a file and sweeps its text; after a cancellation the file is not read. -/
def examine (w : Workspace) (rules : Rules) (turn : Turn) : Examined :=
  if turn.isCancelled then .cancelled else
  match w.readSource turn.path turn.readFault with
  | .error fault => .failed fault
  | .ok text => .swept (sweepText rules (.ofPath turn.path) text)

structure SweepOptions where
  isDryRun : Bool := false
  json : Bool := false
  quiet : Bool := false
  verbose : Bool := false
  /-- The directory that no written file may lie outside of. -/
  root : Option String := none
  deriving DecidableEq, Repr, Inhabited

/-- Whether changes are shown as the sweep goes on. -/
def SweepOptions.shows (o : SweepOptions) : Bool :=
  !o.json && !o.quiet

/-- Whether diagnostics are written. -/
def SweepOptions.explains (o : SweepOptions) : Bool :=
  o.verbose && !o.json

/-- A sweep under way: the files as they are now, the entries so far, and what has been printed. -/
structure Progress where
  workspace : Workspace
  entries : List FileReport := []
  output : String := ""
  diagnostics : String := ""
  deriving DecidableEq, Repr, Inhabited

/-- How a change is announced in a dry run. -/
def announce (rules : Rules) (file : String) (c : Change) : String :=
  match c.action with
  | .deleted => s!"  Would remove {rules.target} at {file}:{c.line}\n"
  | .redirected => s!"  Would rewrite {rules.target} to {rules.replacement} at {file}:{c.line}\n"

/-- The outcome of finishing a file: the files afterwards, its entry, and what is printed. -/
structure Finished where
  workspace : Workspace
  entry : FileReport
  output : String := ""
  deriving DecidableEq, Repr, Inhabited

/-- Finishes a file whose text has been swept: a changed text is announced in a dry run and written
back otherwise. -/
def finish (w : Workspace) (rules : Rules) (o : SweepOptions) (turn : Turn) (outcome : Outcome) :
    Finished :=
  let file := Path.display turn.path
  let skipped := outcome.skipped.length
  let changed : FileReport :=
    { file, state := .changed, deleted := outcome.deleted, redirected := outcome.redirected,
      skipped, changes := outcome.changes }
  if !outcome.isModified then
    { workspace := w, entry := { file, state := .unchanged, skipped } }
  else if o.isDryRun then
    { workspace := w, entry := changed
      output := if o.shows then String.join (outcome.changes.map (announce rules file)) else "" }
  else
    match w.writeSource turn.path o.root outcome.text turn.writeFault with
    | .error fault =>
      { workspace := w
        entry := { file, state := .failed, skipped, error := some fault.message }
        output := if o.shows then s!"  Failed: {fault.message}\n" else "" }
    | .ok w =>
      { workspace := w, entry := changed
        output := if o.shows then
            s!"  Fixed: {file} ({outcome.deleted} removed, {outcome.redirected} rewritten)\n"
          else "" }

/-- The diagnostics on a file. -/
def explain (rules : Rules) (path : String) : Examined → String
  | .cancelled => ""
  | .failed fault => s!"[VERBOSE] {fault.message}\n"
  | .swept outcome =>
    let file := Path.display path
    s!"[VERBOSE] Processed {file}\n" ++ String.join (outcome.skipped.map fun s =>
      s!"[VERBOSE]   left {rules.target} at {file}:{s.line} unchanged ({s.reason.message})\n")

/-- Takes the next file. -/
def Progress.next (rules : Rules) (o : SweepOptions) (p : Progress) (turn : Turn)
    (examined : Examined) : Progress :=
  let file := Path.display turn.path
  let finished : Finished := match examined with
    | .cancelled => { workspace := p.workspace, entry := { file, state := .cancelled } }
    | .failed fault =>
      { workspace := p.workspace, entry := { file, state := .failed, error := some fault.message } }
    | .swept outcome => finish p.workspace rules o turn outcome
  { workspace := finished.workspace
    entries := p.entries ++ [finished.entry]
    output := p.output ++ finished.output
    diagnostics := p.diagnostics ++
      if o.explains then explain rules turn.path examined else "" }

/-- The line that comes before the first change. -/
def opening (o : SweepOptions) (examined : List (Turn × Examined)) : String :=
  if o.shows && examined.any (·.2.isModified) then
    if o.isDryRun then "\n[DRY-RUN] Changes that would be made:\n" else "\nApplying changes...\n"
  else ""

/-- The result of a sweep. -/
structure Swept where
  workspace : Workspace
  report : Report
  output : String
  diagnostics : String
  deriving DecidableEq, Repr, Inhabited

/-- Sweeps files, each in its turn. -/
def sweep (w : Workspace) (rules : Rules) (o : SweepOptions) (turns : List Turn) : Swept :=
  let examined := turns.map fun turn => (turn, examine w rules turn)
  let start : Progress := { workspace := w, output := opening o examined }
  let done := examined.foldl (fun p (turn, e) => p.next rules o turn e) start
  { workspace := done.workspace
    report := Report.ofFiles rules o.isDryRun done.entries
    output := done.output
    diagnostics := done.diagnostics }

end LogSweep.Command
