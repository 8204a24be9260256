import LogSweep.Json.Document
import LogSweep.Sweep.Script

/-!
# Reports

What a sweep reports: an entry for every file that something happened to, and totals over all files.
-/

namespace LogSweep

/-- What became of a file. -/
inductive FileState where
  | changed
  | unchanged
  | failed
  | cancelled
  deriving DecidableEq, Repr, Inhabited

def FileState.name : FileState → String
  | .changed => "changed"
  | .unchanged => "unchanged"
  | .failed => "failed"
  | .cancelled => "cancelled"

structure FileReport where
  /-- The path, in the form in which it is shown. -/
  file : String
  state : FileState
  deleted : Nat := 0
  redirected : Nat := 0
  skipped : Nat := 0
  changes : List Change := []
  error : Option String := none
  deriving DecidableEq, Repr, Inhabited

structure Summary where
  scanned : Nat := 0
  changed : Nat := 0
  deleted : Nat := 0
  redirected : Nat := 0
  skipped : Nat := 0
  failed : Nat := 0
  cancelled : Nat := 0
  isDryRun : Bool := false
  deriving DecidableEq, Repr, Inhabited

structure Report where
  target : String
  replacement : String
  summary : Summary := {}
  files : List FileReport := []
  deriving DecidableEq, Repr, Inhabited

namespace Report

/-- Whether a file deserves an entry of its own: something happened to it, or calls were left alone.
-/
def isListed (file : FileReport) : Bool :=
  file.state != .unchanged || 0 < file.skipped

/-- Adds a file to the totals. -/
def addTotals (s : Summary) (file : FileReport) : Summary :=
  { s with
    changed := s.changed + if file.state == .changed then 1 else 0
    failed := s.failed + if file.state == .failed then 1 else 0
    cancelled := s.cancelled + if file.state == .cancelled then 1 else 0
    deleted := s.deleted + file.deleted
    redirected := s.redirected + file.redirected
    skipped := s.skipped + file.skipped }

/-- The report on the files of a sweep. -/
def ofFiles (rules : Rules) (isDryRun : Bool) (files : List FileReport) : Report where
  target := rules.target
  replacement := rules.replacement
  summary := files.foldl addTotals { scanned := files.length, isDryRun }
  files := files.filter isListed

def hasFailures (r : Report) : Bool :=
  0 < r.summary.failed

def hasChanges (r : Report) : Bool :=
  0 < r.summary.changed

/-! ## As a document -/

def changeJson (c : Change) : Json :=
  let kind := match c.action with
    | .deleted => "deleted"
    | .redirected => "rewritten"
  .object <| [("line", .nat c.line), ("kind", .string kind)] ++
    c.parameter.toList.map fun name => ("handler_parameter", .string name.decode)

def fileJson (f : FileReport) : Json :=
  .object <|
    [("file", .string f.file), ("state", .string f.state.name), ("deleted", .nat f.deleted),
      ("rewritten", .nat f.redirected), ("skipped", .nat f.skipped)] ++
    (if f.changes.isEmpty then [] else [("changes", .array (f.changes.map changeJson))]) ++
    f.error.toList.map fun e => ("error", .string e)

def summaryJson (s : Summary) : Json :=
  .object [("files_scanned", .nat s.scanned), ("files_changed", .nat s.changed),
    ("deleted", .nat s.deleted), ("rewritten", .nat s.redirected), ("skipped", .nat s.skipped),
    ("failed", .nat s.failed), ("cancelled", .nat s.cancelled), ("dry_run", .bool s.isDryRun)]

def toJson (r : Report) : Json :=
  .object [("target_function", .string r.target), ("replacement_function", .string r.replacement),
    ("summary", summaryJson r.summary), ("files", .array (r.files.map fileJson))]

end Report

end LogSweep
