import LogSweep.Report.Basic
import LogSweep.Text.Table

/-!
# Reports as text

The printed forms of a report: in full with a table of files, and as a summary only.
-/

namespace LogSweep.Report

/-- The box at the top of a report. -/
def header (isDryRun : Bool) : String :=
  let title :=
    if isDryRun then "║  Log Sweep Preview (dry run)           ║\n"
    else "║  Log Sweep Results                     ║\n"
  "\n╔════════════════════════════════════════╗\n" ++ title ++
    "╚════════════════════════════════════════╝\n\n"

/-- The totals. -/
def totals (s : Summary) : String :=
  s!"Removed: {s.deleted}  Rewritten: {s.redirected}  Skipped: {s.skipped}  Failed: {s.failed}\n" ++
    s!"Scanned {s.scanned} files, {s.changed} changed\n\n"

/-- The row of a file. -/
def row (f : FileReport) : List String :=
  [f.file, f.state.name, toString f.deleted, toString f.redirected, toString f.skipped]

/-- The table of files and the failures below it; nothing when no file is listed. -/
def fileTable (r : Report) : String :=
  if r.files.isEmpty then "" else
  let table := Text.TableStyle.box.draw ["File", "State", "Removed", "Rewritten", "Skipped"]
    (r.files.map row)
  let failures := r.files.filterMap (·.error)
  let listed :=
    if failures.isEmpty then ""
    else "\nFailures:\n" ++ String.join (failures.map fun e => s!"  {e}\n")
  table ++ "\n" ++ listed ++ "\n"

/-- The closing line. -/
def summaryLine (r : Report) : String :=
  let verb := if r.summary.isDryRun then "Would remove" else "Removed"
  s!"{verb} {r.target} from {r.summary.changed} files."

/-- The report in full. -/
def full (r : Report) : String :=
  header r.summary.isDryRun ++ totals r.summary ++ fileTable r ++ summaryLine r ++ "\n"

/-- The closing line, and the number of failures if there are any. -/
def quiet (r : Report) : String :=
  summaryLine r ++ "\n" ++
    if r.hasFailures then s!"[ERROR] {r.summary.failed} files failed\n" else ""

end LogSweep.Report
