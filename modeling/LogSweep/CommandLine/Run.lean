import LogSweep.Command.Files
import LogSweep.Command.Init
import LogSweep.Command.Sweep
import LogSweep.CommandLine.Arguments
import LogSweep.Prompt
import LogSweep.Report.Text
import LogSweep.Text.Printable
import LogSweep.Walk.Collect

/-!
# Running

A run takes a workspace, arguments and the input of the user to a workspace, an exit code and what
is printed. It goes through stages: the settings are found and the rules checked, the files are
collected, and they are listed or swept. A file is swept once, so what the system refuses to do with
it is told by its path. A run is never cancelled.
-/

namespace LogSweep.CommandLine

open Files

def versionLine : String :=
  "rmlogs 0.1.0\n"

/-- How a run ends. -/
structure Ran where
  workspace : Workspace
  code : Nat := 0
  output : String := ""
  diagnostics : String := ""
  /-- Why the run was broken off; there is no exit code then. -/
  failure : Option String := none
  deriving DecidableEq, Repr, Inhabited

/-- Puts text that was printed before in front. -/
def Ran.after (r : Ran) (output diagnostics : String) : Ran :=
  { r with output := output ++ r.output, diagnostics := diagnostics ++ r.diagnostics }

/-- A run that ends with an error message. -/
def refuse (w : Workspace) (message : String) : Ran :=
  { workspace := w, code := 1, diagnostics := s!"Error: {message}\n" }

/-- Which folders are left out besides the default ones, or the default ones. -/
def exclusionLine (folders : List String) : String :=
  if folders.isEmpty then
    "[OK] Using default exclusions only: " ++ ", ".intercalate Walk.defaultExcludes ++ "\n"
  else "Excluding: " ++ ", ".intercalate folders ++ "\n"

/-! ## The plan of a run -/

/-- What a run is about to do, from its arguments and the settings. -/
structure Plan where
  rules : Rules
  walk : Walk.Options
  json : Bool
  verbose : Bool
  deriving DecidableEq, Repr, Inhabited

/-- The paths that a run is about. -/
def Arguments.targets (a : Arguments) : List String :=
  match a.job with
  | .files places _ _ => places.targets
  | _ => a.places.targets

def Arguments.prefersJson (a : Arguments) : Bool :=
  match a.job with
  | .files _ json _ => json
  | _ => a.json

/-- The rules of the settings, overridden by arguments. -/
def Arguments.rules (a : Arguments) (settings : Section) : Rules where
  target := a.target.getD settings.rules.target
  replacement := a.replacement.getD settings.rules.replacement
  keyword := a.keyword.getD settings.rules.keyword

/-- The file extensions of the arguments, or else of the settings. -/
def Arguments.allExtensions (a : Arguments) (settings : Section) : List String :=
  if a.extensions.isEmpty then settings.allExtensions
  else a.extensions.map Section.withoutDots

def Arguments.plan (a : Arguments) (settings : Section) : Plan where
  rules := a.rules settings
  walk :=
    { extensions := a.allExtensions settings
      excluded := settings.excluded.getD [] ++ a.excluded
      included := settings.included.getD [] ++ a.included
      only := a.only
      skip := a.skip }
  json := a.prefersJson
  verbose := a.verbose && !a.prefersJson

/-- The diagnostics at the start of a run. -/
def Plan.explain (p : Plan) (file : Option String) : String :=
  "[VERBOSE] rmlogs v0.1.0\n[VERBOSE] Using 1 threads\n" ++
    String.join (file.toList.map fun path => s!"[VERBOSE] Config: {path}\n") ++
    s!"[VERBOSE] Rules: {p.rules.target} -> {p.rules.replacement} " ++
    s!"inside '{p.rules.keyword}' blocks\n" ++
    s!"[VERBOSE] Extensions: {Text.quotedList p.walk.extensions}\n" ++
    s!"[VERBOSE] Global Excludes: {Text.quotedList p.walk.excluded}\n\n"

/-! ## Collecting -/

/-- The files of all targets. -/
structure Collected where
  files : List String
  diagnostics : String
  deriving DecidableEq, Repr, Inhabited

/-- Walks every target. -/
def walkAll (w : Workspace) (o : Walk.Options) :
    List String → Except Walk.GlobFault (List Walk.Found)
  | [] => .ok []
  | target :: rest =>
    match Walk.collect w o target with
    | .error fault => .error fault
    | .ok found =>
      match walkAll w o rest with
      | .error fault => .error fault
      | .ok others => .ok (found :: others)

/-- Collects the files of all targets in the order of paths, each once. -/
def collectAll (w : Workspace) (p : Plan) (o : Walk.Options) (targets : List String) :
    Except Walk.GlobFault Collected :=
  (walkAll w o targets).map fun found =>
    { files := Path.dropRepeated (Path.sort (found.flatMap (·.paths)))
      diagnostics := if p.verbose then String.join (found.map (·.explain)) else "" }

/-! ## Listing and sweeping -/

/-- Lists files. -/
def runFiles (w : Workspace) (refusals : Refusals) (p : Plan) (targets excluded : List String) :
    Ran :=
  let walk := { p.walk with excluded := p.walk.excluded ++ excluded }
  match collectAll w p walk targets with
  | .error fault => refuse w fault.message
  | .ok collected =>
    { workspace := w
      output := Command.printListings p.json (Command.listFiles w p.rules refusals collected.files)
      diagnostics := collected.diagnostics }

/-- The directory that no write may leave: the root, or the only target if it is a directory. -/
def confinement (w : Workspace) (root : Option String) (targets : List String) : Option String :=
  match root, targets with
  | some root, _ => some root
  | none, [target] => if w.isDirectory target then some target else none
  | none, _ => none

/-- The turn of a file in a run. -/
def turnOf (refusals : Refusals) (path : String) : Command.Turn :=
  { path, readFault := refusals.read path, writeFault := refusals.write path }

/-- Sweeps the files that were picked and reports on it. -/
def runSweep (w : Workspace) (refusals : Refusals) (a : Arguments) (p : Plan)
    (files : List String) : Ran :=
  let isDryRun := a.dryRun || a.check
  let options : Command.SweepOptions :=
    { isDryRun, json := p.json, quiet := a.quiet, verbose := p.verbose,
      root := confinement w a.places.root a.targets }
  let mode := if isDryRun then "dry-run" else "write"
  let start := if p.verbose then s!"[VERBOSE] Sweeping {files.length} files ({mode})\n" else ""
  let swept := Command.sweep w p.rules options (files.map (turnOf refusals))
  let report := swept.report
  let printed :=
    if p.json then report.toJson.render ++ "\n"
    else if a.quiet then report.quiet
    else report.full
  let isRejected := a.check && report.hasChanges
  let rejection :=
    if isRejected && !p.json then
      s!"\n[CHECK] {report.summary.changed} files contain {p.rules.target} - FAILED\n"
    else ""
  { workspace := swept.workspace
    code := if report.hasFailures || isRejected then 1 else 0
    output := swept.output ++ printed
    diagnostics := start ++ swept.diagnostics ++ rejection }

/-- Asks which files to sweep, if wanted, and sweeps them. -/
def runSelection (w : Workspace) (refusals : Refusals) (a : Arguments) (p : Plan)
    (files : List String) (input : Bytes) : Ran :=
  if files.isEmpty && !p.json then { workspace := w, output := "No matching files found.\n" }
  else if !a.select then runSweep w refusals a p files
  else
    let asked := Prompt.select files input
    let ran : Ran := match asked.picked with
      | none => { workspace := w, failure := some Fault.notText.message }
      | some [] => { workspace := w, output := "No files selected.\n" }
      | some picked => runSweep w refusals a p picked
    ran.after asked.output ""

/-- Collects files and sweeps them. -/
def runCollected (w : Workspace) (refusals : Refusals) (a : Arguments) (p : Plan) (input : Bytes) :
    Ran :=
  let ran := match collectAll w p p.walk a.targets with
    | .error fault => refuse w fault.message
    | .ok collected =>
      (runSelection w refusals a p collected.files input).after "" collected.diagnostics
  ran.after (if p.json || a.quiet then "" else exclusionLine p.walk.excluded) ""

/-- Creates a configuration file in the current directory. -/
def runInit (w : Workspace) (refusals : Refusals) : Ran :=
  let directory := absolutePath w.cwd
  let made := Command.init w directory (refusals.write (Path.join directory Settings.configName))
  { workspace := made.workspace, output := made.output, failure := made.fault.map (·.message) }

/-- Runs what the arguments ask for. -/
def run (w : Workspace) (refusals : Refusals) (a : Arguments) (input : Bytes) : Ran :=
  if a.job = .init then runInit w refusals else
  match a.targets.find? (!w.pathExists ·) with
  | some missing => refuse w s!"The file or directory '{missing}' does not exist."
  | none =>
    let found := Settings.find w (a.targets.head?.getD ".")
    let plan := a.plan found.settings
    match plan.rules.fault? with
    | some fault => refuse w fault.message
    | none =>
      let ran := match a.job with
        | .files _ _ excluded => runFiles w refusals plan a.targets excluded
        | _ => runCollected w refusals a plan input
      ran.after "" (if plan.verbose then plan.explain found.file else "")

end LogSweep.CommandLine
