import LogSweep.CommandLine.Help
import LogSweep.CommandLine.Reader
import LogSweep.CommandLine.Run

/-!
# The program

Reads the part of the file system that a run can see, finds out which files the system refuses to
read or to write, runs, and writes changed files back.
-/

namespace LogSweep.Program

open Files

/-- The files that settings and ignore rules are read from, in a directory above the files to sweep.
-/
def notable : List (List String) :=
  [[Settings.configName], [Settings.manifestName], [".ignore"], [".gitignore"], [".git"],
    [".git", "info"], [".git", "info", "exclude"], [".jj"]]

/-- The bytes of a file; there are none in one that cannot be read. -/
def readFile (path : String) : IO Bytes := do
  try return (← IO.FS.readBinFile path).toList
  catch _ => return []

/-- The entry at a location, if there is one. A link leads to where it finally ends. -/
def readEntry? (location : Location) : IO (Option Entry) := do
  let path := (← IO.currentDir) / absolutePath location
  try
    match (← path.symlinkMetadata).type with
    | .dir => return some .directory
    | .file => return some (.file (← readFile path.toString))
    | .symlink =>
      if ← path.pathExists then return some (.link (← IO.FS.realPath path).toString)
      else return some (.link "missing/target")
    | .other => return none
  catch _ => return none

/-- Adds the entry at a location to a tree. -/
def addEntry (tree : Tree) (location : Location) : IO Tree := do
  match ← readEntry? location with
  | some entry => return tree.put location entry
  | none => return tree

/-- Adds a location, the directories above it, and the notable files there. -/
def addAbove (tree : Tree) (location : Location) : IO Tree := do
  let mut tree := tree
  for above in (List.range location.length).map location.take do
    for names in [] :: notable do
      tree ← addEntry tree (above ++ names)
  addEntry tree location

/-- The entries below a directory, except in folders that are left out. -/
partial def entriesBelow (excludes : List String) (location : Location)
    (found : Array (Location × Entry)) : IO (Array (Location × Entry)) := do
  let mut found := found
  let path := (← IO.currentDir) / absolutePath location
  for item in ← path.readDir do
    let below := location ++ [item.fileName]
    if let some entry ← readEntry? below then
      found := found.push (below, entry)
      if entry == .directory && !Walk.isExcluded excludes item.fileName then
        found ← entriesBelow excludes below found
  return found

def locationOf (path : String) : Location :=
  (Path.pieces path).filter (!·.isEmpty)

/-- Adds what a target leads to and all that lies above it. -/
def addTarget (tree : Tree) (cwd : Location) (target : String) : IO Tree := do
  let start := if Path.isAbsolute target then [] else cwd
  let pieces := (Path.pieces target).filter (!·.isEmpty)
  let mut tree := tree
  for n in List.range (pieces.length + 1) do
    let step := absolutePath (start ++ pieces.take n)
    tree ← addEntry tree (start ++ pieces.take n)
    if ← ((← IO.currentDir) / step).pathExists then
      tree ← addAbove tree (locationOf (← IO.FS.realPath step).toString)
  return tree

/-- Adds the files of a repository elsewhere that a `.git` file points to. -/
def addLinked (w : Workspace) (file : Location) : IO Tree := do
  let path := absolutePath file
  let .ok content := w.tree.read w.cwd path | return w.tree
  let .ok (some repository) := Walk.linkedRepository? path content | return w.tree
  let tree ← addTarget w.tree w.cwd (Path.join repository "commondir")
  let .ok (some shared) := Walk.sharedDirectory? { w with tree } repository | return tree
  addTarget tree w.cwd (Path.join shared "info/exclude")

/-- The path of the user's own ignore file. -/
def userIgnore? : IO (Option String) := do
  match ← IO.getEnv "XDG_CONFIG_HOME", ← IO.getEnv "HOME" with
  | some config, home =>
    if config.isEmpty then return home.map (Path.join · ".config/git/ignore")
    else return some (Path.join config "git/ignore")
  | none, home => return home.map (Path.join · ".config/git/ignore")

/-- The part of the file system that a run can see. -/
def load (arguments : CommandLine.Arguments) : IO Workspace := do
  let cwd := locationOf (← IO.FS.realPath (← IO.currentDir)).toString
  let mut tree ← addAbove {} cwd
  for names in notable do
    tree ← addEntry tree (cwd ++ names)
  for target in arguments.targets do
    tree ← addTarget tree cwd target
  let above : Workspace := { tree, cwd }
  let settings := (Settings.find above (arguments.targets.head?.getD ".")).settings
  let excludes := (arguments.plan settings).walk.excludes
  for target in arguments.targets do
    if let .ok (location, .directory) := above.find target then
      for (below, entry) in ← entriesBelow excludes location #[] do
        tree := tree.put below entry
  for (location, entry) in tree.entries do
    if location.getLast? == some ".git" && entry != .directory then
      tree ← addLinked { tree, cwd } location
  let userIgnore ← userIgnore?
  for path in userIgnore do
    tree ← addTarget tree cwd path
  return { tree, cwd, userIgnore }

/-- What the system says when it refuses an operation. -/
def refusalOf : IO.Error → Fault
  | .permissionDenied _ code details | .resourceExhausted _ code details =>
    .refused s!"{details} (os error {code})"
  | e => .refused e.toString

/-- Why the system does not open the file at a location, if it does not. -/
def openFault? (location : Location) (mode : IO.FS.Mode) : IO (Option Fault) := do
  try
    let _ ← IO.FS.Handle.mk (absolutePath location) mode
    return none
  catch e => return some (refusalOf e)

/-- Finds out which files the system refuses to read or to write. -/
def probe (w : Workspace) : IO Refusals := do
  let mut reads : List (Location × Fault) := []
  let mut writes : List (Location × Fault) := []
  for (location, entry) in w.tree.entries do
    if let .file _ := entry then
      if let some fault ← openFault? location .read then reads := (location, fault) :: reads
      if let some fault ← openFault? location .readWrite then writes := (location, fault) :: writes
  let among := fun (found : List (Location × Fault)) path =>
    match w.find path with
    | .ok (location, _) => found.lookup location
    | .error _ => none
  return { read := among reads, write := among writes }

/-- Writes the files back that differ. -/
def save (before after : Tree) : IO Unit := do
  for (location, entry) in after.entries do
    if let .file content := entry then
      if before.entry? location != some entry then
        IO.FS.writeBinFile (absolutePath location) (ByteArray.mk content.toArray)

/-- Runs what arguments ask for, and gives the exit code. -/
def run (arguments : CommandLine.Arguments) : IO UInt32 := do
  let workspace ← load arguments
  let input ← if arguments.select then (← IO.getStdin).readBinToEnd else pure ByteArray.empty
  let refusals ← probe workspace
  let ran := CommandLine.run workspace refusals arguments input.toList
  save workspace.tree ran.workspace.tree
  IO.eprint ran.diagnostics
  IO.print ran.output
  match ran.failure with
  | some message =>
    IO.eprintln s!"Error: {message}"
    return 1
  | none => return ran.code.toUInt32

end LogSweep.Program

def main (arguments : List String) : IO UInt32 := do
  match LogSweep.CommandLine.read arguments with
  | .error .help =>
    IO.print LogSweep.CommandLine.helpText
    return 0
  | .error .version =>
    IO.print LogSweep.CommandLine.versionLine
    return 0
  | .error (.misuse misuse) =>
    IO.eprint (LogSweep.CommandLine.usageText misuse)
    return 1
  | .ok arguments => LogSweep.Program.run arguments
