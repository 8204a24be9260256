import LogSweep.Files.Tree
import LogSweep.Walk.RuleFile

/-!
# Ignore files

A directory may hold three files with ignore rules. The nearest directory whose file says something
about an entry decides for that kind of file, and `.ignore` files come before `.gitignore` files,
which come before the exclude file of a repository. The last two count only inside a repository, and
directories above its top do not count for it. The user's own ignore file comes last; it, too,
counts only inside a repository.
-/

namespace LogSweep.Walk

open Files

/-- What a directory brings along. -/
structure Local where
  ignore : List Rule := []
  gitIgnore : List Rule := []
  gitExclude : List Rule := []
  isRepository : Bool := false
  /-- What is wrong with its files. -/
  faults : List String := []
  deriving Repr, Inhabited

/-- Reads a file of rules; what cannot be read as a file has no rules. -/
def readRuleFile (w : Workspace) (path : String) : RuleFile :=
  match w.tree.read w.cwd path with
  | .ok content => .ofContent content
  | .error _ => {}

/-- The first line of a file: `none` when it has no lines. -/
def firstLine? (path : String) (content : Bytes) : Except String (Option String) :=
  match lines content with
  | [] | [[]] => .ok none
  | line :: _ =>
    match Bytes.decode? (withoutBreak line) with
    | none => .error s!"{path}: {Fault.notText.message}"
    | some text => .ok (some text)

/-- Where the repository lies that a `.git` file points to. -/
def linkedRepository? (path : String) (content : Bytes) : Except String (Option String) :=
  match firstLine? path content with
  | .error fault => .error fault
  | .ok none => .ok none
  | .ok (some line) =>
    if "gitdir: ".toList.isPrefixOf line.toList then .ok (some (without "gitdir: " line))
    else .ok none

/-- The directory that a linked repository shares with others. Its file `commondir` names it, from
the repository when it begins with a dot. -/
def sharedDirectory? (w : Workspace) (repository : String) : Except String (Option String) :=
  let path := Path.join repository "commondir"
  match w.tree.read w.cwd path with
  | .error .isDirectory => .error s!"{path}: {Fault.isDirectory.message}"
  | .error _ => .ok none
  | .ok content =>
    match firstLine? path content with
    | .error fault => .error fault
    | .ok none => .ok none
    | .ok (some line) =>
      .ok (some (if line.toList.head? == some '.' then Path.join repository line else line))

/-- The directory with the data of the repository whose top has the given path. -/
def repositoryData? (w : Workspace) (directory : String) : Except String (Option String) :=
  let path := Path.join directory ".git"
  if !w.isFile path then .ok (some path) else
  match w.tree.read w.cwd path with
  | .error _ => .ok none
  | .ok content =>
    match linkedRepository? path content with
    | .error fault => .error fault
    | .ok none => .ok none
    | .ok (some repository) => sharedDirectory? w repository

/-- What a directory with the given path brings along. -/
def localRules (w : Workspace) (directory : String) : Local :=
  let inside := Path.join directory
  let ignore := readRuleFile w (inside ".ignore")
  let gitIgnore := readRuleFile w (inside ".gitignore")
  let (exclude, faults) : RuleFile × List String := match repositoryData? w directory with
    | .error fault => ({}, [fault])
    | .ok none => ({}, [])
    | .ok (some data) =>
      let path := Path.join data "info/exclude"
      let exclude := readRuleFile w path
      (exclude, exclude.messages path)
  { ignore := ignore.working
    gitIgnore := gitIgnore.working
    gitExclude := exclude.working
    isRepository := w.pathExists (inside ".git") || w.pathExists (inside ".jj")
    faults := ignore.messages (inside ".ignore") ++ gitIgnore.messages (inside ".gitignore") ++
      faults }

/-- The locations above an entry, nearest first. -/
def above (entry : Location) : List Location :=
  (List.range entry.length).reverse.map entry.take

/-- The root of a walk: its path, and where it is. -/
structure Root where
  path : String
  location : Location
  deriving DecidableEq, Repr, Inhabited

namespace Root

/-- The path of an entry below the root. -/
def pathTo (r : Root) (names : List String) : String :=
  names.foldl Path.join r.path

/-- The absolute path of an entry, for the directories above the root. -/
def absolutePathTo (r : Root) (names : List String) : String :=
  let path := withoutDot (r.pathTo names)
  let inside :=
    if Path.parts r.path == [.here] then path else without "/" (without (withoutDot r.path) path)
  Path.join (absolutePath r.location) inside

/-- The directories whose files count for an entry, nearest first, each with the path of the entry
that its rules are about. -/
def directories (r : Root) (names : List String) : List (String × String) :=
  let walked := (above names).map fun inner => (r.pathTo inner, withoutDot (r.pathTo names))
  let outside := (above r.location).map fun d => (absolutePath d, r.absolutePathTo names)
  walked ++ outside

/-- What is wrong with the files of the directories above the root, topmost first. -/
def faults (w : Workspace) (r : Root) : List String :=
  (above r.location).reverse.flatMap fun d => (localRules w (absolutePath d)).faults

end Root

/-- A directory that counts for an entry. -/
structure Level where
  directory : String
  /-- The path of the entry that the rules of the directory are about. -/
  path : String
  rules : Local
  deriving Repr, Inhabited

/-- What the rules of one kind decide about an entry at a level. -/
def Level.decide? (level : Level) (kind : Local → List Rule) (isDirectory : Bool) :
    Option Decision :=
  decideIn? level.directory (kind level.rules) level.path isDirectory

/-- The levels up to the top of the nearest repository, nearest first. -/
def upToRepository : List Level → List Level
  | [] => []
  | level :: rest => if level.rules.isRepository then [level] else level :: upToRepository rest

/-- The rules of the user's own ignore file. What is wrong with it is not shown. -/
def userRules (w : Workspace) : List Rule :=
  match w.userIgnore with
  | none => []
  | some path => (readRuleFile w path).working

/-- What ignore files decide about an entry. -/
def ignoreDecision? (w : Workspace) (r : Root) (names : List String) (isDirectory : Bool) :
    Option Decision :=
  let levels := (r.directories names).map fun (d, path) => ⟨d, path, localRules w d⟩
  let decided := fun (kind : Local → List Rule) (levels : List Level) =>
    levels.findSome? (·.decide? kind isDirectory)
  let isInside := levels.any (·.rules.isRepository)
  let inRepository := if isInside then upToRepository levels else []
  -- the rules of the user are about paths as seen from the working directory
  let ofUser := if isInside then
      decideIn? (absolutePath w.cwd) (userRules w) (withoutDot (r.pathTo names)) isDirectory
    else none
  (decided (·.ignore) levels).or <| (decided (·.gitIgnore) inRepository).or <|
    (decided (·.gitExclude) inRepository).or ofUser

end LogSweep.Walk
