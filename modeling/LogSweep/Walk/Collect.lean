import LogSweep.Walk.Ignore

/-!
# Collecting source files

A walk below a root finds the files to sweep. It goes down from directory to directory, but not into
one that is filtered out or that cannot be opened. Globs given by hand come before ignore files:
files to skip, and files to restrict the walk to. The root itself is never filtered.
-/

namespace LogSweep.Walk

open Files

/-- The folders that are not walked into unless they are asked for. -/
def defaultExcludes : List String :=
  [".cache", ".git", ".next", ".nuxt", "bower_components", "build", "coverage", "dist",
    "jspm_packages", "node_modules", "vendor"]

/-- Whether an exclusion covers a name: it is the name, or `*.` and an ending of the name. -/
def covers (name exclude : String) : Bool :=
  match exclude.toList with
  | '*' :: '.' :: ending => ('.' :: ending).isSuffixOf name.toList
  | '*' :: _ => false
  | _ => exclude == name

/-- Whether one of the exclusions covers a name. -/
def isExcluded (excludes : List String) (name : String) : Bool :=
  excludes.any (covers name)

/-- What a walk looks for. -/
structure Options where
  extensions : List String := []
  /-- Folders to leave out besides the default ones. -/
  excluded : List String := []
  /-- Folders to walk into even so. -/
  included : List String := []
  /-- Globs that a file must match, when there are any. -/
  only : List String := []
  /-- Globs of files to leave out. -/
  skip : List String := []
  deriving DecidableEq, Repr, Inhabited

/-- The folders left out. -/
def Options.excludes (o : Options) : List String :=
  (o.excluded ++ defaultExcludes).filter (!o.included.contains ·)

/-- Reads lines as rules, up to the first fault. -/
def readRules : List (List Char) → Except RuleFault (List Rule)
  | [] => .ok []
  | line :: rest =>
    match readRule false line with
    | .error fault => .error fault
    | .ok rule =>
      match readRules rest with
      | .error fault => .error fault
      | .ok rules => .ok (rule.toList ++ rules)

/-- Why globs given by hand are refused. -/
inductive GlobFault where
  | rule (fault : RuleFault)
  | set (fault : SetFault)
  deriving DecidableEq, Repr, Inhabited

def GlobFault.message : GlobFault → String
  | .rule fault => fault.message
  | .set fault => fault.message

/-- The rules of the globs given by hand, as rules about files to keep. -/
def Options.globs (o : Options) : Except GlobFault (List Rule) :=
  match readRules (o.only.map String.toList ++ o.skip.map ('!' :: ·.toList)) with
  | .error fault => .error (.rule fault)
  | .ok rules =>
    match setFault? rules with
    | some fault => .error (.set fault)
    | none => .ok rules

/-- What globs given by hand decide about an entry. Once there are globs to restrict the walk to, a
file that none of all globs matches is left out. -/
def globDecision? (root : String) (globs : List Rule) (path : String) (isDirectory : Bool) :
    Option Decision :=
  match decideIn? root globs path isDirectory with
  | some decision => some decision.inverse
  | none =>
    if !isDirectory && globs.any (·.decision == .ignored) then some .ignored else none

/-- Whether an entry below a root is filtered out by itself. -/
def isFiltered (w : Workspace) (globs : List Rule) (excludes : List String) (root : Root)
    (names : List String) (isDirectory : Bool) : Bool :=
  (isDirectory && names.getLast?.any (isExcluded excludes)) ||
    (match globDecision? root.path globs (withoutDot (root.pathTo names)) isDirectory with
      | some decision => decision == .ignored
      | none => ignoreDecision? w root names isDirectory == some .ignored)

/-- The outcome of a walk. -/
structure Found where
  paths : List String := []
  /-- Why the root or directories below it could not be walked, and what is wrong with ignore files
  above it. -/
  faults : List String := []
  deriving DecidableEq, Repr, Inhabited

/-- The diagnostics on a walk. -/
def Found.explain (found : Found) : String :=
  String.join (found.faults.map fun fault => s!"[VERBOSE] Walk error: {fault}\n")

/-- What is said about a path that could not be walked. -/
def walkError (path : String) (fault : Fault) : String :=
  s!"{path}: IO error for operation on {path}: {fault.message}"

/-- What several parts of a walk found. -/
def Found.join (parts : List Found) : Found where
  paths := parts.flatMap (·.paths)
  faults := parts.flatMap (·.faults)

/-- Walks through the directory that names lead to from a root, and on through the directories in
it, at most as many levels deep as given. What is filtered out is left with all that lies below it,
and so is a directory that cannot be opened. -/
def descend (w : Workspace) (globs : List Rule) (excludes : List String) (root : Root) :
    Nat → List String → Found
  | 0, _ => {}
  | levels + 1, names =>
    Found.join <| (w.tree.children (root.location ++ names)).map fun (name, e) =>
      let inner := names ++ [name]
      let path := root.pathTo inner
      if isFiltered w globs excludes root inner (e == .directory) then {}
      else if e != .directory then { paths := [path] }
      else
        match Tree.openFault? path with
        | some fault => { faults := [walkError path fault] }
        | none => descend w globs excludes root levels inner

/-- Walks below a directory; the root is listed too when it is a link. -/
def walkBelow (w : Workspace) (globs : List Rule) (o : Options) (root : Root) (isLink : Bool) :
    Found :=
  let below := descend w globs o.excludes root w.tree.depth []
  let paths := (if isLink then [root.path] else []) ++ below.paths
  let faults := root.faults w
  { paths := Path.sort (paths.filter (Path.hasExtension o.extensions))
    faults := (if faults.isEmpty then [] else ["\n".intercalate faults]) ++ below.faults }

/-- Whether a root stands for the standard input, where no files are. -/
def isStandardInput (root : String) : Bool :=
  Path.parts root == [.name "-"]

/-- Collects the files to sweep at or below a root, in the order of paths. -/
def collect (w : Workspace) (o : Options) (root : String) : Except GlobFault Found :=
  match o.globs with
  | .error fault => .error fault
  | .ok globs =>
    if isStandardInput root then .ok {} else
    match w.tree.findItself w.cwd root with
    | .error fault => .ok { faults := [walkError root fault] }
    | .ok (_, itself) =>
      match w.find root with
      | .error fault => .ok { faults := [walkError root fault] }
      | .ok (location, .directory) =>
        .ok (walkBelow w globs o ⟨root, location⟩ (itself != .directory))
      | .ok _ => .ok { paths := [root].filter (Path.hasExtension o.extensions) }

end LogSweep.Walk
