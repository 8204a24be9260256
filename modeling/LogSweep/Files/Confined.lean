import LogSweep.Files.Tree

/-!
# Reading and writing source files

Sources are read as text and written back, where wanted only to places inside a root directory. A
path lies inside when the place it resolves to does, through all links. A file that is there may
still not be read or written, because the system refuses to: which files these are is not part of
the tree and comes from outside.
-/

namespace LogSweep.Files

/-- Why a path is not accepted as one inside a root. -/
inductive Escape where
  | unresolvedPath (path : String) (fault : Fault)
  | unresolvedRoot (root : String) (fault : Fault)
  | outside (path root : String)
  deriving DecidableEq, Repr, Inhabited

def Escape.message : Escape → String
  | .unresolvedPath path fault => s!"Failed to resolve path {path}: {fault.message}"
  | .unresolvedRoot root fault => s!"Failed to resolve root {root}: {fault.message}"
  | .outside path root => s!"Path traversal detected: {path} is outside of {root}"

/-- The location of a path that resolves to a place inside a root. -/
def Workspace.within (w : Workspace) (path root : String) : Except Escape Location :=
  match w.resolve path with
  | .error fault => .error (.unresolvedPath path fault)
  | .ok (location, _) =>
    match w.resolve root with
    | .error fault => .error (.unresolvedRoot root fault)
    | .ok (top, _) => if top.isPrefixOf location then .ok location else .error (.outside path root)

/-- Why a source could not be processed. -/
inductive SourceFault where
  | read (path : String) (fault : Fault)
  | write (path : String) (fault : Fault)
  | outsideRoot (path root : String)
  deriving DecidableEq, Repr, Inhabited

def SourceFault.message : SourceFault → String
  | .read path fault => s!"failed to read {path}: {fault.message}"
  | .write path fault => s!"failed to write {path}: {fault.message}"
  | .outsideRoot path root => s!"refusing to write {path} outside of {root}"

/-- Reads a source, unless the system refuses to read the file that is there. -/
def Workspace.readSource (w : Workspace) (path : String) (refusal : Option Fault := none) :
    Except SourceFault Bytes :=
  match refusal, w.tree.read w.cwd path with
  | some fault, .ok _ => .error (.read path fault)
  | _, _ =>
    match w.readText path with
    | .error fault => .error (.read path fault)
    | .ok text => .ok text

/-- Writes a source, when a root is given only inside it, unless the system refuses to. -/
def Workspace.writeSource (w : Workspace) (path : String) (root : Option String) (text : Bytes)
    (refusal : Option Fault := none) : Except SourceFault Workspace :=
  match root with
  | none =>
    match w.write path text refusal with
    | .error fault => .error (.write path fault)
    | .ok w => .ok w
  | some root =>
    match w.within path root with
    | .error _ => .error (.outsideRoot path root)
    | .ok location =>
      match w.write (absolutePath location) text refusal with
      | .error fault => .error (.write path fault)
      | .ok w => .ok w

/-- What the system refuses: the faults with which it does not let files be read or written, by
their paths. -/
structure Refusals where
  read : String → Option Fault := fun _ => none
  write : String → Option Fault := fun _ => none

end LogSweep.Files
