import LogSweep.Files.Tree
import LogSweep.Settings.Section
import LogSweep.Toml.Document

/-!
# Finding the settings

The settings come from the nearest configuration file: in the directory of the path that is swept,
or in a directory above it. In each directory the file of its own comes before the package manifest,
and a file that cannot be read, or that has no section, does not stop the search.
-/

namespace LogSweep.Settings

open Files

/-- The configuration file of its own. -/
def configName : String := ".rmlogs.toml"

/-- The package manifest, which may hold a section. -/
def manifestName : String := "package.json"

/-- Settings, and the file that they were read from. -/
structure Found where
  settings : Section := {}
  file : Option String := none
  deriving DecidableEq, Repr, Inhabited

/-- Reads a configuration file. -/
def readConfig? (w : Workspace) (path : String) : Option Section :=
  match w.readText path with
  | .error _ => none
  | .ok content => (Toml.read? content.decode.toList).bind Section.ofTomlDocument?

/-- Reads the section of a package manifest. -/
def readManifest? (w : Workspace) (path : String) : Option Section :=
  match w.readText path with
  | .error _ => none
  | .ok content => (Json.read? content.decode.toList).bind Section.ofJsonDocument?

/-- The settings that a directory holds. -/
def here? (w : Workspace) (directory : String) : Option Found :=
  let config := Path.join directory configName
  let manifest := Path.join directory manifestName
  match readConfig? w config with
  | some settings => some ⟨settings, some config⟩
  | none => (readManifest? w manifest).map fun settings => ⟨settings, some manifest⟩

/-- A directory and those above it, nearest first; at most `n` of them. -/
def upward (n : Nat) (directory : String) : List String :=
  match n with
  | 0 => []
  | n + 1 =>
    match Path.parent? directory with
    | none => [directory]
    | some parent => directory :: upward n parent

/-- The directory in which the search for a path's settings starts. -/
def start (w : Workspace) (path : String) : String :=
  let directory := if w.isFile path then (Path.parent? path).getD path else path
  match w.resolve directory with
  | .ok (location, _) => absolutePath location
  | .error _ => directory

/-- The settings for a path. A path has no more directories above it than characters. -/
def find (w : Workspace) (path : String) : Found :=
  let directory := start w path
  ((upward (directory.length + 2) directory).findSome? (here? w)).getD {}

end LogSweep.Settings
