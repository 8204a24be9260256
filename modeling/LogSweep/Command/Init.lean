import LogSweep.Settings.Discovery

/-!
# The init command

Creates a configuration file with the default settings, unless the directory has one already or its
package manifest holds a section.
-/

namespace LogSweep.Command

open Files

/-- The lines of the configuration file that is created. -/
def defaultLines : List String :=
  ["[rmlogs]",
    "# Rewrite rules",
    "target_function = \"console.log\"        # Calls to remove",
    "replacement_function = \"console.error\" # Used for calls inside error handlers",
    "error_handler_keyword = \"catch\"        # Keyword opening an error handler",
    "",
    "# Files",
    "file_extensions = [\"js\", \"vue\"]",
    "",
    "# Path filters (added to node_modules, dist, build, ...)",
    "exclude_folders = []",
    "include_folders = []  # Force-include these folders even if excluded by default"]

/-- The configuration file that is created. -/
def defaultConfig : String :=
  String.join (defaultLines.map (· ++ "\n"))

/-- Why no configuration file could be created. -/
inductive InitFault where
  | unreadable (path : String) (fault : Fault)
  | uncreatable (path : String) (fault : Fault)
  deriving DecidableEq, Repr, Inhabited

def InitFault.message : InitFault → String
  | .unreadable path fault => s!"Failed to read {path}: {fault.message}"
  | .uncreatable path fault => s!"Failed to create {path}: {fault.message}"

/-- Whether a package manifest, read strictly, has a section. -/
def hasSection (content : Bytes) : Bool :=
  (Json.readStrict? content.decode.toList).any (·.hasKey Section.sectionKey)

/-- What came of it: the files afterwards, what is printed, and the fault if there was one. -/
structure Initialized where
  workspace : Workspace
  output : String
  fault : Option InitFault := none
  deriving DecidableEq, Repr, Inhabited

def initStart : String :=
  "Initializing rmlogs configuration...\n"

/-- The end of a run that worked out. -/
def initDone (w : Workspace) (line : String) : Initialized :=
  ⟨w, initStart ++ line ++ "Initialization complete!\n", none⟩

/-- Creates the configuration file of a directory, unless the system refuses to. -/
def createConfig (w : Workspace) (config : String) (refusal : Option Fault) : Initialized :=
  match w.write config (.ofString defaultConfig) refusal with
  | .error fault => ⟨w, initStart, some (.uncreatable config fault)⟩
  | .ok w => initDone w "  • Created .rmlogs.toml with default configuration.\n"

/-- Creates the configuration file of a directory where it is missing. -/
def init (w : Workspace) (directory : String) (refusal : Option Fault := none) : Initialized :=
  let config := Path.join directory Settings.configName
  let manifest := Path.join directory Settings.manifestName
  if w.pathExists config then initDone w "  • .rmlogs.toml already exists - skipping.\n"
  else if w.pathExists manifest then
    match w.readText manifest with
    | .error fault => ⟨w, initStart, some (.unreadable manifest fault)⟩
    | .ok content =>
      if hasSection content then
        initDone w "  • package.json already contains an \"rmlogs\" section - skipping.\n"
      else createConfig w config refusal
  else createConfig w config refusal

end LogSweep.Command
