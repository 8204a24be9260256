import LogSweep.CommandLine.Arguments

/-!
# Help

The text that explains the arguments and the configuration file, and the text that answers a mistake
in the arguments.
-/

namespace LogSweep.CommandLine

def usageLine : String :=
  "Usage: rmlogs [OPTIONS] [PATHS]... [COMMAND]"

/-- The commands and what they do. -/
def commandHelp : List (String × String) :=
  [("files", "List the files a sweep would process"),
    ("init ", "Create a default .rmlogs.toml in the current directory"),
    ("help ", "Print this message or the help of the given subcommand(s)")]

/-- What the paths are for. -/
def pathsHelp : String :=
  "Paths to sweep (files or directories). Can be a single directory, multiple files, or a mix " ++
    "of both. When no paths are provided, defaults to the current directory. Cannot be used " ++
    "with --root"

/-- The options and what they do. -/
def optionHelp : List (String × String) :=
  [("    --root <ROOT>",
      "Project root for path containment and sweeping. When specified, this path is used as " ++
        "both the sweep target AND the boundary outside of which no file is written. Cannot be " ++
        "used together with positional path arguments"),
    ("    --target <TARGET>", "Function whose call statements are removed (default: console.log)"),
    ("    --replacement <REPLACEMENT>",
      "Function used for calls inside error handlers (default: console.error)"),
    ("    --keyword <KEYWORD>", "Keyword introducing an error-handling block (default: catch)"),
    ("    --ext <EXT>", "File extensions to sweep, without dot (repeatable; default: js, vue)"),
    ("    --exclude-folders <EXCLUDE_FOLDERS>", "Folders to exclude from the sweep"),
    ("    --include-folders <INCLUDE_FOLDERS>",
      "Folders to force-include (overrides default exclusions)"),
    ("    --only <GLOB>", "Only process files matching this glob (repeatable, gitignore syntax)"),
    ("    --skip <GLOB>", "Skip files matching this glob (repeatable, gitignore syntax)"),
    ("    --select", "Pick files interactively from a numbered list"),
    ("    --json", "Output raw JSON"),
    ("-v, --verbose", "Enable verbose output for debugging (shows files being processed)"),
    ("-q, --quiet", "Quiet mode: show only the summary (no per-file table)"),
    ("-n, --dry-run", "Show what would change without writing any file"),
    ("    --check", "Exit with code 1 if any file would change (implies --dry-run)"),
    ("-h, --help", "Print help"),
    ("-V, --version", "Print version")]

/-- What the configuration file may hold. -/
def configHelp : List String :=
  ["CONFIGURATION FILE (.rmlogs.toml):",
    "  Create this file in your project root to set defaults,",
    "  or put the same keys under an \"rmlogs\" object in package.json.",
    "",
    "  [rmlogs]",
    "  target_function = \"console.log\"        # Calls to remove",
    "  replacement_function = \"console.error\" # Used inside error handlers",
    "  error_handler_keyword = \"catch\"        # Keyword opening a handler block",
    "  file_extensions = [\"js\", \"vue\"]        # Files to sweep",
    "",
    "  # Path filters",
    "  exclude_folders = [\"generated\"]",
    "  include_folders = [\"build\"]  # Force-include these"]

/-- The lines of the help; an option stands above what it does. -/
def helpLines : List String :=
  ["rmlogs - Remove console.log calls, keeping the ones in catch blocks as console.error", "",
    usageLine, "", "Commands:"] ++
  commandHelp.map (fun (command, help) => s!"  {command}  {help}") ++
  ["", "Arguments:", s!"  [PATHS]...  {pathsHelp}", "", "Options:"] ++
  optionHelp.flatMap (fun (option, help) => [s!"  {option}", s!"          {help}"]) ++
  "" :: configHelp

def helpText : String :=
  String.join (helpLines.map (· ++ "\n"))

/-- The answer to a mistake in the arguments. -/
def usageText (misuse : Misuse) : String :=
  s!"error: {misuse.message}\n\n" ++ usageLine ++ "\n\nFor more information, try '--help'.\n"

end LogSweep.CommandLine
