import LogSweep.CommandLine.Arguments

/-!
# Reading arguments

Arguments are read from left to right. An option waits for its value, and a run of paths for its
end, before they count as given; a mistake in one that waits is found when the next argument is
taken. The name of a command is looked for only where neither a value is awaited nor paths are being
listed, and everything after it belongs to the command. After `--` every argument is a path.
-/

namespace LogSweep.CommandLine

/-- An argument that is given or not. -/
inductive Flag where
  | select
  | json
  | verbose
  | quiet
  | dryRun
  | check
  | help
  | version
  deriving DecidableEq, Repr, Inhabited

/-- An argument that takes a value. -/
inductive Setting where
  | root
  | target
  | replacement
  | keyword
  | extension
  | excluded
  | included
  | only
  | skip
  deriving DecidableEq, Repr, Inhabited

/-- Whether an option may be given more than once. -/
def Setting.isRepeatable : Setting → Bool
  | .root | .target | .replacement | .keyword => false
  | _ => true

inductive Parameter where
  | flag (flag : Flag)
  | setting (setting : Setting)
  deriving DecidableEq, Repr, Inhabited

/-- What a command takes. -/
structure Grammar where
  long : List (String × Parameter)
  short : List (Char × Flag)
  takesPaths : Bool
  /-- The commands that may follow. -/
  commands : List String
  deriving DecidableEq, Repr, Inhabited

/-- The arguments before a command. -/
def mainGrammar : Grammar where
  long :=
    [("root", .setting .root), ("target", .setting .target), ("replacement", .setting .replacement),
      ("keyword", .setting .keyword), ("ext", .setting .extension),
      ("exclude-folders", .setting .excluded), ("exclude-folder", .setting .excluded),
      ("include-folders", .setting .included), ("include-folder", .setting .included),
      ("only", .setting .only), ("skip", .setting .skip), ("select", .flag .select),
      ("json", .flag .json), ("verbose", .flag .verbose), ("quiet", .flag .quiet),
      ("dry-run", .flag .dryRun), ("check", .flag .check), ("help", .flag .help),
      ("version", .flag .version)]
  short :=
    [('v', .verbose), ('q', .quiet), ('n', .dryRun), ('h', .help), ('V', .version)]
  takesPaths := true
  commands := ["files", "init", "help"]

/-- The arguments of the listing of files. -/
def filesGrammar : Grammar where
  long :=
    [("root", .setting .root), ("json", .flag .json), ("exclude", .setting .excluded),
      ("exclude-folder", .setting .excluded), ("help", .flag .help)]
  short := [('h', .help)]
  takesPaths := true
  commands := []

/-- The arguments of the creation of a configuration file. -/
def initGrammar : Grammar where
  long := [("help", .flag .help)]
  short := [('h', .help)]
  takesPaths := false
  commands := []

/-! ## What has been given -/

structure Given where
  flags : List Flag := []
  settings : List (Setting × String) := []
  paths : List String := []
  deriving DecidableEq, Repr, Inhabited

/-- The values of an option. -/
def Given.values (g : Given) (s : Setting) : List String :=
  g.settings.filterMap fun (t, value) => if t = s then some value else none

def Given.has (g : Given) (f : Flag) : Bool :=
  g.flags.contains f

/-- Adds the value of an option. -/
def Given.set (g : Given) (s : Setting) (value : String) : Except Stop Given :=
  if !s.isRepeatable && !(g.values s).isEmpty then .error (.misuse (.conflict value value))
  else if s = .root && value.isEmpty then .error (.misuse (.emptyPath "--root"))
  else .ok { g with settings := g.settings ++ [(s, value)] }

/-- Adds paths. -/
def Given.addPaths (g : Given) (paths : List String) : Except Stop Given :=
  if paths.any (·.isEmpty) then .error (.misuse (.emptyPath "PATHS"))
  else .ok { g with paths := g.paths ++ paths }

/-- An argument that has not been taken in full. -/
inductive Pending where
  | nothing
  | setting (setting : Setting) (name : String) (value : Option String)
  | paths (paths : List String)
  deriving DecidableEq, Repr, Inhabited

structure State where
  given : Given := {}
  pending : Pending := .nothing
  /-- Whether every argument from here on is a path. -/
  pathsOnly : Bool := false
  deriving DecidableEq, Repr, Inhabited

/-- Takes what is pending. -/
def State.settle (s : State) : Except Stop State :=
  match s.pending with
  | .nothing => .ok s
  | .setting _ name none => .error (.misuse (.missingValue name))
  | .setting setting _ (some value) =>
    (s.given.set setting value).map fun given => { s with given, pending := .nothing }
  | .paths paths =>
    (s.given.addPaths paths).map fun given => { s with given, pending := .nothing }

/-- Whether the name of a command may stand here. -/
def State.allowsCommand (s : State) : Bool :=
  !s.pathsOnly &&
    match s.pending with
    | .nothing => true
    | .setting _ _ value => value.isSome
    | .paths _ => false

/-- Takes a flag. -/
def State.flag (s : State) (f : Flag) (name : String) : Except Stop State :=
  match s.settle with
  | .error stop => .error stop
  | .ok s =>
    match f with
    | .help => .error .help
    | .version => .error .version
    | _ =>
      if s.given.has f then .error (.misuse (.conflict name name))
      else .ok { s with given := { s.given with flags := f :: s.given.flags } }

/-- Takes a path. -/
def State.path (g : Grammar) (s : State) (path : String) : Except Stop State :=
  if !g.takesPaths then .error (.misuse (.unknownArgument path)) else
  match s.pending with
  | .paths paths => .ok { s with pending := .paths (paths ++ [path]) }
  | _ => s.settle.map fun s => { s with pending := .paths [path] }

/-! ## Single arguments -/

/-- The form of an argument. -/
inductive Form where
  | divider
  | long (name : String) (value : Option String)
  | short (letters : List Char)
  | plain
  deriving DecidableEq, Repr, Inhabited

/-- The name of a long argument and the value after its first `=`. -/
def longForm (text : List Char) : Form :=
  match text.span (· != '=') with
  | (name, []) => .long (.ofList name) none
  | (name, _ :: value) => .long (.ofList name) (some (.ofList value))

/-- The form of an argument; a single dash is plain. -/
def Form.of (argument : String) : Form :=
  match argument.toList with
  | ['-', '-'] => .divider
  | '-' :: '-' :: text => longForm text
  | ['-'] => .plain
  | '-' :: letters => .short letters
  | _ => .plain

/-- Takes a long argument. -/
def State.long (g : Grammar) (s : State) (name : String) (value : Option String) :
    Except Stop State :=
  let shown := "--" ++ name
  match g.long.lookup name, value with
  | none, _ => .error (.misuse (.unknownArgument shown))
  | some (.flag _), some _ => .error (.misuse (.unexpectedValue shown))
  | some (.flag f), none => s.flag f shown
  | some (.setting setting), some value =>
    match s.settle with
    | .error stop => .error stop
    | .ok s => (s.given.set setting value).map fun given => { s with given }
  | some (.setting setting), none =>
    s.settle.map fun s => { s with pending := .setting setting shown none }

/-- Takes short flags. -/
def State.short (g : Grammar) (s : State) : List Char → Except Stop State
  | [] => .ok s
  | letter :: letters =>
    let shown := String.ofList ['-', letter]
    match g.short.lookup letter with
    | none => .error (.misuse (.unknownArgument shown))
    | some f =>
      match s.flag f shown with
      | .error stop => .error stop
      | .ok s => State.short g s letters

/-- Takes a plain argument: the value that an option awaits, or a path. -/
def State.plain (g : Grammar) (s : State) (argument : String) : Except Stop State :=
  match s.pending with
  | .setting setting name none =>
    .ok { s with pending := .setting setting name (some argument) }
  | _ => s.path g argument

/-- Takes an argument that is not the name of a command. -/
def State.take (g : Grammar) (s : State) (argument : String) : Except Stop State :=
  if s.pathsOnly then s.path g argument else
  match Form.of argument with
  | .divider => .ok { s with pathsOnly := true }
  | .long name value => s.long g name value
  | .short letters => s.short g letters
  | .plain => s.plain g argument

/-! ## All arguments -/

/-- The outcome of reading arguments: the state at the end, or at the name of a command that stands
before the rest of the arguments. -/
structure Taken where
  state : State
  command : Option (String × List String) := none
  deriving DecidableEq, Repr, Inhabited

/-- Takes arguments up to the name of a command. -/
def takeAll (g : Grammar) (s : State) : List String → Except Stop Taken
  | [] => .ok ⟨s, none⟩
  | argument :: rest =>
    if s.allowsCommand && g.commands.contains argument then .ok ⟨s, some (argument, rest)⟩ else
    match s.take g argument with
    | .error stop => .error stop
    | .ok s => takeAll g s rest

/-- What has been given in the end, unless arguments exclude each other. -/
def State.finish (s : State) : Except Stop Given :=
  match s.settle with
  | .error stop => .error stop
  | .ok s =>
    if !s.given.paths.isEmpty && !(s.given.values .root).isEmpty then
      .error (.misuse (.conflict "PATHS" "--root"))
    else if s.given.has .select && s.given.has .json then
      .error (.misuse (.conflict "--select" "--json"))
    else .ok s.given

def Given.places (g : Given) : Places where
  paths := g.paths
  root := (g.values .root).head?

/-- The arguments of a run. -/
def Given.arguments (g : Given) (job : Job) : Arguments where
  job
  places := g.places
  target := (g.values .target).head?
  replacement := (g.values .replacement).head?
  keyword := (g.values .keyword).head?
  extensions := g.values .extension
  excluded := g.values .excluded
  included := g.values .included
  only := g.values .only
  skip := g.values .skip
  select := g.has .select
  json := g.has .json
  verbose := g.has .verbose
  quiet := g.has .quiet
  dryRun := g.has .dryRun
  check := g.has .check

/-- Reads the arguments of a command without commands of its own. -/
def readGiven (g : Grammar) (arguments : List String) : Except Stop Given :=
  match takeAll g {} arguments with
  | .error stop => .error stop
  | .ok taken => taken.state.finish

/-- Asks for help on a command: on the program itself, or on one of its commands. -/
def readHelp : List String → Stop
  | [] => .help
  | [name] => if mainGrammar.commands.contains name then .help else .misuse (.unknownCommand name)
  | name :: other :: _ =>
    .misuse (.unknownCommand (if mainGrammar.commands.contains name then other else name))

/-- Reads a command and its arguments. -/
def readCommand (name : String) (arguments : List String) : Except Stop Job :=
  if name == "help" then .error (readHelp arguments)
  else if name == "init" then (readGiven initGrammar arguments).map fun _ => .init
  else (readGiven filesGrammar arguments).map fun g =>
    .files g.places (g.has .json) (g.values .excluded)

/-- Reads the arguments of a run. A mistake after the name of a command comes before one that is
found at the end of the arguments before it. -/
def read (arguments : List String) : Except Stop Arguments :=
  match takeAll mainGrammar {} arguments with
  | .error stop => .error stop
  | .ok ⟨state, none⟩ => state.finish.map (·.arguments .sweep)
  | .ok ⟨state, some (name, rest)⟩ =>
    match readCommand name rest with
    | .error stop => .error stop
    | .ok job => state.finish.map (·.arguments job)

end LogSweep.CommandLine
