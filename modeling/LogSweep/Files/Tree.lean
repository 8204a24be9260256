import LogSweep.Path
import LogSweep.Text.Bytes

/-!
# File trees

A tree of directories, files and symbolic links, as one table from locations to entries. A location
is the list of names from the top; the directories above an entry are entries themselves. Paths are
resolved against a working directory, piece by piece and through links.
-/

namespace LogSweep.Files

/-- The names that lead from the top to an entry. -/
abbrev Location := List String

inductive Entry where
  | file (content : Bytes)
  | directory
  | link (target : String)
  deriving DecidableEq, Repr, Inhabited

/-- Why an operation on a tree fails. -/
inductive Fault where
  | notFound
  | notDirectory
  | isDirectory
  | nameTooLong
  | tooManyLinks
  /-- A path holds the null character. -/
  | nullCharacter
  | notText
  /-- The system refuses the operation, for want of permission or space for example. -/
  | refused (message : String)
  deriving DecidableEq, Repr, Inhabited

def Fault.message : Fault → String
  | .notFound => "No such file or directory (os error 2)"
  | .notDirectory => "Not a directory (os error 20)"
  | .isDirectory => "Is a directory (os error 21)"
  | .nameTooLong => "File name too long (os error 36)"
  | .tooManyLinks => "Too many levels of symbolic links (os error 40)"
  | .nullCharacter => "file name contained an unexpected NUL byte"
  | .notText => "stream did not contain valid UTF-8"
  | .refused message => message

structure Tree where
  entries : List (Location × Entry) := []
  deriving DecidableEq, Repr, Inhabited

namespace Tree

/-- The entry at a location; the top is a directory. -/
def entry? (t : Tree) (at' : Location) : Option Entry :=
  if at'.isEmpty then some .directory else t.entries.lookup at'

/-- Puts an entry at a location, in place of what is there. -/
def put (t : Tree) (at' : Location) (e : Entry) : Tree :=
  if (t.entries.lookup at').isSome then
    { entries := t.entries.map fun (l, old) => if l == at' then (l, e) else (l, old) }
  else
    { entries := t.entries ++ [(at', e)] }

/-- Takes away what is at a location and below it. -/
def erase (t : Tree) (at' : Location) : Tree :=
  { entries := t.entries.filter fun (l, _) => !at'.isPrefixOf l }

/-- What a directory holds: the names in it, each with its entry. -/
def children (t : Tree) (directory : Location) : List (String × Entry) :=
  t.entries.filterMap fun (location, e) =>
    match location.getLast? with
    | some name => if location.dropLast == directory then some (name, e) else none
    | none => none

/-- The number of names that lead to the deepest entries. -/
def depth (t : Tree) : Nat :=
  t.entries.foldr (fun (location, _) deepest => max location.length deepest) 0

/-- Where a path leads: a location, and what is there. Only the last name of a path may lead to
nothing. -/
structure Target where
  location : Location
  entry : Option Entry
  deriving DecidableEq, Repr, Inhabited

/-- The number of bytes that a name may have. -/
def nameLimit : Nat := 255

/-- Whether only slashes are left of a path. -/
def onlySlashes (rest : List String) : Bool :=
  !rest.isEmpty && rest.all (· == "")

/-- Follows pieces of a path from a location. At most `links` links are followed. The last name of a
path that `creates` a file must not have a slash behind it. -/
def follow (t : Tree) (creates : Bool) (links : Nat) (here : Location) :
    List String → Except Fault Target
  | [] => .ok ⟨here, t.entry? here⟩
  | piece :: rest =>
    if t.entry? here != some .directory then .error .notDirectory
    else if piece == "" || piece == "." then follow t creates links here rest
    else if piece == ".." then follow t creates links here.dropLast rest
    else if creates && onlySlashes rest then .error .isDirectory
    else if nameLimit < piece.utf8ByteSize then .error .nameTooLong
    else
      match t.entry? (here ++ [piece]) with
      | none => if rest.isEmpty then .ok ⟨here ++ [piece], none⟩ else .error .notFound
      | some (.link target) =>
        match links with
        | 0 => .error .tooManyLinks
        | links + 1 =>
          follow t creates links (if Path.isAbsolute target then [] else here)
            (Path.pieces target ++ rest)
      | some _ => follow t creates links (here ++ [piece]) rest
termination_by pieces => (links, pieces.length)

/-- The number of links that a path may lead through. -/
def linkLimit : Nat := 40

/-- From this number of bytes on, the text of a path is too long to be opened. -/
def pathLimit : Nat := 4096

/-- What is wrong with the text of a path. The empty path leads nowhere. -/
def textFault? (path : String) : Option Fault :=
  if path == "" then some .notFound
  else if path.toList.any (·.toNat == 0) then some .nullCharacter
  else none

/-- What is wrong with the text of a path that is to be opened. -/
def openFault? (path : String) : Option Fault :=
  (textFault? path).or (if pathLimit ≤ path.utf8ByteSize then some .nameTooLong else none)

/-- Where a path leads from a working directory. -/
def target (t : Tree) (creates : Bool) (cwd : Location) (path : String) : Except Fault Target :=
  t.follow creates linkLimit (if Path.isAbsolute path then [] else cwd) (Path.pieces path)

/-- The location and the entry that a path leads to, however long its text is. -/
def resolve (t : Tree) (cwd : Location) (path : String) : Except Fault (Location × Entry) :=
  match textFault? path, t.target false cwd path with
  | some fault, _ => .error fault
  | none, .error fault => .error fault
  | none, .ok ⟨_, none⟩ => .error .notFound
  | none, .ok ⟨location, some e⟩ => .ok (location, e)

/-- The location and the entry that a path leads to. -/
def find (t : Tree) (cwd : Location) (path : String) : Except Fault (Location × Entry) :=
  match openFault? path with
  | some fault => .error fault
  | none => t.resolve cwd path

/-- The entry that a name in a directory stands for. -/
def findIn (t : Tree) (name : String) : Target → Except Fault (Location × Entry)
  | ⟨_, none⟩ => .error .notFound
  | ⟨location, some .directory⟩ =>
    if nameLimit < name.utf8ByteSize then .error .nameTooLong
    else
      match t.entry? (location ++ [name]) with
      | none => .error .notFound
      | some e => .ok (location ++ [name], e)
  | _ => .error .notDirectory

/-- The entry that a path names, without following a link that the last name stands for. -/
def findItself (t : Tree) (cwd : Location) (path : String) : Except Fault (Location × Entry) :=
  match openFault? path, (Path.pieces path).reverse with
  | some fault, _ => .error fault
  | none, [] => t.find cwd path
  | none, last :: above =>
    if (Path.innerPart? last).isNone || last == ".." then t.find cwd path
    else
      let start := if Path.isAbsolute path then [] else cwd
      match t.follow false linkLimit start above.reverse with
      | .error fault => .error fault
      | .ok directory => t.findIn last directory

def exists? (t : Tree) (cwd : Location) (path : String) : Bool :=
  match t.find cwd path with
  | .ok _ => true
  | .error _ => false

def isDirectory (t : Tree) (cwd : Location) (path : String) : Bool :=
  match t.find cwd path with
  | .ok (_, .directory) => true
  | _ => false

def isFile (t : Tree) (cwd : Location) (path : String) : Bool :=
  match t.find cwd path with
  | .ok (_, .file _) => true
  | _ => false

/-- The bytes of the file that a path leads to. -/
def read (t : Tree) (cwd : Location) (path : String) : Except Fault Bytes :=
  match t.find cwd path with
  | .error fault => .error fault
  | .ok (_, .file content) => .ok content
  | .ok _ => .error .isDirectory

/-- The text of the file that a path leads to. -/
def readText (t : Tree) (cwd : Location) (path : String) : Except Fault Bytes :=
  match t.read cwd path with
  | .error fault => .error fault
  | .ok content => if content.decode?.isSome then .ok content else .error .notText

/-- Writes the file that a path leads to, and creates it when only its name is missing. The system
may refuse to write the file; then the tree stays as it is. -/
def write (t : Tree) (cwd : Location) (path : String) (content : Bytes)
    (refusal : Option Fault := none) : Except Fault Tree :=
  match openFault? path, t.target true cwd path with
  | some fault, _ => .error fault
  | none, .error fault => .error fault
  | none, .ok ⟨_, some .directory⟩ => .error .isDirectory
  | none, .ok ⟨location, _⟩ =>
    match refusal with
    | some fault => .error fault
    | none => .ok (t.put location (.file content))

/-- The size in bytes of what a path leads to; nothing has size zero. -/
def size (t : Tree) (cwd : Location) (path : String) : Nat :=
  match t.find cwd path with
  | .ok (_, .file content) => content.length
  | .ok _ => 4096
  | .error _ => 0

end Tree

/-- The absolute path of a location. -/
def absolutePath (location : Location) : String :=
  "/" ++ String.intercalate "/" location

/-- A tree together with the directory that relative paths start from. -/
structure Workspace where
  tree : Tree := {}
  cwd : Location := []
  /-- The path of the user's own ignore file, which counts in every repository. -/
  userIgnore : Option String := none
  deriving DecidableEq, Repr, Inhabited

namespace Workspace

def find (w : Workspace) (path : String) : Except Fault (Location × Entry) :=
  w.tree.find w.cwd path

def resolve (w : Workspace) (path : String) : Except Fault (Location × Entry) :=
  w.tree.resolve w.cwd path

def pathExists (w : Workspace) (path : String) : Bool :=
  w.tree.exists? w.cwd path

def isDirectory (w : Workspace) (path : String) : Bool :=
  w.tree.isDirectory w.cwd path

def isFile (w : Workspace) (path : String) : Bool :=
  w.tree.isFile w.cwd path

def readText (w : Workspace) (path : String) : Except Fault Bytes :=
  w.tree.readText w.cwd path

def size (w : Workspace) (path : String) : Nat :=
  w.tree.size w.cwd path

def write (w : Workspace) (path : String) (content : Bytes) (refusal : Option Fault := none) :
    Except Fault Workspace :=
  match w.tree.write w.cwd path content refusal with
  | .error fault => .error fault
  | .ok tree => .ok { w with tree }

end Workspace

end LogSweep.Files
