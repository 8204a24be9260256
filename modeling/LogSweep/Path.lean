import LogSweep.Sorted

/-!
# Paths

A path is text. What it means is a list of parts: repeated slashes and inner dots say nothing, so
two paths are the same, and are ordered, by their parts. Joining and cutting work on the text, so a
path is shown the way it was built.
-/

namespace LogSweep.Path

/-- A meaningful part of a path. -/
inductive Part where
  /-- The slash that an absolute path begins with. -/
  | root
  /-- A dot that a relative path begins with. -/
  | here
  /-- Two dots. -/
  | up
  | name (name : String)
  deriving DecidableEq, Repr, Inhabited

/-- What stands between the slashes of a path. -/
def pieces (path : String) : List String :=
  (path.toList.splitOn '/').map String.ofList

/-- Whether a path starts at the root. -/
def isAbsolute (path : String) : Bool :=
  path.toList.head? == some '/'

/-- The part that a piece after the first one stands for. -/
def innerPart? (piece : String) : Option Part :=
  if piece == "" || piece == "." then none
  else if piece == ".." then some .up
  else some (.name piece)

/-- The parts of a path. -/
def parts (path : String) : List Part :=
  match pieces path with
  | [] => []
  | first :: rest =>
    let start :=
      if isAbsolute path then [.root]
      else if first == "." then [.here]
      else (innerPart? first).toList
    start ++ rest.filterMap innerPart?

/-- The place of a kind of part in the order of paths. -/
def Part.rank : Part → Nat
  | .root => 0
  | .here => 1
  | .up => 2
  | .name _ => 3

/-- The text by which parts of one kind are ordered. -/
def Part.text : Part → String
  | .name n => n
  | _ => ""

def Part.lt (a b : Part) : Bool :=
  a.rank < b.rank || a.rank == b.rank && decide (a.text < b.text)

/-- The order of paths: part by part, a path before everything below it. -/
def leParts : List Part → List Part → Bool
  | [], _ => true
  | _ :: _, [] => false
  | a :: as, b :: bs => a.lt b || a == b && leParts as bs

def le (a b : String) : Bool :=
  leParts (parts a) (parts b)

/-- Sorts paths; paths with the same parts keep their order. -/
def sort (paths : List String) : List String :=
  paths.mergeSort le

/-- Drops every path that has the same parts as the one before it. -/
def dropRepeated (paths : List String) : List String :=
  Sorted.dropRepeated parts paths

/-- The last name of a path, unless it ends in dots. -/
def fileName? (path : String) : Option String :=
  match (parts path).getLast? with
  | some (.name n) => some n
  | _ => none

/-- What follows the last dot of a file name; a leading dot alone does not count. -/
def nameExtension? (name : String) : Option String :=
  let reversed := name.toList.reverse
  let extension := reversed.takeWhile (· != '.')
  match reversed.dropWhile (· != '.') with
  | [] | [_] => none
  | _ => some (String.ofList extension.reverse)

/-- The extension of a path's file name. -/
def extension? (path : String) : Option String :=
  (fileName? path).bind nameExtension?

/-- Whether a path has one of the given extensions. -/
def hasExtension (extensions : List String) (path : String) : Bool :=
  match extension? path with
  | none => false
  | some e => extensions.contains e

/-- A path followed by another; an absolute one starts afresh. -/
def join (path child : String) : String :=
  if isAbsolute child then child
  else if path == "" || path.toList.getLast? == some '/' then path ++ child
  else path ++ "/" ++ child

/-- Pieces, last first, without those at the end that say nothing. -/
def withoutIdle : List String → List String
  | [] => []
  | [first] => [first]
  | piece :: rest => if piece == "" || piece == "." then withoutIdle rest else piece :: rest

/-- The path without its last part; `none` when there is nothing to leave out. -/
def parent? (path : String) : Option String :=
  match (parts path).reverse with
  | [] | [.root] => none
  | _ :: _ =>
    let kept := match withoutIdle (pieces path).reverse with
      | [] => []
      | _ :: rest => (withoutIdle rest).reverse
    if kept == [""] then some "/" else some (String.intercalate "/" kept)

/-- Removes a marker as often as it stands at the front. -/
def withoutLeading (marker : List Char) : Nat → List Char → List Char
  | 0, text => text
  | n + 1, text =>
    if !marker.isEmpty && marker.isPrefixOf text then
      withoutLeading marker n (text.drop marker.length)
    else text

/-- The form in which a path is shown: extended-path markers go, every slash leans forward, and one
leading `./` is dropped. -/
def display (path : String) : String :=
  let marker := ['\\', '\\', '?', '\\']
  let plain := withoutLeading marker path.length path.toList
  let slashed := plain.map fun c => if c == '\\' then '/' else c
  match slashed with
  | '.' :: '/' :: rest => String.ofList rest
  | _ => String.ofList slashed

end LogSweep.Path
