import LogSweep.Json.Value
import LogSweep.Rules
import LogSweep.Toml.Table

/-!
# The settings section

A section of a configuration file holds six optional settings. It is read from a TOML document or
from a JSON object; a setting of the wrong kind makes the whole section unreadable, and unknown keys
are passed over. A section may also be written as an array of all its settings in order.
-/

namespace LogSweep

/-- The settings as they are written; what is not set takes a default. -/
structure Section where
  target : Option String := none
  replacement : Option String := none
  keyword : Option String := none
  extensions : Option (List String) := none
  excluded : Option (List String) := none
  included : Option (List String) := none
  deriving DecidableEq, Repr, Inhabited

namespace Section

/-- The key of the section in a configuration file. -/
def sectionKey : String := "rmlogs"

/-- The rules that the settings amount to. -/
def rules (s : Section) : Rules :=
  let standard : Rules := {}
  { target := s.target.getD standard.target
    replacement := s.replacement.getD standard.replacement
    keyword := s.keyword.getD standard.keyword }

/-- An extension without the dots in front of it. -/
def withoutDots (extension : String) : String :=
  String.ofList (extension.toList.dropWhile (· == '.'))

/-- The extensions of the files to sweep; those that are only dots are left out. -/
def allExtensions (s : Section) : List String :=
  match s.extensions with
  | none => ["js", "vue"]
  | some extensions => (extensions.map withoutDots).filter (· != "")

/-! ## Reading -/

/-- Applies a reading function to every item; all of them must succeed. -/
def readAll? (read : α → Option β) : List α → Option (List β)
  | [] => some []
  | a :: as =>
    match read a, readAll? read as with
    | some b, some bs => some (b :: bs)
    | _, _ => none

/-- How values of a data format are read as settings. -/
structure Format (α : Type) where
  /-- A value that stands for a missing one. -/
  isNull : α → Bool
  text? : α → Option String
  items? : α → Option (List α)

/-- An optional setting. -/
def optional? (f : Format α) (read : α → Option β) (value : Option α) : Option (Option β) :=
  match value with
  | none => some none
  | some v => if f.isNull v then some none else (read v).map some

def texts? (f : Format α) (value : α) : Option (List String) :=
  (f.items? value).bind (readAll? f.text?)

/-- Reads the six settings, given the value of each. -/
def ofValues? (f : Format α) (target replacement keyword extensions excluded included : Option α) :
    Option Section :=
  match optional? f f.text? target, optional? f f.text? replacement, optional? f f.text? keyword,
    optional? f (texts? f) extensions, optional? f (texts? f) excluded,
    optional? f (texts? f) included with
  | some target, some replacement, some keyword, some extensions, some excluded, some included =>
    some { target, replacement, keyword, extensions, excluded, included }
  | _, _, _, _, _, _ => none

/-- Reads the settings from the fields of a table, looked up by key. -/
def ofFields? (f : Format α) (get? : String → Option α) : Option Section :=
  ofValues? f (get? "target_function") (get? "replacement_function") (get? "error_handler_keyword")
    (get? "file_extensions") (get? "exclude_folders") (get? "include_folders")

/-- Reads the settings from an array of all of them; `more` says whether further items may follow.
-/
def ofItems? (f : Format α) (more : Bool) : List α → Option Section
  | a :: b :: c :: d :: e :: g :: rest =>
    if more || rest.isEmpty then
      ofValues? f (some a) (some b) (some c) (some d) (some e) (some g)
    else none
  | _ => none

/-! ## TOML -/

def toml : Format Toml.Node where
  isNull _ := false
  text?
    | .string s => some s
    | _ => none
  items?
    | .array items => some items
    | .tables tables => some tables
    | _ => none

/-- Reads a section from a TOML value. A date or time stands for a table without settings. -/
def ofToml? (node : Toml.Node) : Option Section :=
  match node with
  | .moment => some {}
  | .inline items | .table _ items => ofFields? toml (items.lookup ·)
  | .array items | .tables items => ofItems? toml true items
  | _ => none

/-- Reads the section of a TOML document; a document without one sets nothing. -/
def ofTomlDocument? (items : Toml.Items) : Option Section :=
  match items.lookup sectionKey with
  | none => some {}
  | some node => ofToml? node

/-! ## JSON -/

def json : Format Json.Value where
  isNull
    | .null => true
    | _ => false
  text?
    | .string text => text
    | _ => none
  items?
    | .array items => some items
    | _ => none

/-- The keys of a section. -/
def keys : List String :=
  ["target_function", "replacement_function", "error_handler_keyword", "file_extensions",
    "exclude_folders", "include_folders"]

/-- Whether fields can be told apart: every key is text, and none of the given keys repeats. -/
def isDistinct (known : List String) (fields : List (Option String × Json.Value)) : Bool :=
  fields.all (·.1.isSome) && known.all fun key => fields.countP (·.1 == some key) ≤ 1

/-- The value of a field. -/
def field? (fields : List (Option String × Json.Value)) (key : String) : Option Json.Value :=
  fields.lookup (some key)

/-- Reads a section from a JSON value. -/
def ofJson? (value : Json.Value) : Option Section :=
  match value with
  | .object fields => if isDistinct keys fields then ofFields? json (field? fields) else none
  | .array items => ofItems? json false items
  | _ => none

/-- Reads the section of a JSON document; `none` when it has none or cannot be read. -/
def ofJsonDocument? (value : Json.Value) : Option Section :=
  let found := match value with
    | .object fields => if isDistinct [sectionKey] fields then field? fields sectionKey else none
    | .array [item] => some item
    | _ => none
  found.bind ofJson?

end Section

end LogSweep
