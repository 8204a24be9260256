/-!
# TOML tables

A TOML document builds up a table one line at a time. Tables remember how they came about, since a
table may be named by a header only once, and dotted keys add only to tables that dotted keys made.
-/

namespace LogSweep.Toml

/-- How a table came about. -/
inductive Origin where
  /-- A header names it. -/
  | header
  /-- It lies on the way to a table that a header names. -/
  | implicit
  /-- A dotted key leads through it. -/
  | dotted
  deriving DecidableEq, Repr, Inhabited

inductive Node where
  | string (text : String)
  /-- A number or truth value. -/
  | scalar
  /-- A date, a time, or both. -/
  | moment
  | array (items : List Node)
  /-- A table written as a value; nothing can be added to it. -/
  | inline (items : List (String × Node))
  | table (origin : Origin) (items : List (String × Node))
  /-- The tables that headers in double brackets add to. -/
  | tables (tables : List Node)
  deriving Inhabited

abbrev Items := List (String × Node)

namespace Items

/-- Puts a node under a key, in place of what is there. -/
def put (items : Items) (key : String) (node : Node) : Items :=
  if (items.lookup key).isSome then
    items.map fun (k, old) => if k == key then (k, node) else (k, old)
  else
    items ++ [(key, node)]

/-- Changes the table that a path leads to. Missing tables on the way are made; a path through
tables in double brackets leads to the last of them. A dotted key does not lead through a table that
a header names. -/
def update (isDotted : Bool) (f : Origin → Items → Option Items) (origin : Origin) (items : Items) :
    List String → Option Items
  | [] => f origin items
  | key :: path =>
    match items.lookup key with
    | none =>
      let made := if isDotted then Origin.dotted else .implicit
      (update isDotted f made [] path).map fun inner => items.put key (.table made inner)
    | some (.table o inner) =>
      if isDotted && o == .header then none
      else (update isDotted f o inner path).map fun inner => items.put key (.table o inner)
    | some (.tables ts) =>
      match ts.reverse with
      | .table o inner :: above =>
        (update isDotted f o inner path).map fun inner =>
          items.put key (.tables (above.reverse ++ [.table o inner]))
      | _ => none
    | some _ => none

/-- Adds a value under a dotted key, given as the tables it leads through and its last name. -/
def insert (origin : Origin) (items : Items) (path : List String) (key : String) (value : Node) :
    Option Items :=
  let add := fun o (inner : Items) =>
    if (o == Origin.dotted) == path.isEmpty || (inner.lookup key).isSome then none
    else some (inner ++ [(key, value)])
  update true add origin items path

/-- Opens the table that a header names. -/
def openTable (items : Items) (path : List String) (key : String) : Option Items :=
  let name := fun _ (inner : Items) =>
    match inner.lookup key with
    | none => some (inner ++ [(key, .table .header [])])
    | some (.table .implicit old) => some (inner.put key (.table .header old))
    | some _ => none
  update false name .header items path

/-- Adds a table to those that a header in double brackets names. -/
def addTable (items : Items) (path : List String) (key : String) : Option Items :=
  let add := fun _ (inner : Items) =>
    match inner.lookup key with
    | none => some (inner ++ [(key, .tables [.table .header []])])
    | some (.tables ts) => some (inner.put key (.tables (ts ++ [.table .header []])))
    | some _ => none
  update false add .header items path

/-- Adds a value below the table that the last header names. -/
def insertBelow (items : Items) (header path : List String) (key : String) (value : Node) :
    Option Items :=
  update false (fun o inner => insert o inner path key value) .header items header

end Items

end LogSweep.Toml
