/-!
# Writing JSON

Documents and their layout: two blanks of indentation per level, one item per line, empty arrays and
objects on one line. Characters beyond ASCII are written as they are.
-/

namespace LogSweep

/-- A document to be written. -/
inductive Json where
  | null
  | bool (b : Bool)
  | nat (n : Nat)
  /-- The number `digits / Nat.pow 10 places`, written with that many places. -/
  | decimal (digits places : Nat)
  | string (s : String)
  | array (items : List Json)
  | object (fields : List (String × Json))
  deriving Inhabited

namespace Json

/-- Two lower-case hexadecimal digits. -/
def hexByte (n : Nat) : List Char :=
  [Nat.digitChar (n / 16), Nat.digitChar (n % 16)]

/-- A character inside a string literal. -/
def escape (c : Char) : List Char :=
  match c.toNat with
  | 34 => ['\\', c]
  | 92 => ['\\', '\\']
  | 8 => ['\\', 'b']
  | 9 => ['\\', 't']
  | 10 => ['\\', 'n']
  | 12 => ['\\', 'f']
  | 13 => ['\\', 'r']
  | n => if n < 32 then ['\\', 'u', '0', '0'] ++ hexByte n else [c]

/-- A string literal. -/
def quote (s : String) : String :=
  "\"" ++ String.ofList (s.toList.flatMap escape) ++ "\""

/-- A decimal number with the given number of places. -/
def decimalText (digits places : Nat) : String :=
  let fraction := toString (digits % Nat.pow 10 places)
  let zeros := String.ofList (List.replicate (places - fraction.length) '0')
  toString (digits / Nat.pow 10 places) ++ "." ++ zeros ++ fraction

/-- A line break, followed by the indentation of a level. -/
def newLine (level : Nat) : String :=
  "\n" ++ String.ofList (List.replicate (2 * level) ' ')

/-- Encloses items, each on a line of its own. -/
def enclose (level : Nat) (opened closed : String) (items : List String) : String :=
  if items.isEmpty then opened ++ closed
  else
    opened ++ newLine (level + 1) ++ String.intercalate ("," ++ newLine (level + 1)) items ++
      newLine level ++ closed

mutual

/-- Writes a document that stands at the given level of indentation. -/
def pretty (level : Nat) : Json → String
  | .null => "null"
  | .bool b => if b then "true" else "false"
  | .nat n => toString n
  | .decimal digits places => decimalText digits places
  | .string s => quote s
  | .array items => enclose level "[" "]" (prettyItems (level + 1) items)
  | .object fields => enclose level "\x7b" "\x7d" (prettyFields (level + 1) fields)

def prettyItems (level : Nat) : List Json → List String
  | [] => []
  | item :: items => pretty level item :: prettyItems level items

def prettyFields (level : Nat) : List (String × Json) → List String
  | [] => []
  | (key, value) :: fields => (quote key ++ ": " ++ pretty level value) :: prettyFields level fields

end

/-- Writes a document. -/
def render (j : Json) : String :=
  pretty 0 j

end Json

end LogSweep
