import LogSweep.Toml.Scalar
import LogSweep.Toml.Table

/-!
# Reading TOML

A recursive-descent reader for TOML documents. Every reading function returns what it read and the
text behind it, and fails on the first thing that is not TOML. The functions that call each other
take the number of steps they may still make; a document has more characters than its reading has
steps.
-/

namespace LogSweep.Toml

/-- What a reading function returns: what it read, and the text behind it. -/
abbrev Read (α : Type) := Option (α × List Char)

def isWhite (c : Char) : Bool :=
  c == ' ' || c == '\t'

/-- The characters that may stand in comments and strings as they are. -/
def isPlain (c : Char) : Bool :=
  c == '\t' || (32 ≤ c.toNat && c.toNat != 127)

def skipWhite (text : List Char) : List Char :=
  text.dropWhile isWhite

/-- The text behind a line break, if it begins with one. -/
def afterBreak? (text : List Char) : Option (List Char) :=
  match text with
  | '\n' :: rest => some rest
  | '\r' :: '\n' :: rest => some rest
  | _ => none

/-- Skips a comment, if there is one. -/
def skipComment? (text : List Char) : Option (List Char) :=
  match text with
  | '#' :: rest =>
    let behind := rest.dropWhile isPlain
    if behind.isEmpty || (afterBreak? behind).isSome then some behind else none
  | _ => some text

/-- Skips white space, comments and line breaks. -/
def skipTrivia? : Nat → List Char → Option (List Char)
  | 0, text => some text
  | fuel + 1, text =>
    match skipComment? (skipWhite text) with
    | none => none
    | some text =>
      match afterBreak? text with
      | none => some text
      | some rest => skipTrivia? fuel rest

/-- The character with the given number, if there is one. -/
def scalarValue? (n : Nat) : Option Char :=
  if n < 0xD800 || (0xE000 ≤ n && n < 0x110000) then some (Char.ofNat n) else none

/-- Reads a character given by a fixed number of hexadecimal digits. -/
def readCoded? (width : Nat) (text : List Char) : Read Char :=
  let digits := text.take width
  if digits.length != width then none else
  match (Text.digitsValue? 16 digits).bind scalarValue? with
  | none => none
  | some c => some (c, text.drop width)

/-- Reads an escape behind its backslash. -/
def readEscape? (text : List Char) : Read Char :=
  match text with
  | 'b' :: rest => some (Char.ofNat 8, rest)
  | 't' :: rest => some ('\t', rest)
  | 'n' :: rest => some ('\n', rest)
  | 'f' :: rest => some (Char.ofNat 12, rest)
  | 'r' :: rest => some ('\r', rest)
  | 'e' :: rest => some (Char.ofNat 27, rest)
  | '"' :: rest => some ('"', rest)
  | '\\' :: rest => some ('\\', rest)
  | 'x' :: rest => readCoded? 2 rest
  | 'u' :: rest => readCoded? 4 rest
  | 'U' :: rest => readCoded? 8 rest
  | _ => none

/-- Reads a basic string behind its opening quote. -/
def readBasic? : Nat → List Char → List Char → Read (List Char)
  | 0, _, _ => none
  | fuel + 1, done, text =>
    match text with
    | '"' :: rest => some (done.reverse, rest)
    | '\\' :: rest =>
      match readEscape? rest with
      | none => none
      | some (c, rest) => readBasic? fuel (c :: done) rest
    | c :: rest => if isPlain c then readBasic? fuel (c :: done) rest else none
    | [] => none

/-- Reads a literal string behind its opening quote. -/
def readLiteral? (text : List Char) : Read (List Char) :=
  let body := text.takeWhile fun c => c != '\'' && isPlain c
  match text.drop body.length with
  | '\'' :: rest => some (body, rest)
  | _ => none

/-- The text behind a run of quotes, and how many belong to the string when the run closes it: the
last three of up to five close it. -/
def closeRun? (quote : Char) (text : List Char) : Option (Nat × List Char) :=
  let run := text.takeWhile (· == quote)
  if 3 ≤ run.length && run.length ≤ 5 then some (run.length - 3, text.drop run.length) else none

/-- Skips what a backslash at the end of a line takes away: the white space and line breaks that
follow. -/
def skipFolded : List Char → List Char
  | '\r' :: '\n' :: rest => skipFolded rest
  | c :: rest => if isWhite c || c == '\n' then skipFolded rest else c :: rest
  | [] => []

/-- Reads a multi-line string behind its opening quotes; only basic strings have escapes. Line
breaks stay as they are written. -/
def readLong? (quote : Char) : Nat → List Char → List Char → Read (List Char)
  | 0, _, _ => none
  | fuel + 1, done, text =>
    match text with
    | [] => none
    | c :: rest =>
      if c == quote then
        match closeRun? quote text with
        | some (n, behind) => some (done.reverse ++ List.replicate n quote, behind)
        | none =>
          if 5 < (text.takeWhile (· == quote)).length then none
          else readLong? quote fuel (c :: done) rest
      else if c == '\\' && quote == '"' then
        if (afterBreak? (skipWhite rest)).isSome then readLong? quote fuel done (skipFolded rest)
        else
          match readEscape? rest with
          | none => none
          | some (e, rest) => readLong? quote fuel (e :: done) rest
      else
        match text with
        | '\r' :: '\n' :: rest => readLong? quote fuel ('\n' :: '\r' :: done) rest
        | _ => if c == '\n' || isPlain c then readLong? quote fuel (c :: done) rest else none

/-- Drops the line break that may follow the opening quotes of a multi-line string. -/
def dropBreak (text : List Char) : List Char :=
  (afterBreak? text).getD text

/-- Reads a string of any of the four kinds. -/
def readString? (text : List Char) : Read String :=
  let read := match text with
    | '"' :: '"' :: '"' :: rest => readLong? '"' text.length [] (dropBreak rest)
    | '\'' :: '\'' :: '\'' :: rest => readLong? '\'' text.length [] (dropBreak rest)
    | '"' :: rest => readBasic? text.length [] rest
    | '\'' :: rest => readLiteral? rest
    | _ => none
  read.map fun (chars, rest) => (String.ofList chars, rest)

def isBareKey (c : Char) : Bool :=
  c.isAlphanum || c == '_' || c == '-'

/-- Reads one name of a key. -/
def readName? (text : List Char) : Read String :=
  match text with
  | '"' :: rest =>
    (readBasic? text.length [] rest).map fun (chars, rest) => (String.ofList chars, rest)
  | '\'' :: rest => (readLiteral? rest).map fun (chars, rest) => (String.ofList chars, rest)
  | _ =>
    let name := text.takeWhile isBareKey
    if name.isEmpty then none else some (String.ofList name, text.drop name.length)

/-- The number of names that a key may have, and of arrays and inline tables that may stand inside
each other. -/
def nestLimit : Nat := 80

/-- Reads a key of at most `n` names, which dots join, and the white space behind it. -/
def readNames? : Nat → List String → List Char → Read (List String × String)
  | 0, _, _ => none
  | n + 1, path, text =>
    match readName? (skipWhite text) with
    | none => none
    | some (name, rest) =>
      match skipWhite rest with
      | '.' :: rest => readNames? n (path ++ [name]) rest
      | rest => some ((path, name), rest)

/-- Reads a key and the white space behind it. -/
def readKey? (text : List Char) : Read (List String × String) :=
  readNames? nestLimit [] text

/-- The characters that words of scalars are made of. -/
def isWord (c : Char) : Bool :=
  c.isAlphanum || c == '+' || c == '-' || c == '_' || c == '.' || c == ':'

/-- Reads a scalar; a blank may stand between a date and a time. -/
def readScalar? (text : List Char) : Read Node :=
  let word := text.takeWhile isWord
  let rest := text.drop word.length
  let (word, rest) :=
    match rest with
    | ' ' :: more =>
      if afterDate? word == some [] && more.head?.any Char.isDigit then
        let time := more.takeWhile isWord
        (word ++ ' ' :: time, more.drop time.length)
      else (word, rest)
    | _ => (word, rest)
  if isMoment word then some (.moment, rest)
  else if isScalar word then some (.scalar, rest)
  else none

mutual

/-- Reads a value in which at most `depth` arrays and inline tables stand inside each other. -/
def readValue? : Nat → Nat → List Char → Read Node
  | 0, _, _ => none
  | fuel + 1, depth, text =>
    match text with
    | [] => none
    | '"' :: _ | '\'' :: _ => (readString? text).map fun (s, rest) => (.string s, rest)
    | '[' :: rest =>
      if depth == 0 then none
      else (readItems? fuel (depth - 1) [] rest).map fun (items, rest) => (.array items, rest)
    | c :: rest =>
      if c.toNat != 123 then readScalar? text
      else if depth == 0 then none
      else (readFields? fuel (depth - 1) [] rest).map fun (items, rest) => (.inline items, rest)

/-- Reads the items of an array and the bracket behind them. -/
def readItems? : Nat → Nat → List Node → List Char → Read (List Node)
  | 0, _, _, _ => none
  | fuel + 1, depth, done, text =>
    match skipTrivia? text.length text with
    | none => none
    | some (']' :: rest) => some (done.reverse, rest)
    | some text =>
      match readValue? fuel depth text with
      | none => none
      | some (item, rest) =>
        match skipTrivia? rest.length rest with
        | some (',' :: rest) => readItems? fuel depth (item :: done) rest
        | some (']' :: rest) => some ((item :: done).reverse, rest)
        | _ => none

/-- Reads the fields of an inline table and the brace behind them. -/
def readFields? : Nat → Nat → Items → List Char → Read Items
  | 0, _, _, _ => none
  | fuel + 1, depth, done, text =>
    match skipTrivia? text.length text with
    | none | some [] => none
    | some (c :: rest) =>
      if c.toNat == 125 then some (done, rest) else
      match readKey? (c :: rest) with
      | some ((path, key), '=' :: rest) =>
        match readValue? fuel depth (skipWhite rest) with
        | none => none
        | some (value, rest) =>
          match done.insert .header path key value, skipTrivia? rest.length rest with
          | some done, some (c :: rest) =>
            if c == ',' then readFields? fuel depth done rest
            else if c.toNat == 125 then some (done, rest)
            else none
          | _, _ => none
      | _ => none

end

/-- The text behind the rest of a line, which may hold only a comment. -/
def endLine? (text : List Char) : Option (List Char) :=
  match skipComment? (skipWhite text) with
  | none => none
  | some [] => some []
  | some text => afterBreak? text

/-- Reads one line that is not empty into a document whose last header is given. -/
def readLine? (items : Items) (header : List String) (text : List Char) :
    Read (Items × List String) :=
  match text with
  | '[' :: '[' :: rest =>
    match readKey? rest with
    | some ((path, key), ']' :: ']' :: rest) =>
      (items.addTable path key).map fun items => ((items, path ++ [key]), rest)
    | _ => none
  | '[' :: rest =>
    match readKey? rest with
    | some ((path, key), ']' :: rest) =>
      (items.openTable path key).map fun items => ((items, path ++ [key]), rest)
    | _ => none
  | _ =>
    match readKey? text with
    | some ((path, key), '=' :: rest) =>
      match readValue? (2 * text.length) nestLimit (skipWhite rest) with
      | none => none
      | some (value, rest) =>
        (items.insertBelow header path key value).map fun items => ((items, header), rest)
    | _ => none

/-- Reads lines into a document whose last header is given. -/
def readLines? : Nat → Items → List String → List Char → Option Items
  | 0, _, _, _ => none
  | fuel + 1, items, header, text =>
    match skipTrivia? text.length text with
    | none => none
    | some [] => some items
    | some text =>
      match readLine? items header text with
      | none => none
      | some ((items, header), rest) =>
        match endLine? rest with
        | none => none
        | some rest => readLines? fuel items header rest

/-- Reads a document; a byte order mark in front is ignored. -/
def read? (text : List Char) : Option Items :=
  let text := match text with
    | c :: rest => if c.toNat == 0xFEFF then rest else text
    | [] => []
  readLines? (text.length + 1) [] [] text

end LogSweep.Toml
