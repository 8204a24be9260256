import LogSweep.Json.Token

/-!
# Reading JSON

Tokens are put together to a value with a stack of the arrays and objects still open. A strict
reading also refuses unpaired surrogates, numbers beyond double precision and deep nesting.
-/

namespace LogSweep.Json

/-- A value that has been read. Fields keep their order and may repeat; a string with an unpaired
surrogate has no text. -/
inductive Value where
  | null
  | bool (b : Bool)
  | number
  | string (text : Option String)
  | array (items : List Value)
  | object (fields : List (Option String × Value))
  deriving Inhabited

/-- An array or object that is still open, its contents latest first. -/
inductive Frame where
  | array (items : List Value)
  | object (fields : List (Option String × Value))
  /-- An object whose next value belongs to the key. -/
  | field (fields : List (Option String × Value)) (key : Option String)
  deriving Inhabited

/-- What has to come next. -/
inductive Expect where
  /-- A value, or the end of the array just opened. -/
  | item (mayClose : Bool)
  /-- A key, or the end of the object just opened. -/
  | key (mayClose : Bool)
  | colon
  /-- A comma or the end of what is open. -/
  | next
  /-- Nothing: the value is complete. -/
  | nothing (value : Value)
  deriving Inhabited

/-- Hands a complete value to what is open around it. -/
def complete (value : Value) : List Frame → Expect × List Frame
  | [] => (.nothing value, [])
  | .array items :: frames => (.next, .array (value :: items) :: frames)
  | .object fields :: frames => (.next, .object fields :: frames)
  | .field fields key :: frames => (.next, .object ((key, value) :: fields) :: frames)

/-- Takes one token. -/
def take? (expect : Expect) (frames : List Frame) (token : Token) : Option (Expect × List Frame) :=
  match expect, token, frames with
  | .item _, .null, _ => some (complete .null frames)
  | .item _, .bool b, _ => some (complete (.bool b) frames)
  | .item _, .number _, _ => some (complete .number frames)
  | .item _, .string text, _ => some (complete (.string text) frames)
  | .item _, .openArray, _ => some (.item true, .array [] :: frames)
  | .item _, .openObject, _ => some (.key true, .object [] :: frames)
  | .item true, .closeArray, .array items :: outer => some (complete (.array items.reverse) outer)
  | .key _, .string text, .object fields :: outer => some (.colon, .field fields text :: outer)
  | .key true, .closeObject, .object fields :: outer =>
    some (complete (.object fields.reverse) outer)
  | .colon, .colon, _ => some (.item false, frames)
  | .next, .comma, .array _ :: _ => some (.item false, frames)
  | .next, .comma, .object _ :: _ => some (.key false, frames)
  | .next, .closeArray, .array items :: outer => some (complete (.array items.reverse) outer)
  | .next, .closeObject, .object fields :: outer => some (complete (.object fields.reverse) outer)
  | _, _, _ => none

/-- Puts tokens together, with at most `depth` arrays and objects open at a time. -/
def build? (depth : Nat) (expect : Expect) (frames : List Frame) : List Token → Option Value
  | [] =>
    match expect with
    | .nothing value => some value
    | _ => none
  | token :: tokens =>
    match take? expect frames token with
    | none => none
    | some (expect, frames) =>
      if depth < frames.length then none else build? depth expect frames tokens

/-- Reads a value without any limit. -/
def read? (text : List Char) : Option Value :=
  match tokens? text with
  | none => none
  | some tokens => build? tokens.length (.item false) [] tokens

/-- The number of arrays and objects that a strict reading lets stand inside each other. -/
def strictDepth : Nat := 127

/-- Whether a strict reading accepts a token. -/
def Token.isStrict : Token → Bool
  | .number finite => finite
  | .string text => text.isSome
  | _ => true

/-- Reads a value strictly. -/
def readStrict? (text : List Char) : Option Value :=
  match tokens? text with
  | none => none
  | some tokens =>
    if tokens.all Token.isStrict then build? strictDepth (.item false) [] tokens else none

/-- Whether a value is an object with the given key. -/
def Value.hasKey (key : String) : Value → Bool
  | .object fields => fields.any fun (k, _) => k == some key
  | _ => false

end LogSweep.Json
