import LogSweep.Text.Character

/-!
# JSON tokens

A JSON text as tokens. Two things are noted and not refused here, since readers differ on them: a
string may hold half of a surrogate pair, and a number may be too large for double precision. The
value of a number is not kept, only whether it is finite.
-/

namespace LogSweep.Json

inductive Token where
  | openArray
  | closeArray
  | openObject
  | closeObject
  | comma
  | colon
  | null
  | bool (b : Bool)
  | number (finite : Bool)
  /-- A string literal; `none` when half of a surrogate pair stands alone in it. -/
  | string (text : Option String)
  deriving DecidableEq, Repr, Inhabited

/-- What a string literal is made of: characters, and code units given by number. -/
inductive Piece where
  | char (c : Char)
  | unit (n : Nat)
  deriving DecidableEq, Repr, Inhabited

def isHighSurrogate (n : Nat) : Bool :=
  0xD800 ≤ n && n < 0xDC00

def isLowSurrogate (n : Nat) : Bool :=
  0xDC00 ≤ n && n < 0xE000

/-- The characters of a string literal; surrogates count only in pairs. -/
def characters? : List Piece → Option (List Char)
  | [] => some []
  | .char c :: rest => (characters? rest).map (c :: ·)
  | .unit high :: .unit low :: rest =>
    if isHighSurrogate high then
      if isLowSurrogate low then
        let n := 0x10000 + (high - 0xD800) * 0x400 + (low - 0xDC00)
        (characters? rest).map (Char.ofNat n :: ·)
      else none
    else if isLowSurrogate high then none
    else (characters? (.unit low :: rest)).map (Char.ofNat high :: ·)
  | .unit n :: rest =>
    if isHighSurrogate n || isLowSurrogate n then none
    else (characters? rest).map (Char.ofNat n :: ·)

/-- The character that a one-letter escape stands for. -/
def shortEscape? (c : Char) : Option Char :=
  match c with
  | '"' | '\\' | '/' => some c
  | 'b' => some (Char.ofNat 8)
  | 'f' => some (Char.ofNat 12)
  | 'n' => some '\n'
  | 'r' => some '\r'
  | 't' => some '\t'
  | _ => none

/-- Reads a string literal behind its opening quote: its pieces, and the text behind it. -/
def readString? (done : List Piece) : List Char → Option (List Piece × List Char)
  | [] => none
  | '"' :: rest => some (done.reverse, rest)
  | '\\' :: 'u' :: a :: b :: c :: d :: rest =>
    match Text.digitsValue? 16 [a, b, c, d] with
    | some n => readString? (.unit n :: done) rest
    | none => none
  | '\\' :: c :: rest =>
    match shortEscape? c with
    | some c => readString? (.char c :: done) rest
    | none => none
  | c :: rest => if c.toNat < 32 || c == '\\' then none else readString? (.char c :: done) rest

/-- Reads the exponent of a number, if there is one. -/
def readExponent? (text : List Char) : Option (Int × List Char) :=
  match text with
  | 'e' :: rest | 'E' :: rest =>
    let (negative, rest) := match rest with
      | '+' :: rest => (false, rest)
      | '-' :: rest => (true, rest)
      | _ => (false, rest)
    match rest.takeWhile Char.isDigit with
    | [] => none
    | digits =>
      let n : Int := Text.decimalValue digits
      some (if negative then -n else n, rest.dropWhile Char.isDigit)
  | _ => some (0, text)

/-- Reads the fraction of a number, if there is one. -/
def readFraction? (text : List Char) : Option (List Char × List Char) :=
  match text with
  | '.' :: rest =>
    match rest.takeWhile Char.isDigit with
    | [] => none
    | digits => some (digits, rest.dropWhile Char.isDigit)
  | _ => some ([], text)

/-- Appends decimal digits to a value as long as it fits into 64 bits: the value, and the digits
left over. -/
def fitDigits (value : Nat) : List Char → Nat × List Char
  | [] => (value, [])
  | c :: digits =>
    let longer := 10 * value + (c.toNat - 48)
    if longer < 2 ^ 64 then fitDigits longer digits else (value, c :: digits)

/-- Whether a number is finite. Of its digits count as many as fit into 64 bits; digits of the whole
part that do not fit scale the number, and those of the fraction are dropped. -/
def isFinite (whole fraction : List Char) (exponent : Int) : Bool :=
  let (value, scale) := fitDigits 0 whole
  let (value, dropped) := fitDigits value fraction
  let places := fraction.length - dropped.length
  Text.isFiniteProduct value (scale.length - places + exponent)

/-- Reads a number: whether it is finite, and the text behind it. -/
def readNumber? (text : List Char) : Option (Bool × List Char) :=
  let unsigned := match text with
    | '-' :: rest => rest
    | _ => text
  let whole := unsigned.takeWhile Char.isDigit
  if whole.isEmpty || (whole.head? == some '0' && whole.length != 1) then none else
  match readFraction? (unsigned.dropWhile Char.isDigit) with
  | none => none
  | some (fraction, rest) =>
    match readExponent? rest with
    | none => none
    | some (exponent, rest) => some (isFinite whole fraction exponent, rest)

/-- The token that a text begins with, and the text behind it. -/
def readToken? (text : List Char) : Option (Token × List Char) :=
  match text with
  | [] => none
  | '[' :: rest => some (.openArray, rest)
  | ']' :: rest => some (.closeArray, rest)
  | ',' :: rest => some (.comma, rest)
  | ':' :: rest => some (.colon, rest)
  | '"' :: rest => (readString? [] rest).map fun (pieces, rest) =>
      (.string ((characters? pieces).map String.ofList), rest)
  | 'n' :: 'u' :: 'l' :: 'l' :: rest => some (.null, rest)
  | 't' :: 'r' :: 'u' :: 'e' :: rest => some (.bool true, rest)
  | 'f' :: 'a' :: 'l' :: 's' :: 'e' :: rest => some (.bool false, rest)
  | c :: rest =>
    if c.toNat == 123 then some (.openObject, rest)
    else if c.toNat == 125 then some (.closeObject, rest)
    else (readNumber? (c :: rest)).map fun (finite, rest) => (.number finite, rest)

def isWhite (c : Char) : Bool :=
  c == ' ' || c == '\t' || c == '\n' || c == '\r'

/-- Reads tokens, with those read so far, latest first; at most `fuel` of them. -/
def readTokens? (fuel : Nat) (done : List Token) (text : List Char) : Option (List Token) :=
  match text.dropWhile isWhite, fuel with
  | [], _ => some done.reverse
  | _, 0 => none
  | text, fuel + 1 =>
    match readToken? text with
    | none => none
    | some (token, rest) => readTokens? fuel (token :: done) rest

/-- The tokens of a text; there are no more of them than characters. -/
def tokens? (text : List Char) : Option (List Token) :=
  readTokens? text.length [] text

end LogSweep.Json
