import LogSweep.Text.Character

/-!
# TOML scalars

Which words are numbers, truth values, dates or times.
-/

namespace LogSweep.Toml

/-- The digits of a row in which single underscores may stand between digits. -/
def plainDigits? (isDigit : Char → Bool) (row : List Char) : Option (List Char) :=
  let groups := row.splitOn '_'
  if groups.all fun g => !g.isEmpty && g.all isDigit then some groups.flatten else none

/-- A number without its sign. -/
def withoutSign (word : List Char) : List Char :=
  match word with
  | '+' :: rest | '-' :: rest => rest
  | _ => word

/-- Digits in base ten that do not begin with an idle zero. -/
def decimal? (row : List Char) : Option (List Char) :=
  match plainDigits? Char.isDigit row with
  | some ('0' :: _ :: _) => none
  | digits => digits

/-- The digits of an integer and their base. -/
def integerDigits? (word : List Char) : Option (Nat × List Char) :=
  match word with
  | '0' :: 'x' :: row => (plainDigits? (fun c => (Text.digitValue? 16 c).isSome) row).map (16, ·)
  | '0' :: 'o' :: row => (plainDigits? (fun c => (Text.digitValue? 8 c).isSome) row).map (8, ·)
  | '0' :: 'b' :: row => (plainDigits? (fun c => (Text.digitValue? 2 c).isSome) row).map (2, ·)
  | _ => (decimal? (withoutSign word)).map (10, ·)

/-- Whether a word is an integer of at most 128 bits. -/
def isInteger (word : List Char) : Bool :=
  match integerDigits? word with
  | none => false
  | some (base, digits) =>
    match Text.digitsValue? base digits with
    | none => false
    | some n => if word.head? == some '-' then n ≤ Nat.pow 2 127 else n < Nat.pow 2 128

/-- The exponent that a float ends with, if any: `none` when it is malformed. -/
def exponent? (row : List Char) : Option Int :=
  match row with
  | [] => some 0
  | _ :: digits =>
    (plainDigits? Char.isDigit (withoutSign digits)).map fun plain =>
      let n : Int := Text.decimalValue plain
      if digits.head? == some '-' then -n else n

/-- Whether a word is a float within the range of double precision. -/
def isFloat (word : List Char) : Bool :=
  let row := withoutSign word
  if row == ['i', 'n', 'f'] || row == ['n', 'a', 'n'] then true else
  let isE := fun c => c == 'e' || c == 'E'
  let mantissa := row.takeWhile (!isE ·)
  let power := row.dropWhile (!isE ·)
  let whole := mantissa.takeWhile (· != '.')
  let point := mantissa.dropWhile (· != '.')
  if point.isEmpty && power.isEmpty then false else
  let fraction? := if point.isEmpty then some [] else plainDigits? Char.isDigit point.tail
  match decimal? whole, fraction?, exponent? power with
  | some whole, some fraction, some exponent =>
    Text.isFinite (Text.decimalValue (whole ++ fraction)) (exponent - fraction.length)
  | _, _, _ => false

/-- Reads exactly `n` decimal digits. -/
def fixed? (n : Nat) (row : List Char) : Option (Nat × List Char) :=
  let digits := row.take n
  if digits.length == n && digits.all Char.isDigit then some (Text.decimalValue digits, row.drop n)
  else none

/-- The number of days of a month. -/
def daysIn (year month : Nat) : Nat :=
  if month == 2 then
    if year % 4 == 0 && (year % 100 != 0 || year % 400 == 0) then 29 else 28
  else if month == 4 || month == 6 || month == 9 || month == 11 then 30
  else 31

/-- Reads a date: what is behind it. -/
def afterDate? (row : List Char) : Option (List Char) := do
  let (year, row) ← fixed? 4 row
  let '-' :: row := row | none
  let (month, row) ← fixed? 2 row
  let '-' :: row := row | none
  let (day, row) ← fixed? 2 row
  if 1 ≤ month && month ≤ 12 && 1 ≤ day && day ≤ daysIn year month then some row else none

/-- Reads the seconds of a time, which may be left out: what is behind them. -/
def afterSeconds? (row : List Char) : Option (List Char) :=
  match row with
  | ':' :: row => do
    let (second, row) ← fixed? 2 row
    if 60 < second then none else
    match row with
    | '.' :: row =>
      if (row.takeWhile Char.isDigit).isEmpty then none else some (row.dropWhile Char.isDigit)
    | _ => some row
  | _ => some row

/-- Reads a time of day: what is behind it. -/
def afterTime? (row : List Char) : Option (List Char) := do
  let (hour, row) ← fixed? 2 row
  let ':' :: row := row | none
  let (minute, row) ← fixed? 2 row
  if hour < 24 && minute < 60 then afterSeconds? row else none

/-- Whether a row is an offset from universal time, or nothing. -/
def isOffset (row : List Char) : Bool :=
  match row with
  | [] | ['Z'] | ['z'] => true
  | sign :: row =>
    if sign == '+' || sign == '-' then
      match fixed? 2 row with
      | some (hour, ':' :: row) =>
        match fixed? 2 row with
        | some (minute, []) => hour < 24 && minute < 60
        | _ => false
      | _ => false
    else false

/-- Whether a word is a date, a time, or both. -/
def isMoment (word : List Char) : Bool :=
  match afterDate? word with
  | some [] => true
  | some (c :: row) =>
    if c == 'T' || c == 't' || c == ' ' then (afterTime? row).any isOffset else false
  | none => afterTime? word == some []

/-- Whether a word is a number or a truth value. -/
def isScalar (word : List Char) : Bool :=
  word == ['t', 'r', 'u', 'e'] || word == ['f', 'a', 'l', 's', 'e'] || isInteger word ||
    isFloat word

end LogSweep.Toml
