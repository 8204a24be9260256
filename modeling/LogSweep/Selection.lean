import LogSweep.Sorted
import LogSweep.Text.Character

/-!
# Selections

An answer such as `1,3-5` picks entries of a numbered list, `!2` all but the ones it names. Numbers
count from one and must lie in the list.
-/

namespace LogSweep

/-- Which entries of a list are picked; entries are named by their place, counted from zero. -/
inductive Selection where
  | all
  | only (indices : List Nat)
  | allBut (indices : List Nat)
  deriving DecidableEq, Repr, Inhabited

namespace Selection

/-- Why an answer is not a selection. -/
inductive Fault where
  | notNumber (text : String)
  | outOfRange (number count : Nat)
  | reversed (range : String)
  deriving DecidableEq, Repr, Inhabited

def Fault.message : Fault → String
  | .notNumber text => s!"'{text}' is not a number or range"
  | .outOfRange number count => s!"{number} is out of range (1-{count})"
  | .reversed range => s!"range '{range}' is reversed"

/-- A number of at most 64 bits, with an optional plus sign. -/
def number? (text : List Char) : Option Nat :=
  let digits := match text with
    | '+' :: rest => rest
    | _ => text
  if digits.isEmpty then none else (Text.digitsValue? 10 digits).filter (· < UInt64.size)

/-- Reads the number of an entry, and gives its place counted from zero. -/
def place (count : Nat) (text : List Char) : Except Fault Nat :=
  let text := Text.trim text
  match number? text with
  | none => .error (.notNumber (String.ofList text))
  | some n => if n == 0 || count < n then .error (.outOfRange n count) else .ok (n - 1)

/-- Cuts a text at the first dash. -/
def cutDash? (text : List Char) : Option (List Char × List Char) :=
  match text.dropWhile (· != '-') with
  | [] => none
  | _ :: rest => some (text.takeWhile (· != '-'), rest)

/-- The places that a number or a range denotes. -/
def places (count : Nat) (part : List Char) : Except Fault (List Nat) :=
  match cutDash? part with
  | none =>
    match place count part with
    | .error fault => .error fault
    | .ok n => .ok [n]
  | some (first, last) =>
    match place count first with
    | .error fault => .error fault
    | .ok first =>
      match place count last with
      | .error fault => .error fault
      | .ok last =>
        if last < first then .error (.reversed (String.ofList part))
        else .ok (List.range' first (last + 1 - first))

/-- The places that parts denote together; the first bad part decides the fault. -/
def allPlaces (count : Nat) : List (List Char) → Except Fault (List Nat)
  | [] => .ok []
  | part :: parts =>
    match places count part with
    | .error fault => .error fault
    | .ok here =>
      match allPlaces count parts with
      | .error fault => .error fault
      | .ok rest => .ok (here ++ rest)

/-- What stands between the commas and blanks of an answer. -/
def parts (answer : List Char) : List (List Char) :=
  (answer.splitOnP fun c => c == ',' || Text.isBlank c).filter (!·.isEmpty)

/-- Whether an answer picks everything. -/
def isAll (answer : List Char) : Bool :=
  answer.isEmpty || answer == ['*'] || answer.map Char.toLower == ['a', 'l', 'l']

/-- Numbers in increasing order, each once. -/
def normal (indices : List Nat) : List Nat :=
  Sorted.dropRepeated id (indices.mergeSort (· ≤ ·))

/-- Reads an answer about a list of `count` entries. -/
def read (count : Nat) (answer : List Char) : Except Fault Selection :=
  let answer := Text.trim answer
  if isAll answer then .ok .all else
  match answer with
  | '!' :: rest =>
    match allPlaces count (parts rest) with
    | .error fault => .error fault
    | .ok indices => .ok (.allBut (normal indices))
  | _ =>
    match allPlaces count (parts answer) with
    | .error fault => .error fault
    | .ok indices => .ok (.only (normal indices))

/-- Keeps the picked entries of a list, in order. -/
def apply (s : Selection) (items : List α) : List α :=
  match s with
  | .all => items
  | .only indices =>
    let sorted := indices.toArray
    (items.zipIdx.filter fun (_, i) => Sorted.isAmong sorted i).map (·.1)
  | .allBut indices =>
    let sorted := indices.toArray
    (items.zipIdx.filter fun (_, i) => !Sorted.isAmong sorted i).map (·.1)

end Selection

end LogSweep
