/-!
# Characters

Sets of characters as ranges of code points, white space, and digits with the numbers that rows of
them stand for.
-/

namespace LogSweep.Text

/-- Whether a number lies in one of the ranges. -/
def inRanges (ranges : List (Nat × Nat)) (n : Nat) : Bool :=
  ranges.any fun (first, last) => first ≤ n && n ≤ last

/-! ## White space -/

/-- Whether a character has the property `White_Space`. -/
def isBlank (c : Char) : Bool :=
  let n := c.toNat
  9 ≤ n && n ≤ 13 || n == 0x20 || n == 0x85 || n == 0xA0 || n == 0x1680 ||
  0x2000 ≤ n && n ≤ 0x200A || n == 0x2028 || n == 0x2029 || n == 0x202F || n == 0x205F ||
  n == 0x3000

/-- Removes white space from both ends. -/
def trim (s : List Char) : List Char :=
  ((s.dropWhile isBlank).reverse.dropWhile isBlank).reverse

/-! ## Numerals -/

/-- The value of a digit in a base of at most sixteen. -/
def digitValue? (base : Nat) (c : Char) : Option Nat :=
  let n := c.toNat
  let value :=
    if 48 ≤ n && n ≤ 57 then some (n - 48)
    else if 97 ≤ n && n ≤ 102 then some (n - 87)
    else if 65 ≤ n && n ≤ 70 then some (n - 55)
    else none
  value.filter (· < base)

/-- The value of a row of digits, which may be empty; `none` when something else is among them. -/
def digitsValue? (base : Nat) (digits : List Char) : Option Nat :=
  digits.foldl (fun value c => do return base * (← value) + (← digitValue? base c)) (some 0)

/-- The value of a row of decimal digits. -/
def decimalValue (digits : List Char) : Nat :=
  (digitsValue? 10 digits).getD 0

/-- From here on a number rounds beyond the largest double. -/
def doubleLimit : Nat := Nat.pow 2 1024 - Nat.pow 2 970

/-- Whether `digits * 10 ^ exponent` rounds to a finite double. -/
def isFinite (digits : Nat) (exponent : Int) : Bool :=
  let size := exponent + (toString digits).length
  if digits == 0 || size < 300 then true
  else if 310 < size then false
  else if 0 ≤ exponent then digits * Nat.pow 10 exponent.toNat < doubleLimit
  else digits < doubleLimit * Nat.pow 10 (-exponent).toNat

/-- Rounds a number to the 53 significant bits of a double, a half to the even neighbour. -/
def roundDouble (n : Nat) : Nat :=
  let unit := Nat.pow 2 (n.log2 + 1 - 53)
  let quotient := n / unit
  let rest := n % unit
  let isUp := unit < 2 * rest || 2 * rest == unit && quotient % 2 == 1
  (if isUp then quotient + 1 else quotient) * unit

/-- Whether `digits * 10 ^ exponent` is finite when it is computed as a product of doubles: both
factors and the product are rounded, and no power of ten beyond 308 is a double. -/
def isFiniteProduct (digits : Nat) (exponent : Int) : Bool :=
  if digits == 0 || exponent < 0 then true
  else if 308 < exponent then false
  else roundDouble (roundDouble digits * roundDouble (Nat.pow 10 exponent.toNat)) < Nat.pow 2 1024

end LogSweep.Text
