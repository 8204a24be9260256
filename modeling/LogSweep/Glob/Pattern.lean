import LogSweep.Text.Bytes

/-!
# Patterns

Patterns over bytes: single bytes and runs of bytes of a class, put in sequence or side by side.
Matching marks positions of the text, before its first byte up to behind its last one: a pattern
moves the marks from where its match may begin to where it may end.
-/

namespace LogSweep.Glob

/-- A class of bytes: those in one of the closed ranges, or all others. -/
structure ByteClass where
  negated : Bool := false
  ranges : List (UInt8 × UInt8) := []
  deriving DecidableEq, Repr, Inhabited

namespace ByteClass

def contains (c : ByteClass) (b : UInt8) : Bool :=
  c.negated != c.ranges.any fun (first, last) => first ≤ b && b ≤ last

def single (b : UInt8) : ByteClass :=
  { ranges := [(b, b)] }

/-- All bytes. -/
def all : ByteClass :=
  { negated := true }

/-- All bytes but the slash. -/
def noSlash : ByteClass :=
  { negated := true, ranges := [(Byte.slash, Byte.slash)] }

end ByteClass

inductive Pattern where
  | empty
  /-- One byte of a class. -/
  | one (c : ByteClass)
  /-- Any number of bytes of a class. -/
  | many (c : ByteClass)
  | seq (a b : Pattern)
  | alt (a b : Pattern)
  deriving DecidableEq, Repr, Inhabited

namespace Pattern

/-- Moves the marks of a text over one byte of a class. -/
def moveOver (c : ByteClass) (text : Bytes) (marks : List Bool) : List Bool :=
  false :: List.zipWith (fun b mark => mark && c.contains b) text marks

/-- Spreads the marks of a text over bytes of a class; `reached` says whether a mark spreads to the
first position. -/
def spreadOver (c : ByteClass) (reached : Bool) : Bytes → List Bool → List Bool
  | _, [] => []
  | [], mark :: _ => [reached || mark]
  | b :: text, mark :: marks =>
    (reached || mark) :: spreadOver c ((reached || mark) && c.contains b) text marks

/-- Moves the marks of a text over a pattern. -/
def move (text : Bytes) : Pattern → List Bool → List Bool
  | .empty, marks => marks
  | .one c, marks => moveOver c text marks
  | .many c, marks => spreadOver c false text marks
  | .seq a b, marks => move text b (move text a marks)
  | .alt a b, marks => List.zipWith (· || ·) (move text a marks) (move text b marks)

/-- Whether a pattern matches a whole text. -/
def isMatch (p : Pattern) (text : Bytes) : Bool :=
  (move text p (true :: text.map fun _ => false)).getLast? == some true

def slash : Pattern :=
  .one (.single Byte.slash)

def anything : Pattern :=
  .many .all

/-- Patterns one after the other. -/
def sequence (ps : List Pattern) : Pattern :=
  ps.foldr .seq .empty

/-- One of some patterns; `none` when there are none. -/
def choice? : List Pattern → Option Pattern
  | [] => none
  | p :: ps => some (ps.foldl .alt p)

/-- A text as it is. -/
def literal (text : Bytes) : Pattern :=
  sequence (text.map fun b => .one (.single b))

end Pattern

end LogSweep.Glob
