import LogSweep.Lexical.Scan

/-!
# The block cursor

A cursor passes over the cells of a text once, front to back, and keeps what the position in front
of it depends on: the last significant byte, the line it is on, and the brackets still open. A brace
is recognised as the body of an error handler when it is opened, so telling whether a position lies
in a handler only looks at the open brackets.
-/

namespace LogSweep.Block

open Lexical

inductive Bracket where
  | paren
  | square
  | brace
  deriving DecidableEq, Repr, Inhabited

/-- The bracket that a byte opens. -/
def Bracket.opened? (b : UInt8) : Option Bracket :=
  match b with
  | Byte.openParen => some .paren
  | Byte.openSquare => some .square
  | Byte.openBrace => some .brace
  | _ => none

/-- The bracket that a byte closes. -/
def Bracket.closed? (b : UInt8) : Option Bracket :=
  match b with
  | Byte.closeParen => some .paren
  | Byte.closeSquare => some .square
  | Byte.closeBrace => some .brace
  | _ => none

/-- A cell at its place: its offset, and the cells before it, nearest first. -/
structure Spot where
  offset : Nat
  cell : Cell
  before : List Cell
  deriving DecidableEq, Repr, Inhabited

/-- The body of an error handler, with the first name of its parameter list. -/
structure Handler where
  openBrace : Nat
  parameter : Option Bytes
  deriving DecidableEq, Repr, Inhabited

/-- A bracket that is still open. -/
structure Opener where
  bracket : Bracket
  offset : Nat
  /-- The last significant byte before the bracket. -/
  previous : Option Spot
  handler : Option Handler
  deriving DecidableEq, Repr, Inhabited

/-- A parenthesised group that has been closed. -/
structure Group where
  openParen : Nat
  closeParen : Nat
  /-- The last significant byte before the group. -/
  previous : Option Spot
  deriving DecidableEq, Repr, Inhabited

/-- A place in a text and what the text before it amounts to. -/
structure Cursor where
  offset : Nat := 0
  /-- The cells passed over, nearest first. -/
  before : List Cell := []
  line : Nat := 1
  lineStart : Nat := 0
  /-- The last significant byte passed over. -/
  lastCode : Option Spot := none
  /-- The brackets still open, innermost first. -/
  openers : List Opener := []
  lastGroup : Option Group := none
  deriving DecidableEq, Repr, Inhabited

/-- Whether cells, nearest first, end with the word whose reversed bytes are given, and with no
longer name. -/
def endsWithWord : Bytes → List Cell → Bool
  | [], [] => true
  | [], c :: _ => !Byte.isName c.byte
  | _ :: _, [] => false
  | b :: word, c :: cells => b == c.byte && endsWithWord word cells

/-- The name that begins at the first significant cell, if one does. -/
def firstName? (cells : List Cell) : Option Bytes :=
  let bytes := (cells.dropWhile (!·.isSignificant)).map (·.byte)
  match bytes.takeWhile Byte.isName with
  | [] => none
  | b :: name => if Byte.isDigit b then none else some (b :: name)

namespace Cursor

/-- The handler that a brace opened here would begin: the keyword comes right before the brace, or
right before the parenthesised group that does. No keyword is spelled by the empty text. -/
def header? (keyword : Bytes) (c : Cursor) : Option Handler :=
  if keyword.isEmpty then none else
  match c.lastCode with
  | none => none
  | some spot =>
    if spot.cell.byte == Byte.closeParen then
      match c.lastGroup with
      | none => none
      | some group =>
        if group.closeParen != spot.offset then none else
        match group.previous with
        | none => none
        | some word =>
          if endsWithWord keyword.reverse (word.cell :: word.before) then
            let listed := (spot.before.take (group.closeParen - group.openParen - 1)).reverse
            some ⟨c.offset, firstName? listed⟩
          else none
    else if endsWithWord keyword.reverse (spot.cell :: spot.before) then
      some ⟨c.offset, none⟩
    else none

/-- Opens a bracket. -/
def opening (keyword : Bytes) (c : Cursor) (bracket : Bracket) : Cursor :=
  let handler := if bracket == .brace then c.header? keyword else none
  { c with openers := ⟨bracket, c.offset, c.lastCode, handler⟩ :: c.openers }

/-- Closes the nearest open bracket of the given shape, and with it all that were opened inside;
without one the closer is stray and changes nothing. -/
def closing (c : Cursor) (bracket : Bracket) : Cursor :=
  match c.openers.dropWhile (·.bracket != bracket) with
  | [] => c
  | o :: openers =>
    let group := if bracket == .paren then some ⟨o.offset, c.offset, o.previous⟩ else c.lastGroup
    { c with openers := openers, lastGroup := group }

/-- What a significant byte does to the open brackets. -/
def bracketed (keyword : Bytes) (c : Cursor) (b : UInt8) : Cursor :=
  match Bracket.opened? b, Bracket.closed? b with
  | some bracket, _ => c.opening keyword bracket
  | none, some bracket => c.closing bracket
  | none, none => c

/-- Passes over a cell, as far as the position is concerned. -/
def passed (c : Cursor) (cell : Cell) : Cursor :=
  { c with
    offset := c.offset + 1
    before := cell :: c.before
    line := if cell.byte == Byte.newline then c.line + 1 else c.line
    lineStart := if cell.byte == Byte.newline then c.offset + 1 else c.lineStart }

/-- Passes over one cell. -/
def step (keyword : Bytes) (c : Cursor) (cell : Cell) : Cursor :=
  if cell.isSignificant then
    { (c.bracketed keyword cell.byte).passed cell with
      lastCode := some ⟨c.offset, cell, c.before⟩ }
  else
    c.passed cell

/-- Advances to an offset over the cells ahead, and returns those that are left. A comment or
literal is passed as a whole, so the cursor comes to rest behind it when the offset lies inside. A
cursor never moves back. -/
def advance (keyword : Bytes) (target : Nat) (c : Cursor) : List Cell → Cursor × List Cell
  | [] => (c, [])
  | cell :: ahead =>
    if c.offset < target || cell.isInside then
      advance keyword target (c.step keyword cell) ahead
    else
      (c, cell :: ahead)

/-- Whether the innermost open bracket is a parenthesis or a square bracket. -/
def insideGroup (c : Cursor) : Bool :=
  match c.openers with
  | [] => false
  | o :: _ => o.bracket != .brace

/-- The innermost open handler; blocks of other kinds inside it do not hide it. -/
def handler? (c : Cursor) : Option Handler :=
  c.openers.findSome? (·.handler)

/-- Whether only spaces and tabs precede the cursor on its line. -/
def startsLine (c : Cursor) : Bool :=
  match c.before.dropWhile (Byte.isHorizontal ·.byte) with
  | [] => true
  | cell :: _ => cell.byte == Byte.newline

end Cursor

/-- The innermost error handler around an offset of a text. -/
def handlerAt? (keyword text : Bytes) (offset : Nat) : Option Handler :=
  (Cursor.advance keyword offset {} (scan text)).1.handler?

end LogSweep.Block
