import LogSweep.Block.Cursor

/-!
# Call statements

The search walks over a text with a block cursor and stops wherever the name of the target function
stands. A place in code where the whole name is called is judged: it is a call statement, which the
sweep may take out, or it is refused with the reason why it cannot be. Everything that follows the
name is read off the cells ahead of the cursor, everything before it off the cursor.
-/

namespace LogSweep.Call

open Lexical Block

/-- Why a call is left alone. -/
inductive Refusal where
  /-- The text ends before the parenthesis closes. -/
  | unbalanced
  /-- The call is part of an expression, or the body of a statement without braces. -/
  | notStatement
  /-- What follows makes use of the result. -/
  | resultUsed
  deriving DecidableEq, Repr, Inhabited

def Refusal.message : Refusal → String
  | .unbalanced => "unbalanced parentheses"
  | .notStatement => "not a statement"
  | .resultUsed => "result is used"

/-- How a call inside an error handler is redirected. -/
structure Redirection where
  /-- The innermost handler around the call. -/
  handler : Handler
  /-- What the redirected call is put behind: nothing when it starts its line, and otherwise the
  start of a line of its own, one space deeper than the line it came from. -/
  lead : Bytes
  deriving DecidableEq, Repr, Inhabited

/-- A call statement of the target function. -/
structure Site where
  /-- The name's first byte. -/
  start : Nat
  /-- The end of the statement: behind its semicolon, or else behind its closing parenthesis. -/
  stop : Nat
  line : Nat
  /-- The text between the parentheses. -/
  arguments : Bytes
  semicolon : Bool
  lineStart : Nat
  /-- Only spaces and tabs precede the call on its line. -/
  startsLine : Bool
  /-- What disappears when the call is deleted. -/
  removal : Span
  /-- How to redirect the call when it lies inside an error handler. -/
  redirection : Option Redirection
  deriving DecidableEq, Repr, Inhabited

/-- The statement itself. -/
def Site.span (s : Site) : Span :=
  ⟨s.start, s.stop⟩

/-- A call that is left alone. -/
structure Refused where
  start : Nat
  line : Nat
  reason : Refusal
  deriving DecidableEq, Repr, Inhabited

/-- Whether the cells spell out the given bytes first. -/
def spells : Bytes → List Cell → Bool
  | [], _ => true
  | _ :: _, [] => false
  | b :: bytes, c :: cells => b == c.byte && spells bytes cells

/-- Passes over the cells whose byte satisfies `p`, keeping count of the offset. -/
def skipWhile (p : UInt8 → Bool) (offset : Nat) : List Cell → Nat × List Cell
  | [] => (offset, [])
  | c :: cells => if p c.byte then skipWhile p (offset + 1) cells else (offset, c :: cells)

/-- The parenthesis that brings the count of open ones back to zero, and the cells behind it. Only
code counts. -/
def closingParen? (depth : Int) (offset : Nat) : List Cell → Option (Nat × List Cell)
  | [] => none
  | c :: cells =>
    if !c.isCode then closingParen? depth (offset + 1) cells
    else if c.byte == Byte.openParen then closingParen? (depth + 1) (offset + 1) cells
    else if c.byte == Byte.closeParen then
      if depth - 1 = 0 then some (offset, cells) else closingParen? (depth - 1) (offset + 1) cells
    else closingParen? depth (offset + 1) cells

/-- The bytes that continue the expression of the line above when a line begins with them. -/
def continuations : Bytes :=
  Bytes.ofString ".([?,+-*/%=&|<>"

/-- Whether the first thing behind the gap continues the expression before it. -/
def continuesExpression (cells : List Cell) : Bool :=
  match cells.dropWhile (·.isGap) with
  | [] => false
  | c :: _ => c.kind? == some .template || c.isCode && continuations.contains c.byte

/-- How a statement ends. -/
structure Ending where
  stop : Nat
  semicolon : Bool
  /-- The cells behind the statement. -/
  ahead : List Cell
  deriving DecidableEq, Repr, Inhabited

/-- The end of the statement whose closing parenthesis comes right before `offset`; `none` when the
result is used. -/
def ending? (offset : Nat) (cells : List Cell) : Option Ending :=
  match skipWhile Byte.isHorizontal offset cells with
  | (_, []) => some ⟨offset, false, cells⟩
  | (next, c :: ahead) =>
    if c.byte == Byte.semicolon then some ⟨next + 1, true, ahead⟩
    else if c.byte == Byte.closeBrace then some ⟨offset, false, cells⟩
    else if c.byte == Byte.newline || c.byte == Byte.carriageReturn || c.byte == Byte.slash then
      if c.byte == Byte.slash && c.isCode then none
      else if continuesExpression (c :: ahead) then none
      else some ⟨offset, false, cells⟩
    else none

/-- The offset behind the line break or the end of the text that the cells begin with. -/
def lineEnd? (offset : Nat) : List Cell → Option Nat
  | [] => some offset
  | c :: cells =>
    if c.byte == Byte.newline then some (offset + 1)
    else if c.byte == Byte.carriageReturn && cells.head?.map (·.byte) == some Byte.newline then
      some (offset + 2)
    else none

/-- What to delete with a statement: the whole line when there is nothing else on it, the blanks
behind it when it ends its line, and only the statement otherwise. -/
def removal (cursor : Cursor) (e : Ending) : Span :=
  let (rest, cells) := skipWhile Byte.isHorizontal e.stop e.ahead
  match lineEnd? rest cells with
  | some lineEnd => if cursor.startsLine then ⟨cursor.lineStart, lineEnd⟩ else ⟨cursor.offset, rest⟩
  | none => ⟨cursor.offset, e.stop⟩

/-- Whether the first newline among the cells has a carriage return before it; `wasReturn` says that
the byte before the cells is one. `none` when there is no newline. -/
def longBreak? (wasReturn : Bool) : List Cell → Option Bool
  | [] => none
  | c :: cells =>
    if c.byte == Byte.newline then some wasReturn
    else longBreak? (c.byte == Byte.carriageReturn) cells

/-- Whether the line above the cursor ends with a carriage return and a newline. -/
def longBreakAbove (cursor : Cursor) : Bool :=
  match cursor.before.dropWhile (·.byte != Byte.newline) with
  | _ :: c :: _ => c.byte == Byte.carriageReturn
  | _ => false

/-- The line break to use for a statement at the cursor: that of its own line, or of the line above
when it is on the last line. -/
def lineBreak (cursor : Cursor) (e : Ending) : Bytes :=
  if (longBreak? false e.ahead).getD (longBreakAbove cursor) then
    [Byte.carriageReturn, Byte.newline]
  else [Byte.newline]

/-- The spaces and tabs that a line begins with, off the cells before a place on it, nearest first;
`run` holds those that come right behind the cells. -/
def leadingBlanks (run : Bytes) : List Cell → Bytes
  | [] => run
  | c :: cells =>
    if c.byte == Byte.newline then run
    else leadingBlanks (if Byte.isHorizontal c.byte then c.byte :: run else []) cells

/-- The indentation of the line that the cursor is on. -/
def indentation (cursor : Cursor) : Bytes :=
  leadingBlanks [] cursor.before

/-- How to redirect a statement at the cursor. -/
def redirection? (cursor : Cursor) (e : Ending) : Option Redirection :=
  match cursor.handler? with
  | none => none
  | some handler =>
    if cursor.startsLine then some ⟨handler, []⟩
    else some ⟨handler, lineBreak cursor e ++ indentation cursor ++ [Byte.space]⟩

/-- Whether a statement can begin at the cursor: nothing comes before it, or the end of a statement,
an opened or closed block, or the call statement accepted last; and no group is open around it. -/
def atStatement (cursor : Cursor) (accepted : Option Span) : Bool :=
  !cursor.insideGroup &&
  match cursor.lastCode with
  | none => true
  | some spot =>
    (match accepted with
      | some span => span.contains spot.offset
      | none => false) ||
    spot.cell.byte == Byte.semicolon || spot.cell.byte == Byte.openBrace ||
    spot.cell.byte == Byte.closeBrace

/-- Whether the target, spelled out by the cells ahead, stands in code as a name of its own. -/
def isWholeName (target : Bytes) (cursor : Cursor) (ahead : List Cell) : Bool :=
  (match ahead with
    | [] => false
    | c :: _ => c.isCode) &&
  match target, cursor.before with
  | b :: _, c :: _ => !(Byte.isName b && (Byte.isName c.byte || c.byte == Byte.dot))
  | _, _ => true

/-- What becomes of a place where the target is spelled out. -/
inductive Verdict where
  /-- Not a call of the target. -/
  | ignored
  | refused (reason : Refusal)
  | accepted (site : Site)
  deriving DecidableEq, Repr, Inhabited

/-- Judges the place of the cursor, where the cells ahead spell out the target. -/
def judge (target : Bytes) (accepted : Option Span) (cursor : Cursor) (ahead : List Cell) :
    Verdict :=
  if !isWholeName target cursor ahead then .ignored else
  match skipWhile Byte.isBlank (cursor.offset + target.length) (ahead.drop target.length) with
  | (_, []) => .ignored
  | (opened, c :: cells) =>
    if c.byte != Byte.openParen then .ignored else
    match closingParen? 0 opened (c :: cells) with
    | none => .refused .unbalanced
    | some (closed, behind) =>
      if !atStatement cursor accepted then .refused .notStatement else
      match ending? (closed + 1) behind with
      | none => .refused .resultUsed
      | some e => .accepted {
          start := cursor.offset
          stop := e.stop
          line := cursor.line
          arguments := (cells.take (closed - opened - 1)).map (·.byte)
          semicolon := e.semicolon
          lineStart := cursor.lineStart
          startsLine := cursor.startsLine
          removal := removal cursor e
          redirection := redirection? cursor e }

/-- What a search has found so far, latest first, and where it goes on. -/
structure Search where
  /-- Places before this offset are covered by what has been judged. -/
  resume : Nat := 0
  sites : List Site := []
  refused : List Refused := []
  deriving DecidableEq, Repr, Inhabited

/-- Takes a verdict on the place of the cursor into account. -/
def Search.record (target : Bytes) (cursor : Cursor) (s : Search) : Verdict → Search
  | .ignored => { s with resume := cursor.offset + target.length }
  | .refused reason =>
    { s with
      resume := cursor.offset + target.length
      refused := ⟨cursor.offset, cursor.line, reason⟩ :: s.refused }
  | .accepted site =>
    { s with resume := max site.removal.stop site.stop, sites := site :: s.sites }

/-- Searches the cells ahead of the cursor. -/
def search (target keyword : Bytes) (s : Search) (cursor : Cursor) : List Cell → Search
  | [] => s
  | c :: ahead =>
    let s :=
      if s.resume ≤ cursor.offset && spells target (c :: ahead) then
        s.record target cursor (judge target (s.sites.head?.map Site.span) cursor (c :: ahead))
      else s
    search target keyword s (cursor.step keyword c) ahead

/-- The call statements of the target in a text, and the calls that are left alone, each in the
order of the text. -/
structure Found where
  sites : List Site := []
  refused : List Refused := []
  deriving DecidableEq, Repr, Inhabited

/-- Finds the calls of the target; `keyword` introduces error handlers. Nothing is called by an
empty name. -/
def find (target keyword text : Bytes) : Found :=
  if target.isEmpty then {} else
  let s := search target keyword {} {} (scan text)
  ⟨s.sites.reverse, s.refused.reverse⟩

end LogSweep.Call
