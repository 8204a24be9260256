import LogSweep.Proofs.Block.Nesting

/-!
# A cursor behind a finished front

Behind cells that leave no bracket open and end their last statement and their last line, a cursor
goes on as it does from the start of a text, with its places moved by the length of the front
(`Cursor.past_append`). One step on a cursor that is put behind a clear front is the step put behind
it (`Cursor.step_behind`): a header is looked for behind the front only, since no name goes on
across its end and what ends it is no keyword.
-/

namespace LogSweep.Block

open Lexical

/-! ## Moving what a cursor knows -/

def Spot.behind (front : Cursor) (s : Spot) : Spot :=
  ⟨front.offset + s.offset, s.cell, s.before ++ front.before⟩

def Handler.behind (offset : Nat) (h : Handler) : Handler :=
  ⟨offset + h.openBrace, h.parameter⟩

/-- The last significant byte when that of a text behind `front` is given. -/
def Cursor.lastBehind (front : Cursor) (last : Option Spot) : Option Spot :=
  (last.map (Spot.behind front)).or front.lastCode

def Opener.behind (front : Cursor) (o : Opener) : Opener :=
  ⟨o.bracket, front.offset + o.offset, front.lastBehind o.previous,
    o.handler.map (Handler.behind front.offset)⟩

def Group.behind (front : Cursor) (g : Group) : Group :=
  ⟨front.offset + g.openParen, front.offset + g.closeParen, front.lastBehind g.previous⟩

namespace Cursor

/-- A cursor in a text that is put behind `front`. -/
def behind (front c : Cursor) : Cursor where
  offset := front.offset + c.offset
  before := c.before ++ front.before
  line := c.line + (front.line - 1)
  lineStart := front.offset + c.lineStart
  lastCode := front.lastBehind c.lastCode
  openers := c.openers.map (Opener.behind front)
  lastGroup := (c.lastGroup.map (Group.behind front)).or front.lastGroup

@[simp] theorem offset_behind (front c : Cursor) :
    (behind front c).offset = front.offset + c.offset := rfl

/-- A cursor at the start of a line, with no bracket open, behind the end of a statement or of a
block. The line above it does not end with a carriage return. -/
structure Clear (c : Cursor) : Prop where
  line_pos : 1 ≤ c.line
  lineStart : c.lineStart = c.offset
  before : ∃ x rest, c.before = x :: rest ∧ x.byte = Byte.newline ∧
    ∀ y, rest.head? = some y → y.byte ≠ Byte.carriageReturn
  lastCode : ∀ spot ∈ c.lastCode,
    spot.cell.byte = Byte.semicolon ∨ spot.cell.byte = Byte.closeBrace
  openers : c.openers = []
  lastGroup : ∀ group ∈ c.lastGroup, group.closeParen < c.offset

section
variable (front c : Cursor)

/-- Closing a bracket only looks at the brackets that were opened behind the front. -/
theorem closing_behind (bracket : Bracket) :
    (behind front c).closing bracket = behind front (c.closing bracket) := by
  have hdrop : (c.openers.map (Opener.behind front)).dropWhile (·.bracket != bracket) =
      (c.openers.dropWhile (·.bracket != bracket)).map (Opener.behind front) := by
    rw [List.dropWhile_map]
    rfl
  have hopeners : (behind front c).openers = c.openers.map (Opener.behind front) := rfl
  rw [closing, closing, hopeners, hdrop]
  cases c.openers.dropWhile (·.bracket != bracket) with
  | nil => rfl
  | cons o openers =>
    cases bracket == .paren with
    | true => simp [behind, Opener.behind, Group.behind]
    | false => simp [behind]

/-- Passing a cell does the same behind any front. -/
theorem passed_behind (cell : Cell) :
    (behind front c).passed cell = behind front (c.passed cell) := by
  by_cases hcell : (cell.byte == Byte.newline) = true
  · simp [passed, behind, hcell, Nat.add_assoc, Nat.add_comm 1]
  · simp [passed, behind, hcell, Nat.add_assoc]

end

/-- A fresh cursor behind a front that left nothing open is where the front ends. -/
theorem behind_start {front : Cursor} (h : front.Clear) : behind front {} = front := by
  obtain ⟨offset, before, line, lineStart, lastCode, openers, lastGroup⟩ := front
  obtain ⟨hline, hstart, -, -, hopeners, -⟩ := h
  simp only at hline hstart hopeners
  have hsame : 1 + (line - 1) = line := by omega
  simp only [behind, lastBehind, Nat.add_zero, List.nil_append, List.map_nil, Option.map_none,
    Option.none_or, hsame, hstart, hopeners]

/-! ## Headers -/

/-- A word ends at a newline or before it. -/
theorem endsWithWord_append {word : Bytes} (hword : ∀ b ∈ word, Byte.isName b = true)
    (cells : List Cell) {x : Cell} (hx : x.byte = Byte.newline) (rest : List Cell) :
    endsWithWord word (cells ++ x :: rest) = endsWithWord word cells := by
  induction word generalizing cells with
  | nil =>
    cases cells with
    | nil => simp only [List.nil_append, endsWithWord, hx]; rfl
    | cons c cells => rfl
  | cons b word ih =>
    cases cells with
    | nil =>
      have hb : (b == x.byte) = false := by
        rw [beq_eq_false_iff_ne, hx]
        rintro rfl
        cases hword _ List.mem_cons_self
      simp [endsWithWord, hb]
    | cons c cells =>
      rw [List.cons_append, endsWithWord, endsWithWord,
        ih fun b hb => hword b (List.mem_cons_of_mem _ hb)]

section
variable {keyword : Bytes} {front c : Cursor} (hfront : front.Clear)
  (hword : ∀ b ∈ keyword, Byte.isName b = true)
include hfront hword

/-- What ends a clear front is no keyword. -/
theorem not_endsWithWord (hne : keyword.isEmpty = false) {spot : Spot}
    (hspot : spot ∈ front.lastCode) :
    endsWithWord keyword.reverse (spot.cell :: spot.before) = false := by
  cases hrev : keyword.reverse with
  | nil =>
    rw [List.reverse_eq_nil_iff.1 hrev] at hne
    cases hne
  | cons b word =>
    have hb : Byte.isName b = true := hword b (List.mem_reverse.1 (by rw [hrev]; simp))
    have hcell : (b == spot.cell.byte) = false := by
      rw [beq_eq_false_iff_ne]
      rintro rfl
      rcases hfront.lastCode spot hspot with h | h <;> rw [h] at hb <;> cases hb
    rw [endsWithWord, hcell, Bool.false_and]

/-- A word that ends behind the front does not reach into it: the front ends with a newline. -/
theorem endsWithWord_behind (spot : Spot) :
    endsWithWord keyword.reverse ((spot.behind front).cell :: (spot.behind front).before) =
      endsWithWord keyword.reverse (spot.cell :: spot.before) := by
  obtain ⟨x, rest, hbefore, hx, -⟩ := hfront.before
  rw [Spot.behind, hbefore, ← List.cons_append]
  exact endsWithWord_append (fun b hb => hword b (List.mem_reverse.1 hb)) _ hx rest

omit hword in
/-- What a clear front ends with is no closing parenthesis, so no group can be joined to it. -/
theorem lastCode_byte_ne {spot : Spot} (hspot : spot ∈ front.lastCode) :
    (spot.cell.byte == Byte.closeParen) = false := by
  rcases hfront.lastCode spot hspot with h | h <;> rw [h] <;> rfl

omit hword in
/-- A group of the front does not end at a spot behind it. -/
theorem header?_behind_of_no_group {spot : Spot} (hlast : c.lastCode = some spot)
    (hparen : (spot.cell.byte == Byte.closeParen) = true) (hgroup : c.lastGroup = none) :
    (behind front c).header? keyword = none := by
  have hspot : (behind front c).lastCode = some (spot.behind front) := by
    simp [behind, lastBehind, hlast]
  have hbyte : ((spot.behind front).cell.byte == Byte.closeParen) = true := hparen
  have hsame : (behind front c).lastGroup = front.lastGroup := by
    simp [behind, hgroup]
  cases hold : front.lastGroup with
  | none => simp [header?, hspot, hbyte, hsame, hold]
  | some group =>
    have hlt := hfront.lastGroup group hold
    have hends : (group.closeParen != (spot.behind front).offset) = true := by
      simp only [Spot.behind, bne_iff_ne]
      omega
    simp [header?, hspot, hbyte, hsame, hold, hends]

/-- A group and the keyword in front of it make a header behind a clear front exactly where they do
without it. -/
theorem header?_behind_of_group (hne : keyword.isEmpty = false) {spot : Spot}
    (hlast : c.lastCode = some spot) (hlen : spot.before.length = spot.offset)
    (hparen : (spot.cell.byte == Byte.closeParen) = true) {group : Group}
    (hgroup : c.lastGroup = some group) :
    (behind front c).header? keyword = (c.header? keyword).map (Handler.behind front.offset) := by
  have hspot : (behind front c).lastCode = some (spot.behind front) := by
    simp [behind, lastBehind, hlast]
  have hbyte : ((spot.behind front).cell.byte == Byte.closeParen) = true := hparen
  have hsame : (behind front c).lastGroup = some (group.behind front) := by
    simp [behind, hgroup]
  have hends : ((group.behind front).closeParen != (spot.behind front).offset) =
      (group.closeParen != spot.offset) := by
    simp [Group.behind, Spot.behind, bne]
  by_cases hclose : (group.closeParen != spot.offset) = true
  · simp [header?, hne, hlast, hspot, hbyte, hparen, hgroup, hsame, hends, hclose]
  · have hlisted : (spot.behind front).before.take
        ((group.behind front).closeParen - (group.behind front).openParen - 1) =
          spot.before.take (group.closeParen - group.openParen - 1) := by
      have hoffset : group.closeParen = spot.offset := by simpa using hclose
      rw [Spot.behind, Group.behind, Nat.add_sub_add_left,
        List.take_append_of_le_length (by omega)]
    cases hprevious : group.previous with
    | none =>
      have hheader : c.header? keyword = none := by
        simp [header?, hne, hlast, hparen, hgroup, hclose, hprevious]
      have hword' : (group.behind front).previous = front.lastCode := by
        simp [Group.behind, lastBehind, hprevious]
      rw [hheader]
      cases hold : front.lastCode with
      | none => simp [header?, hne, hspot, hbyte, hsame, hends, hclose, hword', hold]
      | some word =>
        simp [header?, hne, hspot, hbyte, hsame, hends, hclose, hword', hold,
          not_endsWithWord hfront hword hne hold]
    | some word =>
      have hword' : (group.behind front).previous = some (word.behind front) := by
        simp [Group.behind, lastBehind, hprevious]
      have hsame' := endsWithWord_behind hfront hword word
      cases hkeyword : endsWithWord keyword.reverse (word.cell :: word.before) with
      | false =>
        rw [hkeyword] at hsame'
        simp [header?, hne, hlast, hspot, hbyte, hparen, hgroup, hsame, hends, hclose, hword',
          hprevious, hkeyword, hsame']
      | true =>
        rw [hkeyword] at hsame'
        simp [header?, hne, hlast, hspot, hbyte, hparen, hgroup, hsame, hends, hclose, hword',
          hprevious, hkeyword, hsame', hlisted, Handler.behind]

/-- A header is found behind a clear front exactly where it is found without it. -/
theorem header?_behind (hc : ∀ spot ∈ c.lastCode, spot.before.length = spot.offset) :
    (behind front c).header? keyword = (c.header? keyword).map (Handler.behind front.offset) := by
  cases hne : keyword.isEmpty with
  | true => simp [header?, hne]
  | false =>
    cases hlast : c.lastCode with
    | none =>
      -- what ends the front opens no handler
      cases hspot : front.lastCode with
      | none => simp [header?, behind, lastBehind, hlast, hspot]
      | some spot =>
        simp [header?, behind, lastBehind, hlast, hspot, lastCode_byte_ne hfront hspot,
          not_endsWithWord hfront hword hne hspot]
    | some spot =>
      cases hparen : spot.cell.byte == Byte.closeParen with
      | true =>
        cases hgroup : c.lastGroup with
        | none =>
          have hheader : c.header? keyword = none := by
            simp [header?, hne, hlast, hparen, hgroup]
          rw [hheader, header?_behind_of_no_group hfront hlast hparen hgroup]
          rfl
        | some group =>
          exact header?_behind_of_group hfront hword hne hlast (hc spot hlast) hparen hgroup
      | false =>
        have hspot : (behind front c).lastCode = some (spot.behind front) := by
          simp [behind, lastBehind, hlast]
        have hbyte : ((spot.behind front).cell.byte == Byte.closeParen) = false := hparen
        have hends := endsWithWord_behind hfront hword spot
        cases hkeyword : endsWithWord keyword.reverse (spot.cell :: spot.before) with
        | false =>
          rw [hkeyword] at hends
          simp [header?, hne, hlast, hspot, hbyte, hparen, hends, hkeyword]
        | true =>
          rw [hkeyword] at hends
          simp [header?, hne, hlast, hspot, hbyte, hparen, hends, hkeyword, Handler.behind]

/-! ## Steps -/

/-- What a significant byte does to the open brackets it does behind a clear front. -/
theorem bracketed_behind (hc : ∀ spot ∈ c.lastCode, spot.before.length = spot.offset) (b : UInt8) :
    (behind front c).bracketed keyword b = behind front (c.bracketed keyword b) := by
  unfold bracketed
  split
  · next bracket _ =>
    rw [opening, opening, header?_behind hfront hword hc]
    cases bracket == .brace with
    | true => simp [behind, Opener.behind]
    | false => simp [behind, Opener.behind]
  · exact closing_behind front c _
  · rfl

/-- A step behind a clear front is the step put behind it. -/
theorem step_behind (hc : ∀ spot ∈ c.lastCode, spot.before.length = spot.offset) (cell : Cell) :
    (behind front c).step keyword cell = behind front (c.step keyword cell) := by
  unfold step
  split
  · rw [bracketed_behind hfront hword hc, passed_behind]
    simp [behind, lastBehind, Spot.behind]
  · exact passed_behind front c cell

end

/-! ## Many steps -/

/-- The cells before the last significant one are as many as its offset says. -/
theorem length_before_lastCode (keyword : Bytes) (cells : List Cell) :
    ∀ spot ∈ (past keyword cells).lastCode, spot.before.length = spot.offset := by
  intro spot hspot
  rcases last_split Cell.isSignificant cells with hnone | ⟨a, x, g, rfl, hx, hg⟩
  · rw [lastCode_past_none keyword hnone] at hspot
    cases hspot
  · rw [lastCode_past keyword hx hg] at hspot
    cases hspot
    exact List.length_reverse

/-- A group that a step closes ends where the cursor stands. -/
theorem lastGroup_step (keyword : Bytes) (c : Cursor) (cell : Cell) :
    ∀ group ∈ (c.step keyword cell).lastGroup,
      group ∈ c.lastGroup ∨ group.closeParen = c.offset := by
  intro group hgroup
  unfold step bracketed closing at hgroup
  split at hgroup
  · simp only [passed] at hgroup
    split at hgroup
    · exact .inl hgroup
    · split at hgroup
      · exact .inl hgroup
      · split at hgroup
        · cases hgroup
          exact .inr rfl
        · exact .inl hgroup
    · exact .inl hgroup
  · exact .inl hgroup

/-- The last group was closed before the place of the cursor. -/
theorem closeParen_lt_of_past (keyword : Bytes) (cells : List Cell) :
    ∀ group ∈ (past keyword cells).lastGroup, group.closeParen < cells.length := by
  induction cells using List.reverseRecOn with
  | nil => simp
  | append_singleton cells c ih =>
    intro group hgroup
    rw [past_snoc] at hgroup
    rw [List.length_append, List.length_singleton]
    rcases lastGroup_step keyword _ c group hgroup with hold | hclose
    · exact Nat.lt_succ_of_lt (ih group hold)
    · rw [hclose, offset_past]
      exact Nat.lt_succ_self _

end Cursor

/-- Cells that leave no bracket open and end their last line, without a carriage return, and their
last statement. -/
structure Finished (cells : List Cell) : Prop where
  lines : ∃ init, cells = init ++ [⟨Byte.newline, .code⟩] ∧
    ∀ c, init.getLast? = some c → c.byte ≠ Byte.carriageReturn
  nested : nest [] cells = some []
  ended : ∀ a x g, cells = a ++ x :: g → x.isSignificant = true →
    (∀ y ∈ g, y.isSignificant = false) → x.byte = Byte.semicolon ∨ x.byte = Byte.closeBrace

namespace Cursor

/-- Behind cells that finish all they began a cursor is clear. -/
theorem clear_past {front : List Cell} (h : Finished front) (keyword : Bytes) :
    (past keyword front).Clear := by
  obtain ⟨init, hinit, hreturn⟩ := h.lines
  have hbegins : LineBegins front := by
    intro c hc
    rw [hinit, List.getLast?_concat] at hc
    cases hc
    rfl
  refine ⟨?_, ?_, ?_, fun spot hspot => ?_, ?_, ?_⟩
  · rw [line_past]
    omega
  · have hstart : (past keyword (front ++ [])).lineStart = front.length :=
      lineStart_past keyword hbegins (by simp)
    rw [List.append_nil] at hstart
    rw [hstart, offset_past]
  · refine ⟨⟨Byte.newline, .code⟩, init.reverse, ?_, rfl, fun y hy => hreturn y ?_⟩
    · rw [before_past, hinit]
      simp
    · rwa [List.head?_reverse] at hy
  · rcases last_split Cell.isSignificant front with hnone | ⟨a, x, g, hfront, hx, hg⟩
    · rw [lastCode_past_none keyword hnone] at hspot
      cases hspot
    · rw [hfront, lastCode_past keyword hx hg] at hspot
      cases hspot
      exact h.ended a x g hfront hx hg
  · have hstack : stack front = [] := by
      simpa [stack] using foldl_shift_of_nest h.nested []
    rw [← map_bracket_past keyword, List.map_eq_nil_iff] at hstack
    exact hstack
  · intro group hgroup
    rw [offset_past]
    exact closeParen_lt_of_past keyword front group hgroup

/-- Behind a finished front a cursor goes on as it does from the start of a text. -/
theorem past_append {keyword : Bytes} (hword : ∀ b ∈ keyword, Byte.isName b = true)
    {front : List Cell} (hfront : Finished front) (cells : List Cell) :
    past keyword (front ++ cells) = behind (past keyword front) (past keyword cells) := by
  have hclear := clear_past hfront keyword
  induction cells using List.reverseRecOn with
  | nil => rw [List.append_nil, past_nil, behind_start hclear]
  | append_singleton cells c ih =>
    rw [← List.append_assoc, past_snoc, past_snoc, ih,
      step_behind hclear hword (length_before_lastCode keyword cells)]

end Cursor

end LogSweep.Block
