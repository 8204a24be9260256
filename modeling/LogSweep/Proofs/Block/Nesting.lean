import LogSweep.Proofs.Block.Past
import LogSweep.Proofs.Lexical.Compose

/-!
# Open brackets and nesting

The shapes of the brackets that are open behind some cells are a fold over the cells (`stack`), and
all that decides whether a cursor stands inside a group (`Cursor.insideGroup_past`). Cells whose
brackets are well nested leave the open brackets as they are, whatever these are
(`foldl_shift_of_nest`).
-/

namespace LogSweep.Block

open Lexical

/-- No bracket is white space. -/
theorem Bracket.none_of_isBlank {b : UInt8} (h : Byte.isBlank b = true) :
    opened? b = none ∧ closed? b = none := by
  simp only [Byte.isBlank, Bool.or_eq_true, beq_iff_eq] at h
  rcases h with (((hb | hb) | hb) | hb) | hb <;> rw [hb] <;> exact ⟨rfl, rfl⟩

/-- One byte opens a parenthesis. -/
theorem Bracket.opened?_eq_paren_iff {b : UInt8} :
    opened? b = some .paren ↔ b = Byte.openParen := by
  unfold opened?
  split <;> simp_all <;> decide

/-- One byte closes a parenthesis. -/
theorem Bracket.closed?_eq_paren_iff {b : UInt8} :
    closed? b = some .paren ↔ b = Byte.closeParen := by
  unfold closed?
  split <;> simp_all <;> decide

/-- What a cell does to the shapes of the open brackets, innermost first. -/
def Bracket.shift (open' : List Bracket) (c : Cell) : List Bracket :=
  if !c.isCode then open' else
  match Bracket.opened? c.byte, Bracket.closed? c.byte with
  | some bracket, _ => bracket :: open'
  | none, some bracket =>
    match open'.dropWhile (· != bracket) with
    | [] => open'
    | _ :: rest => rest
  | none, none => open'

/-- The shapes of the brackets that are open behind cells. -/
def stack (cells : List Cell) : List Bracket :=
  cells.foldl Bracket.shift []

/-- The stack behind two stretches is that of the first, shifted by the second. -/
theorem stack_append (a b : List Cell) : stack (a ++ b) = b.foldl Bracket.shift (stack a) := by
  rw [stack, List.foldl_append]
  rfl

namespace Cursor

/-- Closing a bracket drops the open ones down to the nearest of its shape, and none when there is
no such one. -/
theorem map_bracket_closing (c : Cursor) (bracket : Bracket) :
    (c.closing bracket).openers.map (·.bracket) =
      match (c.openers.map (·.bracket)).dropWhile (· != bracket) with
      | [] => c.openers.map (·.bracket)
      | _ :: rest => rest := by
  have hdrop : (c.openers.map (·.bracket)).dropWhile (· != bracket) =
      (c.openers.dropWhile (·.bracket != bracket)).map (·.bracket) := by
    rw [List.dropWhile_map]
    rfl
  rw [hdrop, closing]
  cases c.openers.dropWhile (·.bracket != bracket) <;> rfl

/-- A step shifts the shapes of the open brackets. -/
theorem map_bracket_step (keyword : Bytes) (c : Cursor) (cell : Cell) :
    (c.step keyword cell).openers.map (·.bracket) =
      Bracket.shift (c.openers.map (·.bracket)) cell := by
  unfold step Bracket.shift
  by_cases hcode : cell.isCode = true
  · by_cases hblank : Byte.isBlank cell.byte = true
    · have hnone := Bracket.none_of_isBlank hblank
      simp [Cell.isSignificant, hcode, hblank, hnone.1, hnone.2, passed]
    · have hsig : cell.isSignificant = true := by simp [Cell.isSignificant, hcode, hblank]
      rw [if_pos hsig, hcode, passed, bracketed]
      cases Bracket.opened? cell.byte with
      | some bracket => rfl
      | none =>
        cases Bracket.closed? cell.byte with
        | some bracket => exact map_bracket_closing c bracket
        | none => rfl
  · simp [Cell.isSignificant, hcode, passed]

/-- A cursor knows the shapes that the stack of the cells before it holds. -/
theorem map_bracket_past (keyword : Bytes) (cells : List Cell) :
    (past keyword cells).openers.map (·.bracket) = stack cells := by
  induction cells using List.reverseRecOn with
  | nil => rfl
  | append_singleton cells c ih => rw [past_snoc, map_bracket_step, ih, stack_append]; rfl

/-- Whether a cursor stands inside a group follows from the shapes of the open brackets. -/
theorem insideGroup_past (keyword : Bytes) (cells : List Cell) :
    (past keyword cells).insideGroup = ((stack cells).head?.any (· != .brace)) := by
  rw [← map_bracket_past keyword, insideGroup]
  cases (past keyword cells).openers <;> rfl

end Cursor

/-! ## Well nested brackets -/

/-- The brackets that are open behind cells, as long as every closer closes the bracket opened
last. -/
def nest (open' : List Bracket) : List Cell → Option (List Bracket)
  | [] => some open'
  | c :: cells =>
    if !c.isCode then nest open' cells else
    match Bracket.opened? c.byte, Bracket.closed? c.byte, open' with
    | some bracket, _, _ => nest (bracket :: open') cells
    | none, some bracket, o :: rest => if o = bracket then nest rest cells else none
    | none, some _, [] => none
    | none, none, _ => nest open' cells

/-- The brackets of a text are well nested, and all of them are closed. -/
def WellNested (text : Bytes) : Prop :=
  nest [] (scan text) = some []

instance (text : Bytes) : Decidable (WellNested text) :=
  inferInstanceAs (Decidable (_ = _))

/-- Nesting over two stretches goes on where the first one leaves off. -/
theorem nest_append (open' : List Bracket) (a b : List Cell) :
    nest open' (a ++ b) = (nest open' a).bind (nest · b) := by
  fun_induction nest open' a with
  | case1 => rfl
  | _ => simp_all [nest]

/-- Cells that are nested stay so whatever else is open below. -/
theorem nest_below {open' opened : List Bracket} {cells : List Cell}
    (h : nest open' cells = some opened) (below : List Bracket) :
    nest (open' ++ below) cells = some (opened ++ below) := by
  fun_induction nest open' cells with
  | case1 => rw [nest, Option.some.inj h]
  | case2 open' c cells hcode ih =>
    rw [← ih h]
    simp only [nest, if_pos hcode]
  | case3 open' c cells hcode bracket hopen ih =>
    rw [← ih h]
    simp only [nest, if_neg hcode, hopen, List.cons_append]
  | case4 c cells hcode bracket rest hopen hclose ih =>
    rw [← ih h]
    simp only [nest, if_neg hcode, hopen, hclose, List.cons_append, if_true]
  | case5 | case6 => cases h
  | case7 open' c cells hcode hopen hclose ih =>
    rw [← ih h]
    simp only [nest, if_neg hcode, hopen, hclose]

/-- Nested cells do the same to the open brackets whatever else is open below. -/
theorem foldl_shift_of_nest {open' opened : List Bracket} {cells : List Cell}
    (h : nest open' cells = some opened) (below : List Bracket) :
    cells.foldl Bracket.shift (open' ++ below) = opened ++ below := by
  fun_induction nest open' cells with
  | case1 => rw [Option.some.inj h, List.foldl_nil]
  | case2 open' c cells hcode ih => rw [List.foldl_cons, Bracket.shift, if_pos hcode, ih h]
  | case3 open' c cells hcode bracket hopen ih =>
    rw [List.foldl_cons, Bracket.shift, if_neg hcode, hopen]
    exact ih h
  | case4 c cells hcode bracket rest hopen hclose ih =>
    have hstop : (bracket :: (rest ++ below)).dropWhile (· != bracket) =
        bracket :: (rest ++ below) := List.dropWhile_cons_of_neg (by simp)
    rw [List.foldl_cons, Bracket.shift, if_neg hcode, hopen, hclose, List.cons_append]
    simp only [hstop]
    exact ih h
  | case5 | case6 => cases h
  | case7 open' c cells hcode hopen hclose ih =>
    rw [List.foldl_cons, Bracket.shift, if_neg hcode, hopen, hclose]
    exact ih h

end LogSweep.Block
