import LogSweep.Block.Cursor
import LogSweep.Text.Lines
import Mathlib.Data.List.Induction

/-!
# What a cursor knows

A cursor that has passed over some cells holds nothing that these cells do not determine. Each of
its fields is given here off the cells alone: where the line began, the last significant cell, and
whether only blanks precede the cursor on its line. A cursor that is advanced in several steps, or
over a whole text at once, is `Cursor.past` of the cells before its place (`Cursor.advance_eq`).
-/

namespace LogSweep.Block

open Lexical

namespace Cursor

/-- The cursor behind the given cells of a text. -/
def past (keyword : Bytes) (cells : List Cell) : Cursor :=
  cells.foldl (step keyword) {}

@[simp] theorem past_nil (keyword : Bytes) : past keyword [] = {} := rfl

@[simp] theorem past_snoc (keyword : Bytes) (cells : List Cell) (c : Cell) :
    past keyword (cells ++ [c]) = (past keyword cells).step keyword c := by
  simp [past]

/-! ## One step -/

section
variable (keyword : Bytes) (c : Cursor) (cell : Cell) (b : UInt8)

/-- A bracket changes the open brackets and the last group, and nothing else. -/
theorem bracketed_eq : c.bracketed keyword b =
    { c with
      openers := (c.bracketed keyword b).openers
      lastGroup := (c.bracketed keyword b).lastGroup } := by
  unfold bracketed opening closing
  split
  · rfl
  · split <;> rfl
  · rfl

@[simp] theorem offset_step : (c.step keyword cell).offset = c.offset + 1 := by
  unfold step
  split
  · rw [bracketed_eq]; rfl
  · rfl

@[simp] theorem before_step : (c.step keyword cell).before = cell :: c.before := by
  unfold step
  split
  · rw [bracketed_eq]; rfl
  · rfl

@[simp] theorem line_step : (c.step keyword cell).line =
    if cell.byte == Byte.newline then c.line + 1 else c.line := by
  unfold step
  split
  · rw [bracketed_eq]; rfl
  · rfl

@[simp] theorem lineStart_step : (c.step keyword cell).lineStart =
    if cell.byte == Byte.newline then c.offset + 1 else c.lineStart := by
  unfold step
  split
  · rw [bracketed_eq]; rfl
  · rfl

@[simp] theorem lastCode_step : (c.step keyword cell).lastCode =
    if cell.isSignificant then some ⟨c.offset, cell, c.before⟩ else c.lastCode := by
  unfold step
  split
  · rfl
  · rfl

end

/-! ## Many steps -/

section
variable (keyword : Bytes) (cells : List Cell)

@[simp] theorem offset_past : (past keyword cells).offset = cells.length := by
  induction cells using List.reverseRecOn with
  | nil => rfl
  | append_singleton cells c ih => simp [ih]

@[simp] theorem before_past : (past keyword cells).before = cells.reverse := by
  induction cells using List.reverseRecOn with
  | nil => rfl
  | append_singleton cells c ih => simp [ih]

/-- The line is one more than the newlines before the place. -/
theorem line_past : (past keyword cells).line =
    1 + (cells.map (·.byte)).count Byte.newline := by
  induction cells using List.reverseRecOn with
  | nil => rfl
  | append_singleton cells c ih =>
    rw [past_snoc, line_step, ih, List.map_append, List.count_append]
    by_cases h : c.byte = Byte.newline
    · simp [h, Nat.add_assoc]
    · simp [h]

end

/-- The last cell with a property, if there is one. -/
theorem last_split (p : Cell → Bool) (cells : List Cell) :
    (∀ x ∈ cells, p x = false) ∨
      ∃ a x g, cells = a ++ x :: g ∧ p x = true ∧ ∀ y ∈ g, p y = false := by
  induction cells using List.reverseRecOn with
  | nil => exact .inl (by simp)
  | append_singleton cells c ih =>
    by_cases hc : p c = true
    · exact .inr ⟨cells, c, [], rfl, hc, by simp⟩
    · have hc : p c = false := by simpa using hc
      rcases ih with hnone | ⟨a, x, g, rfl, hx, hg⟩
      · refine .inl fun x hx => ?_
        rcases List.mem_append.1 hx with hx | hx
        · exact hnone x hx
        · rw [List.mem_singleton.1 hx, hc]
      · refine .inr ⟨a, x, g ++ [c], by simp, hx, fun y hy => ?_⟩
        rcases List.mem_append.1 hy with hy | hy
        · exact hg y hy
        · rw [List.mem_singleton.1 hy, hc]

/-- The last significant cell is what the cursor remembers. -/
theorem lastCode_past (keyword : Bytes) {a g : List Cell} {x : Cell} (hx : x.isSignificant)
    (hg : ∀ y ∈ g, y.isSignificant = false) :
    (past keyword (a ++ x :: g)).lastCode = some ⟨a.length, x, a.reverse⟩ := by
  induction g using List.reverseRecOn with
  | nil => simp [hx]
  | append_singleton g c ih =>
    have hc : c.isSignificant = false := hg c (by simp)
    rw [← List.cons_append, ← List.append_assoc, past_snoc, lastCode_step, hc]
    exact ih fun y hy => hg y (List.mem_append_left _ hy)

/-- Where nothing is significant the cursor knows of no last significant cell. -/
theorem lastCode_past_none (keyword : Bytes) {g : List Cell}
    (hg : ∀ y ∈ g, y.isSignificant = false) : (past keyword g).lastCode = none := by
  induction g using List.reverseRecOn with
  | nil => rfl
  | append_singleton g c ih =>
    have hc : c.isSignificant = false := hg c (by simp)
    rw [past_snoc, lastCode_step, hc]
    exact ih fun y hy => hg y (List.mem_append_left _ hy)

/-- A line begins behind the given cells: they end with a newline, or there are none. -/
def LineBegins (up : List Cell) : Prop :=
  ∀ c, up.getLast? = some c → c.byte = Byte.newline

/-- The cells on the line of the cursor follow the last newline. -/
theorem lineStart_past (keyword : Bytes) {up row : List Cell} (hup : LineBegins up)
    (hrow : ∀ c ∈ row, c.byte ≠ Byte.newline) :
    (past keyword (up ++ row)).lineStart = up.length := by
  induction row using List.reverseRecOn with
  | nil =>
    rcases List.eq_nil_or_concat up with rfl | ⟨u, c, rfl⟩
    · rfl
    · have hc : c.byte = Byte.newline := hup c (by simp)
      simp [hc]
  | append_singleton row c ih =>
    have hc : c.byte ≠ Byte.newline := hrow c (by simp)
    rw [← List.append_assoc, past_snoc, lineStart_step, if_neg (by simpa using hc)]
    exact ih fun x hx => hrow x (List.mem_append_left _ hx)

/-- Every run of cells is some lines and the row that follows the last newline. -/
theorem line_split (cells : List Cell) :
    ∃ up row, cells = up ++ row ∧ LineBegins up ∧ ∀ c ∈ row, c.byte ≠ Byte.newline := by
  rcases last_split (·.byte == Byte.newline) cells with hnone | ⟨a, x, g, rfl, hx, hg⟩
  · exact ⟨[], cells, rfl, by simp [LineBegins], fun c hc => by simpa using hnone c hc⟩
  · refine ⟨a ++ [x], g, by simp, ?_, fun c hc => by simpa using hg c hc⟩
    intro c hc
    rw [List.getLast?_concat, Option.some.injEq] at hc
    rw [← hc]
    simpa using hx

/-- Spaces and tabs are no newlines. -/
theorem not_newline_of_horizontal {b : UInt8} (h : Byte.isHorizontal b) : b ≠ Byte.newline := by
  rintro rfl
  cases h

/-- A cursor starts its line exactly when the row before it is made of spaces and tabs. -/
theorem startsLine_past (keyword : Bytes) {up row : List Cell} (hup : LineBegins up)
    (hrow : ∀ c ∈ row, c.byte ≠ Byte.newline) :
    (past keyword (up ++ row)).startsLine = row.all (Byte.isHorizontal ·.byte) := by
  rw [startsLine, before_past, List.reverse_append]
  by_cases hall : ∀ c ∈ row, Byte.isHorizontal c.byte
  · rw [List.dropWhile_append_of_pos (by simpa using hall), List.all_eq_true.2 hall]
    rcases List.eq_nil_or_concat up with rfl | ⟨u, c, rfl⟩
    · rfl
    · have hc : c.byte = Byte.newline := hup c (by simp)
      have hstop : Byte.isHorizontal Byte.newline = false := rfl
      simp [hc, hstop]
  · -- the nearest cell that is no blank stands on the row and is no newline
    obtain ⟨a, x, g, rfl, hx, hg⟩ :=
      (last_split (fun c => !Byte.isHorizontal c.byte) row).resolve_left
        (fun h => hall fun c hc => by simpa using h c hc)
    have hx' : Byte.isHorizontal x.byte = false := by simpa using hx
    have hnl : x.byte ≠ Byte.newline := hrow x (by simp)
    rw [List.reverse_append, List.reverse_cons, List.append_assoc, List.append_assoc,
      List.dropWhile_append_of_pos (by simpa using hg)]
    simp [hx', hnl]

/-- Advancing over the cells before a place leaves the cursor there, unless the place lies inside a
comment or literal. -/
theorem advance_eq (keyword : Bytes) (pre : List Cell) {post : List Cell}
    (hpost : ∀ x, post.head? = some x → x.isInside = false) (c : Cursor) :
    advance keyword (c.offset + pre.length) c (pre ++ post) =
      (pre.foldl (step keyword) c, post) := by
  induction pre generalizing c with
  | nil =>
    cases post with
    | nil => rfl
    | cons x post => simp [advance, hpost x rfl]
  | cons y pre ih =>
    have htarget : c.offset + (y :: pre).length = (c.step keyword y).offset + pre.length := by
      simp only [offset_step, List.length_cons]
      omega
    rw [List.cons_append, advance, if_pos (by simp), htarget, ih]
    rfl

end Cursor

/-- The handler around a place that does not lie inside a comment or literal. -/
theorem handlerAt?_eq {keyword text : Bytes} {pre post : List Cell} {x : Cell}
    (h : scan text = pre ++ x :: post) (hx : x.isInside = false) :
    handlerAt? keyword text pre.length = (Cursor.past keyword pre).handler? := by
  have hpost : ∀ y, (x :: post).head? = some y → y.isInside = false :=
    fun y hy => Option.some.inj hy ▸ hx
  have hadv := Cursor.advance_eq keyword pre hpost {}
  rw [Nat.zero_add] at hadv
  rw [handlerAt?, h, hadv]
  rfl

end LogSweep.Block
