import LogSweep.Proofs.Call.Position

/-!
# Reading in front of more text

What is read ahead of a place, up to the end of its line, is the same whatever text follows the
line: the blanks, the end of a statement, what its removal takes and what it is redirected behind.
Behind a name that is called a parenthesis closes as long as the brackets of the text are nested
(`exists_closing`).
-/

namespace LogSweep.Call

open Lexical Block

/-- Cells that end with a newline. -/
def EndsLine (cells : List Cell) : Prop :=
  ∃ c, cells.getLast? = some c ∧ c.byte = Byte.newline

/-- No cells end no line. -/
theorem not_endsLine_nil : ¬ EndsLine [] := by
  rintro ⟨c, hc, -⟩
  cases hc

/-- A stretch that ends a line still does without cells at its start that are not the newline. -/
theorem EndsLine.of_append {a b : List Cell} (h : EndsLine (a ++ b))
    (ha : ∀ c, a.getLast? = some c → c.byte ≠ Byte.newline) : EndsLine b := by
  obtain ⟨c, hc, hbyte⟩ := h
  rw [List.getLast?_append, Option.or_eq_some_iff] at hc
  rcases hc with hc | ⟨-, hc⟩
  · exact ⟨c, hc, hbyte⟩
  · exact absurd hbyte (ha c hc)

/-- It still does without a first cell that is no newline. -/
theorem EndsLine.tail {c : Cell} {cells : List Cell} (h : EndsLine (c :: cells))
    (hc : c.byte ≠ Byte.newline) : EndsLine cells := by
  refine EndsLine.of_append (a := [c]) h fun x hx => ?_
  cases hx
  exact hc

section
variable {cells : List Cell} (h : EndsLine cells) (more : List Cell)
include h

/-- A word without newlines is spelled before the end of the line or not at all. -/
theorem spells_append {bytes : Bytes} (hbytes : ∀ b ∈ bytes, b ≠ Byte.newline) :
    spells bytes (cells ++ more) = spells bytes cells := by
  induction bytes generalizing cells with
  | nil => cases cells <;> rfl
  | cons b bytes ih =>
    cases cells with
    | nil => exact absurd h not_endsLine_nil
    | cons c cells =>
      rw [List.cons_append, spells, spells]
      by_cases hb : b = c.byte
      · rw [ih (h.tail (hb ▸ hbytes b (by simp))) fun x hx => hbytes x (List.mem_cons_of_mem _ hx)]
      · rw [beq_eq_false_iff_ne.2 hb, Bool.false_and, Bool.false_and]

/-- Skipping bytes that are no newlines stops before the end of the line, whatever comes behind it.
-/
theorem skipWhile_append_more {p : UInt8 → Bool} (hp : p Byte.newline = false) (offset : Nat) :
    EndsLine (skipWhile p offset cells).2 ∧ skipWhile p offset (cells ++ more) =
      ((skipWhile p offset cells).1, (skipWhile p offset cells).2 ++ more) := by
  induction cells generalizing offset with
  | nil => exact absurd h not_endsLine_nil
  | cons c cells ih =>
    rw [List.cons_append, skipWhile, skipWhile]
    split
    · next hc =>
      refine ih (h.tail fun hline => ?_) (offset + 1)
      rw [hline, hp] at hc
      cases hc
    · exact ⟨h, rfl⟩

/-- The end of the line is found before what comes behind it. -/
theorem lineEnd?_append (offset : Nat) :
    lineEnd? offset (cells ++ more) = lineEnd? offset cells := by
  cases cells with
  | nil => exact absurd h not_endsLine_nil
  | cons c cells =>
    cases cells with
    | nil =>
      have hc : c.byte = Byte.newline := by simpa [EndsLine] using h
      simp [lineEnd?, hc]
    | cons d cells => rfl

/-- So is the kind of its line break. -/
theorem longBreak?_append (wasReturn : Bool) :
    longBreak? wasReturn (cells ++ more) = longBreak? wasReturn cells := by
  induction cells generalizing wasReturn with
  | nil => exact absurd h not_endsLine_nil
  | cons c cells ih =>
    rw [List.cons_append, longBreak?, longBreak?]
    split
    · rfl
    · next hc => exact ih (h.tail (by simpa using hc)) _

/-- A statement ends in front of more text as it does without it, once there is a significant cell
behind it. -/
theorem ending?_append (hcells : ∃ x ∈ cells, x.isSignificant = true) (offset : Nat) :
    ending? offset (cells ++ more) =
      (ending? offset cells).map fun e => ⟨e.stop, e.semicolon, e.ahead ++ more⟩ := by
  obtain ⟨hline, hskip⟩ := skipWhile_append_more h more (p := Byte.isHorizontal) rfl offset
  obtain ⟨gap, rest, rfl, hgap, hstop⟩ := skip_split Byte.isHorizontal cells
  rw [skipWhile_append hgap hstop] at hline hskip
  cases rest with
  | nil => exact absurd hline not_endsLine_nil
  | cons c rest =>
    have hsignificant : ∃ x ∈ c :: rest, x.isSignificant = true := by
      obtain ⟨x, hmem, hx⟩ := hcells
      refine ⟨x, (List.mem_append.1 hmem).resolve_left fun hxgap => ?_, hx⟩
      rw [Cell.isSignificant, isBlank_of_isHorizontal (hgap x hxgap)] at hx
      simp at hx
    have hexpr : continuesExpression (c :: (rest ++ more)) = continuesExpression (c :: rest) :=
      continuesExpression_append hsignificant more
    rw [ending?, ending?, hskip, skipWhile_append hgap hstop]
    simp only [List.cons_append, hexpr]
    split
    · rfl
    · split
      · rfl
      · split
        · split
          · rfl
          · split <;> rfl
        · rfl

/-- Behind the end of a statement the line goes on to its end. -/
theorem endsLine_ending? {offset : Nat} {e : Ending} (he : ending? offset cells = some e) :
    EndsLine e.ahead := by
  have hall : e = ⟨offset, false, cells⟩ → EndsLine e.ahead := by
    rintro rfl
    exact h
  obtain ⟨hline, -⟩ := skipWhile_append_more h [] (p := Byte.isHorizontal) rfl offset
  rw [ending?] at he
  generalize skipWhile Byte.isHorizontal offset cells = skipped at he hline
  obtain ⟨next, rest⟩ := skipped
  cases rest with
  | nil => exact hall (Option.some.inj he).symm
  | cons c rest =>
    simp only at he hline
    split at he
    · next hc =>
      cases he
      refine hline.tail ?_
      rw [beq_iff_eq.1 hc]
      decide
    · split at he
      · exact hall (Option.some.inj he).symm
      · split at he
        · split at he
          · cases he
          · split at he
            · cases he
            · exact hall (Option.some.inj he).symm
        · cases he

end

section
variable {e : Ending} (h : EndsLine e.ahead) (cursor : Cursor) (more : List Cell)
include h

/-- What is removed with a call does not depend on the lines behind it. -/
theorem removal_append :
    removal cursor ⟨e.stop, e.semicolon, e.ahead ++ more⟩ = removal cursor e := by
  obtain ⟨hline, hskip⟩ := skipWhile_append_more h more (p := Byte.isHorizontal) rfl e.stop
  simp only [removal, hskip, lineEnd?_append hline]

/-- Nor does how a call is redirected. -/
theorem redirection?_append :
    redirection? cursor ⟨e.stop, e.semicolon, e.ahead ++ more⟩ = redirection? cursor e := by
  rw [redirection?, redirection?, lineBreak, lineBreak, longBreak?_append h]

end

/-! ## Parentheses that close -/

/-- A parenthesis closes where the count of open ones comes down to zero. -/
theorem exists_settles {depth : Int} (hd : 1 ≤ depth) {cells : List Cell}
    (h : depth + excess cells ≤ 0) :
    ∃ args more, cells = args ++ ⟨Byte.closeParen, .code⟩ :: more ∧ Settles depth args := by
  induction cells generalizing depth with
  | nil =>
    rw [excess_nil] at h
    omega
  | cons c cells ih =>
    rw [excess_cons] at h
    by_cases hfirst : c = ⟨Byte.closeParen, .code⟩ ∧ depth = 1
    · obtain ⟨rfl, rfl⟩ := hfirst
      exact ⟨[], cells, rfl, Settles.nil_iff.2 rfl⟩
    · have hstays : 1 ≤ depth + turn c := by
        by_cases hc : c = ⟨Byte.closeParen, .code⟩
        · have hne : depth ≠ 1 := fun hone => hfirst ⟨hc, hone⟩
          rw [hc, turn_close]
          omega
        · have := turn_nonneg hc
          omega
      obtain ⟨args, more, rfl, hargs⟩ := ih hstays (by omega)
      exact ⟨c :: args, more, rfl, Settles.cons_iff.2 ⟨hd, hargs⟩⟩

/-- In nested cells every parenthesis is closed. -/
theorem exists_closing {pre rest : List Cell}
    (h : nest [] (pre ++ ⟨Byte.openParen, .code⟩ :: rest) = some []) :
    ∃ args more, rest = args ++ ⟨Byte.closeParen, .code⟩ :: more ∧ Settles 1 args := by
  rw [nest_append] at h
  obtain ⟨opened, -, hrest⟩ := Option.bind_eq_some_iff.1 h
  have hcount := count_paren_of_nest hrest
  have hopen : turn ⟨Byte.openParen, .code⟩ = 1 := rfl
  rw [excess_cons, hopen] at hcount
  refine exists_settles (by decide) ?_
  simp only [List.count_nil] at hcount
  omega

/-- A closing parenthesis that is found is found with more cells behind it, too. -/
theorem closingParen?_append {depth : Int} (hd : 1 ≤ depth) {offset q : Nat}
    {cells behind : List Cell} (h : closingParen? depth offset cells = some (q, behind))
    (more : List Cell) :
    closingParen? depth offset (cells ++ more) = some (q, behind ++ more) := by
  obtain ⟨mid, rfl, hq, hmid⟩ := (closingParen?_eq_some_iff hd).1 h
  exact (closingParen?_eq_some_iff hd).2 ⟨mid, by simp, hq, hmid⟩

end LogSweep.Call
