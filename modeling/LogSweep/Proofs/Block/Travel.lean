import LogSweep.Proofs.Block.Nesting
import LogSweep.Proofs.Lexical.Regions
import Mathlib.Data.List.TakeWhile

/-!
# One cursor for many places

A cursor can be advanced to several offsets in turn, in any order. Where it ends up, and all that it
knows there, depends on the largest of them only (`travel_eq_advance`): it never moves back, and
stopping on the way changes nothing (`advance_advance`). It then stands behind the cells before that
offset and the rest of the comment or literal that the offset lies in (`advance_eq_passed`). What it
knows is read off these cells; the keyword decides which braces are handlers and nothing else.
-/

namespace LogSweep.Lexical

/-- An offset that lies strictly inside of no region is passed by no cursor that stops there. -/
theorem takeWhile_inside_drop {text : Bytes} {m : Nat}
    (h : ∀ r ∈ regions text, ¬ (r.span.start < m ∧ m < r.span.stop)) :
    ((scan text).drop m).takeWhile (·.isInside) = [] := by
  cases hcells : (scan text).drop m with
  | nil => rfl
  | cons cell cells =>
    have hcell : (scan text)[m]? = some cell := by rw [← List.head?_drop, hcells, List.head?_cons]
    refine List.takeWhile_cons_of_neg fun hinside => ?_
    obtain ⟨r, hr, hstart, hstop⟩ :=
      (parted_scan text).exists_region_of_isInside 0 hcell hinside
    exact h r hr ⟨by omega, by omega⟩

end LogSweep.Lexical

namespace LogSweep.Block

open Lexical

/-- The last of the offsets below a limit with a property, if there is one. -/
def IsLast (p : Nat → Prop) (limit : Nat) : Option Nat → Prop
  | some i => i < limit ∧ p i ∧ ∀ j, i < j → j < limit → ¬ p j
  | none => ∀ j, j < limit → ¬ p j

/-- There is code at an offset of a text, and it is not white space. -/
def SignificantAt (text : Bytes) (offset : Nat) : Prop :=
  regionAt? (regions text) offset = none ∧ ∃ b, text[offset]? = some b ∧ Byte.isBlank b = false

namespace Cursor

/-- Advances to the given offsets, one after the other. -/
def travel (keyword : Bytes) (targets : List Nat) (place : Cursor × List Cell) :
    Cursor × List Cell :=
  targets.foldl (fun place target => advance keyword target place.1 place.2) place

/-! ## Stops on the way -/

section
variable (keyword : Bytes) (s t : Nat) (c : Cursor) (cells : List Cell)

/-- An offset that the cursor has passed makes no difference. -/
theorem advance_max_of_le (h : s ≤ c.offset) :
    advance keyword (max s t) c cells = advance keyword t c cells := by
  induction cells generalizing c with
  | nil => rfl
  | cons cell cells ih =>
    have hgo : (c.offset < max s t) = (c.offset < t) := by
      rw [eq_iff_iff]
      omega
    have hnext : s ≤ (c.step keyword cell).offset := by
      rw [offset_step]
      omega
    rw [advance, advance, ih _ hnext]
    simp only [hgo]

/-- A stop on the way changes nothing. The induction is on the cells; once the first offset is
reached, only the second one counts. -/
theorem advance_advance :
    advance keyword t (advance keyword s c cells).1 (advance keyword s c cells).2 =
      advance keyword (max s t) c cells := by
  induction cells generalizing c with
  | nil => rfl
  | cons cell cells ih =>
    by_cases hgo : (decide (c.offset < s) || cell.isInside) = true
    · have hgo' : (decide (c.offset < max s t) || cell.isInside) = true := by
        simp only [Bool.or_eq_true, decide_eq_true_eq] at hgo ⊢
        exact hgo.imp_left fun h => by omega
      rw [advance, if_pos hgo, ih, advance, if_pos hgo']
    · have hreached : s ≤ c.offset := by
        simp only [Bool.or_eq_true, decide_eq_true_eq, not_or] at hgo
        omega
      rw [advance_max_of_le keyword s t c (cell :: cells) hreached, advance, if_neg hgo]

end

section
variable {keyword : Bytes} {target : Nat} {c : Cursor}

/-- A cell before the offset is passed. -/
theorem advance_cons_of_lt (h : c.offset < target) (cell : Cell) (cells : List Cell) :
    advance keyword target c (cell :: cells) =
      advance keyword target (c.step keyword cell) cells := by
  rw [advance, if_pos (by simp [h])]

/-- The rest of a comment or literal is passed in any case. -/
theorem advance_append_of_isInside {body : List Cell} (h : ∀ x ∈ body, x.isInside = true)
    (cells : List Cell) : advance keyword target c (body ++ cells) =
      advance keyword target (body.foldl (step keyword) c) cells := by
  induction body generalizing c with
  | nil => rfl
  | cons x body ih =>
    obtain ⟨hx, hbody⟩ := List.forall_mem_cons.1 h
    rw [List.cons_append, advance, if_pos (by simp [hx]), ih hbody, List.foldl_cons]

end

/-- At the start of a text there is nothing to pass. -/
theorem advance_zero (keyword text : Bytes) :
    advance keyword 0 {} (scan text) = ({}, scan text) := by
  have hfirst := (parted_scan text).takeWhile_inside
  cases hcells : scan text with
  | nil => rfl
  | cons cell cells =>
    have hinside : cell.isInside = false := by
      rw [hcells, List.takeWhile_cons] at hfirst
      split at hfirst
      · cases hfirst
      · next hinside => exact Bool.eq_false_iff.2 hinside
    simp [advance, hinside]

/-- Only the largest offset counts. -/
theorem travel_advance (keyword : Bytes) (targets : List Nat) (t : Nat) (c : Cursor)
    (cells : List Cell) : travel keyword targets (advance keyword t c cells) =
      advance keyword (targets.foldl max t) c cells := by
  induction targets generalizing t with
  | nil => rfl
  | cons target targets ih => rw [List.foldl_cons, ← ih, ← advance_advance]; rfl

/-- Any number of advances is one advance to the largest offset. -/
theorem travel_eq_advance (keyword : Bytes) (targets : List Nat) (text : Bytes) :
    travel keyword targets ({}, scan text) =
      advance keyword (targets.foldl max 0) {} (scan text) := by
  rw [← travel_advance, advance_zero]

/-! ## The cells that are passed -/

/-- The cells that a cursor passes on its way to an offset: those before it, and the rest of the
comment or literal that it lies in. -/
def passedCells (target : Nat) (cells : List Cell) : List Cell :=
  cells.take target ++ (cells.drop target).takeWhile (·.isInside)

/-- Advancing steps over the cells before the offset and over those that go on inside a region
there. -/
theorem advance_eq_passed (keyword : Bytes) (target : Nat) (c : Cursor) (cells : List Cell) :
    (advance keyword target c cells).1 =
      (passedCells (target - c.offset) cells).foldl (step keyword) c := by
  induction cells generalizing c with
  | nil => simp [advance, passedCells]
  | cons cell cells ih =>
    by_cases hlt : c.offset < target
    · have hcount : target - c.offset = target - (c.step keyword cell).offset + 1 := by
        rw [offset_step]
        omega
      rw [advance, if_pos (by simp [hlt]), ih, hcount]
      rfl
    · have hcount : target - c.offset = 0 := by omega
      have hcount' : target - (c.step keyword cell).offset = 0 := by
        rw [offset_step]
        omega
      rw [advance]
      cases hinside : cell.isInside with
      | true =>
        rw [if_pos (by simp), ih, hcount, hcount']
        simp [passedCells, hinside]
      | false => simp [hlt, hcount, passedCells, hinside]

/-- From the start, an advance leaves the cursor behind all the cells that it passed. -/
theorem advance_eq_past (keyword : Bytes) (target : Nat) (text : Bytes) :
    (advance keyword target {} (scan text)).1 =
      past keyword (passedCells target (scan text)) :=
  advance_eq_passed keyword target {} (scan text)

/-- What goes on inside a comment or literal is not significant. -/
theorem not_isSignificant_of_isInside {cell : Cell} (h : cell.isInside = true) :
    cell.isSignificant = false := by
  unfold Cell.isInside at h
  split at h
  · next hmark => simp [Cell.isSignificant, Cell.isCode, hmark]
  · cases h

end Cursor

/-! ## Offsets -/

section
variable {text : Bytes} {offset : Nat}

/-- The cells of a text hold its bytes, each at its offset. -/
theorem getElem?_scan_map_byte (text : Bytes) (offset : Nat) :
    (scan text)[offset]?.map (·.byte) = text[offset]? := by
  rw [← List.getElem?_map, map_byte_scan]

/-- The cell at an offset, with those on both sides of it. -/
theorem scan_split {cell : Cell} (h : (scan text)[offset]? = some cell) :
    scan text = (scan text).take offset ++ cell :: (scan text).drop (offset + 1) ∧
      ((scan text).take offset).length = offset := by
  obtain ⟨hlt, rfl⟩ := List.getElem?_eq_some_iff.1 h
  refine ⟨?_, List.length_take_of_le (Nat.le_of_lt hlt)⟩
  rw [← List.drop_eq_getElem_cons hlt, List.take_append_drop]

/-- No region covers an offset exactly when the cell there is code. -/
theorem regionAt?_eq_none_iff_code {cell : Cell} (h : (scan text)[offset]? = some cell) :
    regionAt? (regions text) offset = none ↔ cell.mark = .code := by
  obtain ⟨hscan, hlength⟩ := scan_split h
  have hcode := regionAt?_eq_none_iff hscan
  rwa [hlength] at hcode

/-- An offset is significant when the cell there is. -/
theorem significantAt_iff :
    SignificantAt text offset ↔ ∃ cell, (scan text)[offset]? = some cell ∧
      cell.isSignificant = true := by
  unfold SignificantAt
  rw [← getElem?_scan_map_byte]
  constructor
  · rintro ⟨hnone, b, hb, hblank⟩
    obtain ⟨cell, hcell, rfl⟩ := Option.map_eq_some_iff.1 hb
    refine ⟨cell, hcell, ?_⟩
    rw [Cell.isSignificant, Cell.isCode, (regionAt?_eq_none_iff_code hcell).1 hnone, hblank]
    rfl
  · rintro ⟨cell, hcell, hsig⟩
    obtain ⟨hcode, hblank⟩ := Bool.and_eq_true_iff.1 hsig
    refine ⟨(regionAt?_eq_none_iff_code hcell).2 (beq_iff_eq.1 hcode), cell.byte, ?_, ?_⟩
    · rw [hcell]
      rfl
    · simpa using hblank

end

/-- The last cell with a property in front of a limit stands at the last such offset. -/
theorem isLast_of_cells {text : Bytes} {p : Nat → Prop} {q : Cell → Bool} (limit : Nat)
    (hp : ∀ i, p i ↔ ∃ cell, (scan text)[i]? = some cell ∧ q cell = true) :
    ((∀ x ∈ (scan text).take limit, q x = false) ∧ IsLast p limit none) ∨
      ∃ a x g, (scan text).take limit = a ++ x :: g ∧ q x = true ∧ (∀ y ∈ g, q y = false) ∧
        IsLast p limit (some a.length) := by
  have hfront : ∀ j, j < limit →
      (p j ↔ ∃ cell, ((scan text).take limit)[j]? = some cell ∧ q cell = true) := by
    intro j hj
    rw [hp, List.getElem?_take_of_lt hj]
  rcases Cursor.last_split q ((scan text).take limit) with hnone | ⟨a, x, g, hsplit, hx, hg⟩
  · refine .inl ⟨hnone, fun j hj hpj => ?_⟩
    obtain ⟨cell, hcell, hq⟩ := (hfront j hj).1 hpj
    rw [hnone cell (List.mem_of_getElem? hcell)] at hq
    cases hq
  · have hlength : a.length < limit := by
      have := congrArg List.length hsplit
      simp only [List.length_take, List.length_append, List.length_cons] at this
      omega
    refine .inr ⟨a, x, g, hsplit, hx, hg, hlength, ?_, fun j hlt hj hpj => ?_⟩
    · rw [hfront _ hlength, hsplit]
      exact ⟨x, by simp, hx⟩
    · obtain ⟨cell, hcell, hq⟩ := (hfront j hj).1 hpj
      have hindex : j - a.length = j - a.length - 1 + 1 := by omega
      rw [hsplit, List.getElem?_append_right (Nat.le_of_lt hlt), hindex, List.getElem?_cons_succ]
        at hcell
      rw [hg cell (List.mem_of_getElem? hcell)] at hq
      cases hq

/-! ## What the cursor knows -/

section
variable (keyword text : Bytes) (m : Nat)

/-- The last significant cell of a cursor is the last significant one before the offset: what is
passed behind it lies inside a region. -/
theorem isLast_lastCode : IsLast (SignificantAt text) m
    ((Cursor.past keyword (Cursor.passedCells m (scan text))).lastCode.map (·.offset)) := by
  have hrun : ∀ y ∈ ((scan text).drop m).takeWhile (·.isInside), y.isSignificant = false :=
    fun y hy => Cursor.not_isSignificant_of_isInside (List.mem_takeWhile_imp hy)
  rcases isLast_of_cells m (fun i => significantAt_iff) with
    ⟨hnone, hlast⟩ | ⟨a, x, g, hsplit, hx, hg, hlast⟩
  · rw [Cursor.lastCode_past_none]
    · exact hlast
    · exact List.forall_mem_append.2 ⟨hnone, hrun⟩
  · rw [Cursor.passedCells, hsplit, List.append_assoc, List.cons_append,
      Cursor.lastCode_past keyword hx (List.forall_mem_append.2 ⟨hg, hrun⟩)]
    exact hlast

/-- The line that an offset lies on begins behind the last newline before it. -/
theorem lineStart_past_take : ∃ last, IsLast (text[·]? = some Byte.newline) m last ∧
    (Cursor.past keyword ((scan text).take m)).lineStart = last.elim 0 (· + 1) := by
  have hnewline : ∀ i : Nat, text[i]? = some Byte.newline ↔
      ∃ cell : Cell, (scan text)[i]? = some cell ∧ (cell.byte == Byte.newline) = true := by
    intro i
    rw [← getElem?_scan_map_byte, Option.map_eq_some_iff]
    simp only [beq_iff_eq]
  rcases isLast_of_cells m hnewline with ⟨hnone, hlast⟩ | ⟨a, x, g, hsplit, hx, hg, hlast⟩
  · refine ⟨none, hlast, ?_⟩
    exact @Cursor.lineStart_past keyword [] _ (fun c hc => by cases hc) fun c hc =>
      beq_eq_false_iff_ne.1 (hnone c hc)
  · refine ⟨some a.length, hlast, ?_⟩
    have hup : Cursor.LineBegins (a ++ [x]) := by
      intro c hc
      rw [List.getLast?_append, List.getLast?_singleton, Option.some_or, Option.some.injEq] at hc
      rw [← hc]
      exact beq_iff_eq.1 hx
    rw [hsplit, List.append_cons a x g, Cursor.lineStart_past keyword hup fun c hc =>
      beq_eq_false_iff_ne.1 (hg c hc), List.length_append]
    rfl

end

/-- What is open behind cells does not depend on the keyword, nor do the place and the line. -/
theorem past_keyword (keyword keyword' : Bytes) (cells : List Cell) :
    (Cursor.past keyword' cells).lastCode = (Cursor.past keyword cells).lastCode ∧
    (Cursor.past keyword' cells).lineStart = (Cursor.past keyword cells).lineStart ∧
    (Cursor.past keyword' cells).insideGroup = (Cursor.past keyword cells).insideGroup := by
  refine ⟨?_, ?_, by rw [Cursor.insideGroup_past, Cursor.insideGroup_past]⟩
  · rcases Cursor.last_split Cell.isSignificant cells with hnone | ⟨a, x, g, rfl, hx, hg⟩
    · rw [Cursor.lastCode_past_none _ hnone, Cursor.lastCode_past_none _ hnone]
    · rw [Cursor.lastCode_past _ hx hg, Cursor.lastCode_past _ hx hg]
  · obtain ⟨up, row, rfl, hup, hrow⟩ := Cursor.line_split cells
    rw [Cursor.lineStart_past _ hup hrow, Cursor.lineStart_past _ hup hrow]

/-- A cursor that is advanced to offsets in any order knows what a fresh one knows that is advanced
once to the largest of them. Its last significant byte is the last one before that offset; its line
begins behind the last newline before the offset, unless this lies strictly inside of a comment or
literal. The keyword has no part in either, nor in whether a group is open. -/
theorem travel_knows_largest (keyword text : Bytes) (targets : List Nat) :
    let m := targets.foldl max 0
    let c := (Cursor.travel keyword targets ({}, scan text)).1
    c = (Cursor.advance keyword m {} (scan text)).1 ∧
    c.handler? = handlerAt? keyword text m ∧
    IsLast (SignificantAt text) m (c.lastCode.map (·.offset)) ∧
    ((∀ r ∈ regions text, ¬ (r.span.start < m ∧ m < r.span.stop)) →
      ∃ last, IsLast (text[·]? = some Byte.newline) m last ∧ c.lineStart = last.elim 0 (· + 1)) ∧
    ∀ keyword', let c' := (Cursor.travel keyword' targets ({}, scan text)).1
      c'.lastCode = c.lastCode ∧ c'.lineStart = c.lineStart ∧ c'.insideGroup = c.insideGroup := by
  intro m c
  have hc : ∀ keyword, (Cursor.travel keyword targets ({}, scan text)).1 =
      Cursor.past keyword (Cursor.passedCells m (scan text)) := by
    intro keyword
    rw [Cursor.travel_eq_advance, Cursor.advance_eq_past]
  have hfresh : c = (Cursor.advance keyword m {} (scan text)).1 :=
    congrArg Prod.fst (Cursor.travel_eq_advance keyword targets text)
  refine ⟨hfresh, congrArg Cursor.handler? hfresh, ?_, fun hout => ?_, fun keyword' => ?_⟩
  · simp only [c, hc]
    exact isLast_lastCode keyword text m
  · have hpassed : Cursor.passedCells m (scan text) = (scan text).take m := by
      rw [Cursor.passedCells, takeWhile_inside_drop hout, List.append_nil]
    simp only [c, hc, hpassed]
    exact lineStart_past_take keyword text m
  · simp only [c, hc]
    exact past_keyword keyword keyword' _

end LogSweep.Block
