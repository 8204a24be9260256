import LogSweep.Call.Site
import LogSweep.Proofs.Block.Past
import LogSweep.Proofs.Lexical.Compose

/-!
# The parts of a call

What the search reads ahead of a cursor, taken apart. A place where the target is called is a name
in code, blanks and a parenthesis (`CallAt`), and the verdict on it follows from what comes behind
(`judge_of_callAt`); every other place is ignored (`callAt_of_judge`). A call that is accepted is a
`Statement`: the name, blanks, the parenthesised arguments, and blanks and a semicolon if there is
one (`judge_accepted`). The parentheses of the arguments are balanced.
-/

namespace LogSweep

open Lexical Block

/-! ## Dotted names -/

/-- The bytes of names joined by dots, as far as reading them goes. -/
structure Dotted (name : Bytes) : Prop where
  head : ∃ b rest, name = b :: rest ∧ Byte.isName b
  bytes : ∀ b ∈ name, Byte.isName b ∨ b = Byte.dot

/-- Bytes that a dotted name can hold. -/
def isDottedByte (b : UInt8) : Bool :=
  Byte.isName b || b == Byte.dot

/-- A dotted name is made of bytes of names and dots. -/
theorem Dotted.isDottedByte {name : Bytes} (h : Dotted name) {b : UInt8} (hb : b ∈ name) :
    isDottedByte b := by
  simpa [LogSweep.isDottedByte] using h.bytes b hb

/-- The bytes of a dotted name open no comment or literal. -/
theorem Dotted.plain {name : Bytes} (h : Dotted name) : ∀ b ∈ name, isPlain b := by
  intro b hb
  have hd := h.isDottedByte hb
  by_contra hp
  simp only [isPlain, Bool.not_eq_true, Bool.not_eq_false', Bool.or_eq_true, beq_iff_eq] at hp
  rcases hp with ((rfl | rfl) | rfl) | rfl <;> cases hd

/-- White space opens no comment or literal. -/
theorem isPlain_of_isBlank {b : UInt8} (h : Byte.isBlank b) : isPlain b := by
  by_contra hp
  simp only [isPlain, Bool.not_eq_true, Bool.not_eq_false', Bool.or_eq_true, beq_iff_eq] at hp
  rcases hp with ((rfl | rfl) | rfl) | rfl <;> cases h

/-- Spaces and tabs are white space. -/
theorem isBlank_of_isHorizontal {b : UInt8} (h : Byte.isHorizontal b) : Byte.isBlank b := by
  simp only [Byte.isHorizontal, Bool.or_eq_true, beq_iff_eq] at h
  rcases h with rfl | rfl <;> rfl

/-- White space is no part of a name. -/
theorem not_isDottedByte_of_isBlank {b : UInt8} (h : Byte.isBlank b) : isDottedByte b = false := by
  simp only [Byte.isBlank, Bool.or_eq_true, beq_iff_eq] at h
  rcases h with (((rfl | rfl) | rfl) | rfl) | rfl <;> rfl

/-- Cells that no name goes on behind: they do not end with a byte of a dotted name. -/
def Ended (cells : List Cell) : Prop :=
  ∀ c, cells.getLast? = some c → isDottedByte c.byte = false

theorem Ended.nil : Ended [] := by
  intro c hc
  cases hc

/-- Cells are ended when the last of them is no part of a name. -/
theorem ended_snoc {cells : List Cell} {c : Cell} :
    Ended (cells ++ [c]) ↔ isDottedByte c.byte = false := by
  simp [Ended]

/-- An ended stretch behind an ended one leaves them ended, also when it is empty. -/
theorem Ended.append {a b : List Cell} (ha : Ended a) (hb : Ended b) : Ended (a ++ b) := by
  rcases List.eq_nil_or_concat b with rfl | ⟨init, c, rfl⟩
  · simpa using ha
  · rw [List.concat_eq_append] at hb ⊢
    rw [← List.append_assoc, ended_snoc]
    exact ended_snoc.1 hb

/-- The end of an ended stretch is ended. -/
theorem Ended.of_append {a b : List Cell} (h : Ended (a ++ b)) : Ended b := by
  intro c hc
  exact h c (by rw [List.getLast?_append, hc]; rfl)

namespace Call

/-! ## Reading ahead -/

/-- Skipping goes up to the first byte that is not skipped. -/
theorem skipWhile_append {p : UInt8 → Bool} {a rest : List Cell} (ha : ∀ c ∈ a, p c.byte = true)
    (hrest : ∀ c, rest.head? = some c → p c.byte = false) (offset : Nat) :
    skipWhile p offset (a ++ rest) = (offset + a.length, rest) := by
  induction a generalizing offset with
  | nil =>
    cases rest with
    | nil => rfl
    | cons c rest => simp [skipWhile, hrest c rfl]
  | cons c a ih =>
    have hc : p c.byte = true := ha c (by simp)
    rw [List.cons_append, skipWhile, if_pos hc, ih fun x hx => ha x (List.mem_cons_of_mem _ hx),
      List.length_cons]
    congr 1
    omega

/-- Every run begins with the cells that are skipped and goes on with one that is not. -/
theorem skip_split (p : UInt8 → Bool) (cells : List Cell) :
    ∃ a rest, cells = a ++ rest ∧ (∀ c ∈ a, p c.byte = true) ∧
      ∀ c, rest.head? = some c → p c.byte = false := by
  induction cells with
  | nil => exact ⟨[], [], rfl, by simp, by simp⟩
  | cons c cells ih =>
    by_cases hc : p c.byte = true
    · obtain ⟨a, rest, rfl, ha, hrest⟩ := ih
      refine ⟨c :: a, rest, rfl, fun x hx => ?_, hrest⟩
      rcases List.mem_cons.1 hx with rfl | hx
      · exact hc
      · exact ha x hx
    · exact ⟨[], c :: cells, rfl, by simp, by simpa using hc⟩

/-- Cells spell a word when they begin with cells that hold its bytes. -/
theorem spells_iff {bytes : Bytes} {cells : List Cell} :
    spells bytes cells = true ↔ ∃ a rest, cells = a ++ rest ∧ a.map (·.byte) = bytes := by
  induction bytes generalizing cells with
  | nil => exact ⟨fun _ => ⟨[], cells, rfl, rfl⟩, fun _ => by cases cells <;> rfl⟩
  | cons b bytes ih =>
    cases cells with
    | nil => simp [spells]
    | cons c cells =>
      simp only [spells, Bool.and_eq_true, beq_iff_eq, ih]
      constructor
      · rintro ⟨rfl, a, rest, rfl, rfl⟩
        exact ⟨c :: a, rest, rfl, rfl⟩
      · rintro ⟨a, rest, h, ha⟩
        cases a with
        | nil => simp at ha
        | cons x a =>
          simp only [List.cons_append, List.cons.injEq, List.map_cons] at h ha
          exact ⟨by rw [h.1, ha.1], a, rest, h.2, ha.2⟩

/-! ## Parentheses -/

/-- What a cell adds to the number of open parentheses. -/
def turn (c : Cell) : Int :=
  if !c.isCode then 0
  else if c.byte == Byte.openParen then 1
  else if c.byte == Byte.closeParen then -1
  else 0

/-- How many more parentheses the cells open than they close. -/
def excess : List Cell → Int
  | [] => 0
  | c :: cells => turn c + excess cells

@[simp] theorem excess_nil : excess [] = 0 := rfl

@[simp] theorem excess_cons (c : Cell) (cells : List Cell) :
    excess (c :: cells) = turn c + excess cells := rfl

@[simp] theorem excess_append (a b : List Cell) : excess (a ++ b) = excess a + excess b := by
  induction a with
  | nil => simp
  | cons c a ih => rw [List.cons_append, excess_cons, excess_cons, ih, Int.add_assoc]

/-- From `depth` open parentheses the cells go down to one, and never lower on the way. -/
structure Settles (depth : Int) (cells : List Cell) : Prop where
  ends : depth + excess cells = 1
  stays : ∀ m, m <+: cells → 1 ≤ depth + excess m

/-- Whether the count settles behind a cell is whether it does from the count that the cell leaves.
-/
theorem Settles.cons_iff {depth : Int} {c : Cell} {cells : List Cell} :
    Settles depth (c :: cells) ↔ 1 ≤ depth ∧ Settles (depth + turn c) cells := by
  constructor
  · intro h
    refine ⟨by simpa using h.stays [] (by simp), ⟨?_, fun m hm => ?_⟩⟩
    · simpa [Int.add_assoc] using h.ends
    · simpa [Int.add_assoc] using h.stays (c :: m) (by simpa using hm)
  · rintro ⟨hpos, h⟩
    refine ⟨by simpa [Int.add_assoc] using h.ends, fun m hm => ?_⟩
    cases m with
    | nil => simpa using hpos
    | cons x m =>
      have hm := List.cons_prefix_cons.1 hm
      simpa [hm.1, Int.add_assoc] using h.stays m hm.2

/-- Before nothing the count settles at one, where the next closing parenthesis ends it. -/
theorem Settles.nil_iff {depth : Int} : Settles depth [] ↔ depth = 1 := by
  constructor
  · intro h
    simpa using h.ends
  · rintro rfl
    exact ⟨rfl, fun m hm => by simp [List.prefix_nil.1 hm]⟩

/-- Where the closing parenthesis is, seen from the first cell: it is that cell, or it closes the
cells behind. -/
theorem settles_cons_iff {depth : Int} {offset q : Nat} {c : Cell} {cells behind : List Cell} :
    (∃ mid, c :: cells = mid ++ ⟨Byte.closeParen, .code⟩ :: behind ∧ q = offset + mid.length ∧
        Settles depth mid) ↔
      (c = ⟨Byte.closeParen, .code⟩ ∧ cells = behind ∧ q = offset ∧ depth = 1) ∨
      (1 ≤ depth ∧ ∃ mid, cells = mid ++ ⟨Byte.closeParen, .code⟩ :: behind ∧
        q = offset + 1 + mid.length ∧ Settles (depth + turn c) mid) := by
  constructor
  · rintro ⟨mid, h, rfl, hs⟩
    cases mid with
    | nil =>
      obtain ⟨rfl, rfl⟩ := List.cons.inj h
      exact .inl ⟨rfl, rfl, rfl, Settles.nil_iff.1 hs⟩
    | cons x mid =>
      obtain ⟨rfl, rfl⟩ := List.cons.inj h
      obtain ⟨hd, hs⟩ := Settles.cons_iff.1 hs
      exact .inr ⟨hd, mid, rfl, by simp only [List.length_cons]; omega, hs⟩
  · rintro (⟨rfl, rfl, rfl, rfl⟩ | ⟨hd, mid, rfl, rfl, hs⟩)
    · exact ⟨[], rfl, rfl, Settles.nil_iff.2 rfl⟩
    · exact ⟨c :: mid, rfl, by simp only [List.length_cons]; omega, Settles.cons_iff.2 ⟨hd, hs⟩⟩

theorem turn_close : turn ⟨Byte.closeParen, .code⟩ = -1 := rfl

/-- Only a closing parenthesis turns the count down. -/
theorem turn_nonneg {c : Cell} (h : c ≠ ⟨Byte.closeParen, .code⟩) : 0 ≤ turn c := by
  unfold turn
  split
  · exact Int.le_refl 0
  · next hcode =>
    split
    · decide
    · split
      · next hb =>
        refine absurd ?_ h
        obtain ⟨b, mark⟩ := c
        simp only [Cell.isCode, Bool.not_eq_true, Bool.not_eq_false', beq_iff_eq] at hcode hb
        rw [hcode, hb]
      · exact Int.le_refl 0

/-- The search for the closing parenthesis stops at one that takes the count from one, and otherwise
counts on. -/
theorem closingParen?_cons (depth : Int) (offset : Nat) (c : Cell) (cells : List Cell) :
    closingParen? depth offset (c :: cells) =
      if c = ⟨Byte.closeParen, .code⟩ ∧ depth = 1 then some (offset, cells)
      else closingParen? (depth + turn c) (offset + 1) cells := by
  obtain ⟨b, mark⟩ := c
  by_cases hcode : mark = .code
  · subst hcode
    by_cases hopen : b = Byte.openParen
    · subst hopen
      rfl
    · by_cases hclose : b = Byte.closeParen
      · subst hclose
        by_cases hone : depth = 1
        · subst hone
          rfl
        · have hne : ¬ depth - 1 = 0 := by omega
          have hsub : depth + -1 = depth - 1 := by omega
          simp [closingParen?, Cell.isCode, hopen, hone, hne, turn_close, hsub]
      · simp [closingParen?, Cell.isCode, turn, hopen, hclose]
  · simp [closingParen?, Cell.isCode, turn, hcode]

/-- The parenthesis that closes is the first in code that leaves none open. -/
theorem closingParen?_eq_some_iff {depth : Int} (hd : 1 ≤ depth) {offset q : Nat}
    {cells behind : List Cell} :
    closingParen? depth offset cells = some (q, behind) ↔
      ∃ mid, cells = mid ++ ⟨Byte.closeParen, .code⟩ :: behind ∧ q = offset + mid.length ∧
        Settles depth mid := by
  induction cells generalizing depth offset with
  | nil => simp [closingParen?]
  | cons c cells ih =>
    rw [settles_cons_iff, closingParen?_cons]
    by_cases hc : c = ⟨Byte.closeParen, .code⟩
    · by_cases hone : depth = 1
      · -- the first cell closes: behind it the count would stand at zero
        rw [if_pos ⟨hc, hone⟩]
        have hzero : ∀ mid, ¬ Settles (depth + turn c) mid := fun mid hs => by
          have := hs.stays [] (by simp)
          simp [hc, hone, turn_close] at this
        constructor
        · intro h
          cases h
          exact .inl ⟨hc, rfl, rfl, hone⟩
        · rintro (⟨-, rfl, rfl, -⟩ | ⟨-, mid, -, -, hs⟩)
          · rfl
          · exact absurd hs (hzero mid)
      · rw [if_neg (fun h => hone h.2), ih (by rw [hc, turn_close]; omega)]
        simp [hone, hd]
    · have := turn_nonneg hc
      rw [if_neg (fun h => hc h.1), ih (by omega)]
      simp [hc, hd]

/-! ## Calls -/

/-- The target is called between `pre` and `ahead`: its name stands in code and does not end a
longer name, and blanks, a parenthesis and `rest` follow. -/
structure CallAt (target : Bytes) (pre ahead : List Cell) (blanks : Bytes) (rest : List Cell) :
    Prop where
  boundary : Ended pre
  blank : ∀ b ∈ blanks, Byte.isBlank b
  ahead_eq : ahead = codeCells target ++ codeCells blanks ++ ⟨Byte.openParen, .code⟩ :: rest

section
variable {target keyword : Bytes} (ht : Dotted target)
include ht

/-- A name is whole where code begins and no name goes on from before. -/
theorem isWholeName_iff {pre ahead : List Cell} :
    isWholeName target (.past keyword pre) ahead = true ↔
      (∃ c rest, ahead = c :: rest ∧ c.mark = .code) ∧ Ended pre := by
  obtain ⟨b, name, rfl, hb⟩ := ht.head
  rw [isWholeName.eq_def, Bool.and_eq_true, Cursor.before_past]
  refine and_congr ?_ ?_
  · cases ahead <;> simp [Cell.isCode]
  · rcases List.eq_nil_or_concat pre with rfl | ⟨init, c, rfl⟩
    · simp [Ended]
    · simp [hb, ended_snoc, isDottedByte]

/-- In code the target, blanks and a parenthesis are cells of code. -/
theorem call_cells {name blanks rest : List Cell} {c : Cell}
    (hlex : Lexed (name ++ (blanks ++ c :: rest))) (hname : name.map (·.byte) = target)
    (hblank : ∀ x ∈ blanks, Byte.isBlank x.byte) (hopen : c.byte = Byte.openParen) :
    name ++ (blanks ++ c :: rest) = codeCells target ++ codeCells (blanks.map (·.byte)) ++
      ⟨Byte.openParen, .code⟩ :: rest := by
  obtain ⟨hcells, hmore⟩ := hlex.of_plain fun x hx =>
    ht.plain _ (by rw [← hname]; exact List.mem_map_of_mem hx)
  obtain ⟨hblanks, hrest⟩ := hmore.of_plain fun x hx => isPlain_of_isBlank (hblank x hx)
  have hc : [c] = codeCells [c.byte] :=
    (Lexed.of_plain (a := [c]) hrest (by rw [List.forall_mem_singleton, hopen]; rfl)).1
  rw [hopen] at hc
  rw [← hname, ← hcells, ← hblanks, List.append_assoc, (List.cons.inj hc).1]

/-- What is judged and not ignored is a call of the target. -/
theorem callAt_of_judge {pre ahead : List Cell} {accepted : Option Span}
    (hlex : Lexed (pre ++ ahead)) (hspell : spells target ahead = true)
    (h : judge target accepted (.past keyword pre) ahead ≠ .ignored) :
    ∃ blanks rest, CallAt target pre ahead blanks rest := by
  unfold judge at h
  split at h
  · exact absurd rfl h
  next hwhole =>
  obtain ⟨⟨x, xs, hx, hcode⟩, hbound⟩ := (isWholeName_iff ht).1 (by simpa using hwhole)
  obtain ⟨name, more, rfl, hname⟩ := spells_iff.1 hspell
  obtain ⟨blanks, rest, rfl, hblank, hstop⟩ := skip_split Byte.isBlank more
  have hlen : target.length = name.length := by rw [← hname, List.length_map]
  rw [hlen, List.drop_left, skipWhile_append hblank hstop] at h
  have hahead : Lexed (name ++ (blanks ++ rest)) := by
    rw [hx] at hlex ⊢
    exact hlex.from_code hcode
  cases rest with
  | nil => exact absurd rfl h
  | cons c cells =>
    by_cases hopen : c.byte = Byte.openParen
    · exact ⟨_, cells, hbound, by simpa using hblank, call_cells ht hahead hname hblank hopen⟩
    · simp [hopen] at h

/-- The verdict on a call follows from what stands behind its parenthesis. -/
theorem judge_of_callAt (keyword : Bytes) {pre ahead rest : List Cell} {blanks : Bytes}
    (accepted : Option Span) (h : CallAt target pre ahead blanks rest) :
    judge target accepted (.past keyword pre) ahead =
      match closingParen? 1 (pre.length + target.length + blanks.length + 1) rest with
      | none => .refused .unbalanced
      | some (closed, behind) =>
        if !atStatement (.past keyword pre) accepted then .refused .notStatement else
        match ending? (closed + 1) behind with
        | none => .refused .resultUsed
        | some e => .accepted {
            start := pre.length
            stop := e.stop
            line := (Cursor.past keyword pre).line
            arguments := (rest.take
              (closed - (pre.length + target.length + blanks.length) - 1)).map (·.byte)
            semicolon := e.semicolon
            lineStart := (Cursor.past keyword pre).lineStart
            startsLine := (Cursor.past keyword pre).startsLine
            removal := removal (.past keyword pre) e
            redirection := redirection? (.past keyword pre) e } := by
  obtain ⟨b, name, hname, hb⟩ := ht.head
  have hwhole : isWholeName target (.past keyword pre) ahead = true := by
    refine (isWholeName_iff ht).2 ⟨?_, h.boundary⟩
    rw [h.ahead_eq, hname]
    exact ⟨_, _, rfl, rfl⟩
  have hdrop : ahead.drop target.length =
      codeCells blanks ++ ⟨Byte.openParen, .code⟩ :: rest := by
    rw [h.ahead_eq, List.append_assoc, ← length_codeCells target, List.drop_left]
  have hskip : skipWhile Byte.isBlank (pre.length + target.length)
      (codeCells blanks ++ ⟨Byte.openParen, .code⟩ :: rest) =
        (pre.length + target.length + (codeCells blanks).length,
          ⟨Byte.openParen, .code⟩ :: rest) :=
    skipWhile_append (fun c hc => h.blank _ (mem_codeCells.1 hc).1) (by simp; rfl) _
  rw [judge, hwhole, hdrop, Cursor.offset_past, hskip, length_codeCells]
  rfl

end

/-! ## Statements -/

/-- A call statement, whatever function it calls. -/
structure Statement where
  /-- What stands between the name and its parenthesis. -/
  blanks : Bytes
  arguments : List Cell
  /-- What stands in front of the semicolon, if there is one. -/
  tail : Option Bytes
  isBlank : ∀ b ∈ blanks, Byte.isBlank b
  balanced : Settles 1 arguments
  isHorizontal : ∀ bytes ∈ tail, ∀ b ∈ bytes, Byte.isHorizontal b

namespace Statement

/-- The end of a statement behind its parenthesis. -/
def tailCells : Option Bytes → List Cell
  | none => []
  | some bytes => codeCells bytes ++ [⟨Byte.semicolon, .code⟩]

/-- The cells of the statement with the name of the function it calls. -/
def cells (function : Bytes) (s : Statement) : List Cell :=
  codeCells function ++ codeCells s.blanks ++ ⟨Byte.openParen, .code⟩ ::
    (s.arguments ++ ⟨Byte.closeParen, .code⟩ :: tailCells s.tail)

/-- The arguments of the statement with their parentheses. -/
def group (s : Statement) : List Cell :=
  ⟨Byte.openParen, .code⟩ :: s.arguments ++ [⟨Byte.closeParen, .code⟩]

/-- The cells of a statement: the function, blanks, the parenthesised arguments and what follows. -/
theorem cells_eq (function : Bytes) (s : Statement) :
    s.cells function = codeCells function ++ codeCells s.blanks ++ s.group ++ tailCells s.tail := by
  simp [cells, group]

/-- What follows the call in its statement is code. -/
theorem tailCells_eq (tail : Option Bytes) : ∃ bytes, tailCells tail = codeCells bytes := by
  cases tail with
  | none => exact ⟨[], rfl⟩
  | some bytes => exact ⟨bytes ++ [Byte.semicolon], by simp [tailCells]⟩

/-- The offset behind the parenthesis of a statement that begins at an offset. -/
def closed (function : Bytes) (s : Statement) (offset : Nat) : Nat :=
  offset + function.length + s.blanks.length + s.arguments.length + 2

/-- The end of a statement is the end of its call and what follows. -/
theorem length_cells (function : Bytes) (s : Statement) (offset : Nat) :
    offset + (s.cells function).length = s.closed function offset + (tailCells s.tail).length := by
  simp only [cells, closed, List.length_append, List.length_cons, length_codeCells]
  omega

/-- The end of the statement in a text where `behind` follows it. -/
def ending (function : Bytes) (s : Statement) (offset : Nat) (behind : List Cell) : Ending :=
  ⟨offset + (s.cells function).length, s.tail.isSome, behind⟩

/-- The site of the statement between `pre` and `behind`. -/
def site (function keyword : Bytes) (s : Statement) (pre behind : List Cell) : Site where
  start := pre.length
  stop := pre.length + (s.cells function).length
  line := (Cursor.past keyword pre).line
  arguments := s.arguments.map (·.byte)
  semicolon := s.tail.isSome
  lineStart := (Cursor.past keyword pre).lineStart
  startsLine := (Cursor.past keyword pre).startsLine
  removal := removal (.past keyword pre) (s.ending function pre.length behind)
  redirection := redirection? (.past keyword pre) (s.ending function pre.length behind)

end Statement

/-- A statement ends with its parenthesis, or with a semicolon that only spaces and tabs keep from
it. -/
theorem ending?_tail {offset : Nat} {cells : List Cell} {e : Ending} (hlex : Lexed cells)
    (h : ending? offset cells = some e) :
    ∃ tail : Option Bytes, (∀ bytes ∈ tail, ∀ b ∈ bytes, Byte.isHorizontal b) ∧
      cells = Statement.tailCells tail ++ e.ahead ∧
      e = ⟨offset + (Statement.tailCells tail).length, tail.isSome, e.ahead⟩ := by
  have hnone : e = ⟨offset, false, cells⟩ → ∃ tail : Option Bytes,
      (∀ bytes ∈ tail, ∀ b ∈ bytes, Byte.isHorizontal b) ∧
      cells = Statement.tailCells tail ++ e.ahead ∧
      e = ⟨offset + (Statement.tailCells tail).length, tail.isSome, e.ahead⟩ := by
    rintro rfl
    exact ⟨none, by simp, rfl, rfl⟩
  obtain ⟨gap, rest, rfl, hgap, hstop⟩ := skip_split Byte.isHorizontal cells
  rw [ending?, skipWhile_append hgap hstop] at h
  cases rest with
  | nil => exact hnone (Option.some.inj h).symm
  | cons c ahead =>
    simp only at h
    split at h
    · next hsemi =>
      cases h
      obtain ⟨hcells, hrest⟩ := hlex.of_plain fun c hc =>
        isPlain_of_isBlank (isBlank_of_isHorizontal (hgap c hc))
      have hc : [c] = codeCells [c.byte] :=
        (Lexed.of_plain (a := [c]) hrest (by
          rw [List.forall_mem_singleton, beq_iff_eq.1 hsemi]; rfl)).1
      rw [beq_iff_eq.1 hsemi] at hc
      refine ⟨some (gap.map (·.byte)), by simpa using hgap, ?_, ?_⟩
      · rw [Statement.tailCells, ← hcells, (List.cons.inj hc).1, List.append_assoc]
        rfl
      · simp [Statement.tailCells, Nat.add_assoc]
    · split at h
      · exact hnone (Option.some.inj h).symm
      · split at h
        · split at h
          · cases h
          · split at h
            · cases h
            · exact hnone (Option.some.inj h).symm
        · cases h

/-- The statement `s` stands between `pre` and `behind` as a call statement of the target. -/
structure StatementAt (target keyword : Bytes) (accepted : Option Span) (pre : List Cell)
    (s : Statement) (behind : List Cell) : Prop where
  boundary : Ended pre
  position : atStatement (.past keyword pre) accepted = true
  ending : ending? (s.closed target pre.length) (Statement.tailCells s.tail ++ behind) =
    some (s.ending target pre.length behind)

section
variable {target keyword : Bytes} (ht : Dotted target)
include ht

/-- A call statement is accepted, as its site. -/
theorem StatementAt.judge_eq {accepted : Option Span} {pre behind : List Cell} {s : Statement}
    (h : StatementAt target keyword accepted pre s behind) :
    judge target accepted (.past keyword pre) (s.cells target ++ behind) =
      .accepted (s.site target keyword pre behind) := by
  have hcall : CallAt target pre (s.cells target ++ behind) s.blanks
      (s.arguments ++ ⟨Byte.closeParen, .code⟩ :: (Statement.tailCells s.tail ++ behind)) :=
    ⟨h.boundary, s.isBlank, by simp [Statement.cells]⟩
  have hclose : closingParen? 1 (pre.length + target.length + s.blanks.length + 1)
      (s.arguments ++ ⟨Byte.closeParen, .code⟩ :: (Statement.tailCells s.tail ++ behind)) =
        some (pre.length + target.length + s.blanks.length + 1 + s.arguments.length,
          Statement.tailCells s.tail ++ behind) :=
    (closingParen?_eq_some_iff (by decide)).2 ⟨s.arguments, rfl, rfl, s.balanced⟩
  have hclosed : pre.length + target.length + s.blanks.length + 1 + s.arguments.length + 1 =
      s.closed target pre.length := by
    rw [Statement.closed]
    omega
  have htake : pre.length + target.length + s.blanks.length + 1 + s.arguments.length -
      (pre.length + target.length + s.blanks.length) - 1 = s.arguments.length := by
    omega
  rw [judge_of_callAt ht keyword accepted hcall, hclose]
  simp only [h.position, hclosed, h.ending, htake, List.take_left]
  rfl

/-- A call that is accepted is a call statement, and accepted as its site. -/
theorem judge_accepted {accepted : Option Span} {pre ahead : List Cell} {site : Site}
    (hlex : Lexed (pre ++ ahead)) (hspell : spells target ahead = true)
    (h : judge target accepted (.past keyword pre) ahead = .accepted site) :
    ∃ s behind, ahead = s.cells target ++ behind ∧ site = s.site target keyword pre behind ∧
      StatementAt target keyword accepted pre s behind := by
  obtain ⟨blanks, rest, hcall⟩ :=
    callAt_of_judge ht hlex hspell (by rw [h]; exact Verdict.noConfusion)
  have hjudge := judge_of_callAt ht keyword accepted hcall
  obtain ⟨hbound, hblank, rfl⟩ := hcall
  cases hclose : closingParen? 1 (pre.length + target.length + blanks.length + 1) rest with
  | none => rw [hjudge, hclose] at h; cases h
  | some p =>
    obtain ⟨q, more⟩ := p
    rw [hclose] at hjudge
    obtain ⟨arguments, rfl, rfl, hbal⟩ := (closingParen?_eq_some_iff (by decide)).1 hclose
    have hmore : Lexed more := by
      rw [← List.append_assoc, ← List.cons_append, ← List.append_assoc] at hlex
      exact hlex.of_code rfl
    by_cases hpos : atStatement (.past keyword pre) accepted = true
    · cases hend : ending? (pre.length + target.length + blanks.length + 1 + arguments.length + 1)
        more with
      | none =>
        rw [hjudge] at h
        simp [hpos, hend] at h
      | some e =>
        obtain ⟨tail, htail, rfl, he⟩ := ending?_tail hmore hend
        let s : Statement := ⟨blanks, arguments, tail, hblank, hbal, htail⟩
        have hclosed : pre.length + target.length + blanks.length + 1 + arguments.length + 1 =
            s.closed target pre.length := by
          simp only [Statement.closed, s]
          omega
        have hat : StatementAt target keyword accepted pre s e.ahead := by
          refine ⟨hbound, hpos, ?_⟩
          rw [← hclosed, hend, he, Statement.ending, Statement.length_cells, hclosed]
        have hcells : codeCells target ++ codeCells blanks ++ ⟨Byte.openParen, .code⟩ ::
            (arguments ++ ⟨Byte.closeParen, .code⟩ :: (Statement.tailCells tail ++ e.ahead)) =
              s.cells target ++ e.ahead := by
          simp [Statement.cells, s]
        refine ⟨s, e.ahead, hcells, ?_, hat⟩
        rw [hcells, hat.judge_eq ht] at h
        exact (Verdict.accepted.inj h).symm
    · rw [hjudge] at h
      simp [hpos] at h

end

end Call

end LogSweep
