import LogSweep.Proofs.Block.Nesting
import LogSweep.Proofs.Call.Statement
import Mathlib.Data.List.TakeWhile

/-!
# Where a statement can stand

Whether a place is one for a statement is a matter of the open brackets and of the last significant
cell before it (`atStatement_past_iff`). Whether a statement that has come to its parenthesis ends
there depends on the next significant cell at most (`ends_append`), and where its parenthesis closes
on the count of parentheses (`closes_append`). So a stretch in which no parenthesis stays open can
be put in or taken out (`Level.closes_append`).
-/

namespace LogSweep

open Lexical Block Call

/-! ## Before a statement -/

/-- Cells whose last significant one, if there is one, lies in the accepted statement, ends a
statement, or opens or closes a block. -/
def Ready (accepted : Option Span) (cells : List Cell) : Prop :=
  ∀ a x g, cells = a ++ x :: g → x.isSignificant = true → (∀ y ∈ g, y.isSignificant = false) →
    (∃ span ∈ accepted, span.contains a.length = true) ∨
      x.byte = Byte.semicolon ∨ x.byte = Byte.openBrace ∨ x.byte = Byte.closeBrace

/-- The byte of the last significant cell. -/
def lastByte? (cells : List Cell) : Option UInt8 :=
  (cells.reverse.find? (·.isSignificant)).map (·.byte)

/-- The last significant byte is that of the last significant cell. -/
theorem lastByte?_eq {a g : List Cell} {x : Cell} (hx : x.isSignificant = true)
    (hg : ∀ y ∈ g, y.isSignificant = false) : lastByte? (a ++ x :: g) = some x.byte := by
  have hnone : g.reverse.find? (·.isSignificant) = none := by simpa using hg
  rw [lastByte?, List.reverse_append, List.reverse_cons, List.append_assoc, List.find?_append,
    hnone]
  simp [hx]

/-- The last significant cell is one only. -/
theorem last_significant_unique {a b g d : List Cell} {x y : Cell}
    (h : a ++ x :: g = b ++ y :: d) (hx : x.isSignificant = true) (hy : y.isSignificant = true)
    (hg : ∀ z ∈ g, z.isSignificant = false) (hd : ∀ z ∈ d, z.isSignificant = false) :
    a = b ∧ x = y ∧ g = d := by
  rcases List.append_eq_append_iff.1 h with ⟨e, rfl, he⟩ | ⟨e, rfl, he⟩
  · cases e with
    | nil => simpa using he
    | cons z e =>
      obtain ⟨-, rfl⟩ := List.cons.inj he
      rw [hg y (by simp)] at hy
      cases hy
  · cases e with
    | nil => simpa [eq_comm] using he
    | cons z e =>
      obtain ⟨-, rfl⟩ := List.cons.inj he
      rw [hd x (by simp)] at hx
      cases hx

/-- A statement can begin behind cells when the innermost open bracket is a brace, if any is open,
and the cells are ready for one. -/
theorem atStatement_past_iff {keyword : Bytes} {accepted : Option Span} {cells : List Cell} :
    atStatement (.past keyword cells) accepted = true ↔
      (stack cells).head?.any (· != .brace) = false ∧ Ready accepted cells := by
  rw [atStatement, Cursor.insideGroup_past, Bool.and_eq_true, Bool.not_eq_true']
  refine and_congr_right fun _ => ?_
  rcases Cursor.last_split Cell.isSignificant cells with hnone | ⟨a, x, g, rfl, hx, hg⟩
  · rw [Cursor.lastCode_past_none keyword hnone]
    refine ⟨?_, fun _ => rfl⟩
    rintro - a x g rfl hx -
    rw [hnone x (by simp)] at hx
    cases hx
  · rw [Cursor.lastCode_past keyword hx hg]
    have hready : Ready accepted (a ++ x :: g) ↔
        (∃ span ∈ accepted, span.contains a.length = true) ∨
          x.byte = Byte.semicolon ∨ x.byte = Byte.openBrace ∨ x.byte = Byte.closeBrace := by
      refine ⟨fun h => h a x g rfl hx hg, fun h b y d heq hy hd => ?_⟩
      obtain ⟨rfl, rfl, -⟩ := last_significant_unique heq hx hy hg hd
      exact h
    rw [hready]
    cases accepted <;> simp [or_assoc]

section
variable {accepted : Option Span} {p a : List Cell}

/-- A statement can begin where nothing comes before. -/
theorem Ready.nil : Ready accepted [] := by
  intro a x g h
  cases a <;> cases h

/-- What is ready for a statement is so without the cells in front. -/
theorem Ready.of_append (h : Ready none (p ++ a)) : Ready none a := by
  rintro b x g rfl hx hg
  rcases h (p ++ b) x g (by simp) hx hg with ⟨span, hspan, -⟩ | hbyte
  · cases hspan
  · exact .inr hbyte

/-- Cells that are ready stay so behind others, when one of them is significant or the others are
ready themselves. -/
theorem Ready.append (ha : Ready none a)
    (h : (∃ x ∈ a, x.isSignificant = true) ∨ Ready accepted p) : Ready accepted (p ++ a) := by
  rcases Cursor.last_split Cell.isSignificant a with hnone | ⟨b, x, g, rfl, hx, hg⟩
  · have hp : Ready accepted p := by
      refine h.resolve_left ?_
      rintro ⟨x, hmem, hx⟩
      rw [hnone x hmem] at hx
      cases hx
    intro b x g heq hx hg
    rcases List.append_eq_append_iff.1 heq with ⟨e, rfl, he⟩ | ⟨e, rfl, he⟩
    · -- a significant cell does not lie in `a`
      rw [hnone x (by rw [he]; simp)] at hx
      cases hx
    · cases e with
      | nil =>
        rw [hnone x (by rw [← List.nil_append a, ← he]; simp)] at hx
        cases hx
      | cons z e =>
        obtain ⟨rfl, rfl⟩ := List.cons.inj he
        exact hp b x e rfl hx fun y hy => hg y (by simp [hy])
  · intro b' y d heq hy hd
    rw [← List.append_assoc] at heq
    obtain ⟨-, rfl, -⟩ := last_significant_unique heq hx hy hg hd
    rcases ha b x g rfl hx hg with ⟨span, hspan, -⟩ | hbyte
    · cases hspan
    · exact .inr hbyte

/-- Behind the accepted statement a statement can begin. -/
theorem Ready.of_span {span : Span} {c : List Cell} {z : Cell} (hz : z.isSignificant = true)
    (hspan : span.contains p.length = true) (hc : ∀ x ∈ c, x.isSignificant = false) :
    Ready (some span) (p ++ z :: c) := by
  intro b y d heq hy hd
  obtain ⟨rfl, -, -⟩ := last_significant_unique heq hz hy hc hd
  exact .inl ⟨span, rfl, hspan⟩

end

/-! ## Behind the parenthesis -/

/-- A statement whose closing parenthesis comes right before the cells ends there. -/
def Ends (cells : List Cell) : Prop :=
  (ending? 0 cells).isSome = true

/-- A statement is seen to end exactly where the cells say that it does. -/
theorem ending?_isSome_iff (offset : Nat) (cells : List Cell) :
    (ending? offset cells).isSome = true ↔ Ends cells := by
  obtain ⟨gap, rest, rfl, hgap, hstop⟩ := skip_split Byte.isHorizontal cells
  rw [Ends, ending?, ending?, skipWhile_append hgap hstop, skipWhile_append hgap hstop]
  cases rest with
  | nil => rfl
  | cons c rest => simp only [apply_ite Option.isSome, Option.isSome_some, Option.isSome_none]

/-- Significant cells are no gaps. -/
theorem not_isGap_of_isSignificant {c : Cell} (h : c.isSignificant = true) : c.isGap = false := by
  simp only [Cell.isSignificant, Cell.isCode, Bool.and_eq_true, beq_iff_eq, Bool.not_eq_true'] at h
  simp only [Cell.isGap, Cell.kind?, h.1, h.2]

/-- Only the first cell that is no gap counts. -/
theorem continuesExpression_of_not_gap {k : List Cell} (hk : ∃ x ∈ k, x.isGap = false)
    (u : List Cell) : continuesExpression (k ++ u) = continuesExpression k := by
  obtain ⟨x, hmem, hx⟩ := hk
  cases hdrop : k.dropWhile (·.isGap) with
  | nil =>
    have hgap := List.dropWhile_eq_nil_iff.1 hdrop x hmem
    rw [hx] at hgap
    cases hgap
  | cons c rest => simp [continuesExpression, List.dropWhile_append, hdrop]

/-- Gaps do not decide whether an expression goes on. -/
theorem continuesExpression_of_gaps {k : List Cell} (hk : ∀ x ∈ k, x.isGap = true)
    (u : List Cell) : continuesExpression (k ++ u) = continuesExpression u := by
  rw [continuesExpression, continuesExpression, List.dropWhile_append_of_pos hk]

/-- The first significant cell decides it, whatever comes behind. -/
theorem continuesExpression_append {k : List Cell} (hk : ∃ x ∈ k, x.isSignificant = true)
    (u : List Cell) : continuesExpression (k ++ u) = continuesExpression k := by
  obtain ⟨x, hmem, hx⟩ := hk
  exact continuesExpression_of_not_gap ⟨x, hmem, not_isGap_of_isSignificant hx⟩ u

/-- Whether a statement ends shows before the next significant cell is passed. -/
theorem ends_append {k : List Cell} (hk : ∃ x ∈ k, x.isSignificant = true) (u : List Cell) :
    Ends (k ++ u) ↔ Ends k := by
  obtain ⟨x, hmem, hx⟩ := hk
  obtain ⟨gap, rest, rfl, hgap, hstop⟩ := skip_split Byte.isHorizontal k
  have hrest : x ∈ rest := by
    refine (List.mem_append.1 hmem).resolve_left fun hxgap => ?_
    rw [Cell.isSignificant, isBlank_of_isHorizontal (hgap x hxgap)] at hx
    simp at hx
  cases rest with
  | nil => cases hrest
  | cons c rest =>
    have hexpr : continuesExpression (c :: (rest ++ u)) = continuesExpression (c :: rest) :=
      continuesExpression_append ⟨x, hrest, hx⟩ u
    rw [Ends, Ends, ending?, ending?, List.append_assoc, List.cons_append,
      skipWhile_append hgap (by simpa using hstop), skipWhile_append hgap hstop]
    simp only [apply_ite Option.isSome, Option.isSome_some, Option.isSome_none, hexpr]

/-- The parenthesis that brings `depth` open ones down to zero stands among the cells, and a
statement ends behind it. -/
def Closes (depth : Int) (cells : List Cell) : Prop :=
  ∃ args more, cells = args ++ ⟨Byte.closeParen, .code⟩ :: more ∧ Settles depth args ∧ Ends more

/-- The closing parenthesis stands in the first of two runs, or the first run leaves some
parenthesis open. -/
theorem closes_append {depth : Int} {a b : List Cell} :
    Closes depth (a ++ b) ↔
      (∃ args k, a = args ++ ⟨Byte.closeParen, .code⟩ :: k ∧ Settles depth args ∧ Ends (k ++ b)) ∨
      ((∀ m, m <+: a → 1 ≤ depth + excess m) ∧ Closes (depth + excess a) b) := by
  constructor
  · rintro ⟨args, more, heq, hargs, hends⟩
    rcases List.append_eq_append_iff.1 heq with ⟨e, rfl, rfl⟩ | ⟨e, rfl, he⟩
    · refine .inr ⟨fun m hm => hargs.stays m (hm.trans (List.prefix_append _ _)),
        e, more, rfl, ⟨?_, fun m hm => ?_⟩, hends⟩
      · simpa [Int.add_assoc] using hargs.ends
      · simpa [Int.add_assoc] using hargs.stays (a ++ m) ((List.prefix_append_right_inj a).2 hm)
    · cases e with
      | nil =>
        have he : b = ⟨Byte.closeParen, .code⟩ :: more := by simpa using he.symm
        rw [List.append_nil]
        exact .inr ⟨hargs.stays, [], more, he, Settles.nil_iff.2 hargs.ends, hends⟩
      | cons z e =>
        obtain ⟨rfl, rfl⟩ := List.cons.inj he
        exact .inl ⟨args, e, rfl, hargs, hends⟩
  · rintro (⟨args, k, rfl, hargs, hends⟩ | ⟨hstays, args, more, rfl, hargs, hends⟩)
    · exact ⟨args, k ++ b, by simp, hargs, hends⟩
    · refine ⟨a ++ args, more, by simp, ⟨?_, fun m hm => ?_⟩, hends⟩
      · simpa [Int.add_assoc] using hargs.ends
      · obtain ⟨t, ht⟩ := hm
        rcases List.append_eq_append_iff.1 ht with ⟨e, he, -⟩ | ⟨e, rfl, he⟩
        · exact hstays m ⟨e, he.symm⟩
        · simpa [Int.add_assoc] using hargs.stays e ⟨t, he.symm⟩

/-- Cells that leave as many parentheses open as there were, and close none that was open before. -/
structure Level (cells : List Cell) : Prop where
  ends : excess cells = 0
  stays : ∀ m, m <+: cells → 0 ≤ excess m

/-- A level stretch closes no parenthesis from outside. -/
theorem Level.closes_append {depth : Int} (hd : 1 ≤ depth) {a b : List Cell} (h : Level a) :
    Closes depth (a ++ b) ↔ Closes depth b := by
  rw [LogSweep.closes_append, h.ends, Int.add_zero]
  constructor
  · rintro (⟨args, k, rfl, hargs, -⟩ | ⟨-, hb⟩)
    · -- the parenthesis would be one that was open before
      have hclose := h.stays (args ++ [⟨Byte.closeParen, .code⟩]) (by simp)
      have hends := hargs.ends
      simp only [excess_append, excess_cons, excess_nil, turn_close] at hclose
      omega
    · exact hb
  · intro hb
    exact .inr ⟨fun m hm => by have := h.stays m hm; omega, hb⟩

/-- Two level stretches make a level one. -/
theorem Level.append {a b : List Cell} (ha : Level a) (hb : Level b) : Level (a ++ b) := by
  refine ⟨by rw [excess_append, ha.ends, hb.ends, Int.add_zero], fun m hm => ?_⟩
  obtain ⟨t, ht⟩ := hm
  rcases List.append_eq_append_iff.1 ht with ⟨e, he, -⟩ | ⟨e, rfl, he⟩
  · exact ha.stays m ⟨e, he.symm⟩
  · rw [excess_append, ha.ends, Int.zero_add]
    exact hb.stays e ⟨t, he.symm⟩

/-- The parentheses of a call are level: each closes one of their own. -/
theorem Call.Statement.level_group (s : Statement) : Level s.group := by
  have hsum : excess s.arguments = 0 := by
    have := s.balanced.ends
    omega
  refine ⟨by simp [Statement.group, hsum, turn_close]; rfl, fun m hm => ?_⟩
  cases m with
  | nil => exact Int.le_refl 0
  | cons c m =>
    rw [Statement.group, List.cons_append, List.cons_prefix_cons] at hm
    obtain ⟨rfl, hinner⟩ := hm
    rw [excess_cons]
    rcases List.prefix_concat_iff.1 hinner with rfl | hm
    · simp [hsum, turn_close]
      decide
    · have := s.balanced.stays m hm
      have hopen : turn ⟨Byte.openParen, .code⟩ = 1 := rfl
      omega

/-! ## Parentheses that nest -/

/-- The turn of a code cell, by the brackets that it opens and closes. -/
theorem turn_eq {c : Cell} (h : c.isCode = true) :
    turn c = if Bracket.opened? c.byte = some .paren then 1
      else if Bracket.closed? c.byte = some .paren then -1 else 0 := by
  simp [turn, h, Bracket.opened?_eq_paren_iff, Bracket.closed?_eq_paren_iff]

/-- The open parentheses of nested cells are those that are counted. -/
theorem count_paren_of_nest {open' opened : List Bracket} {cells : List Cell}
    (h : nest open' cells = some opened) :
    (opened.count .paren : Int) = open'.count .paren + excess cells := by
  fun_induction nest open' cells with
  | case1 => simp [Option.some.inj h]
  | case2 open' c cells hcode ih => simpa [turn, hcode] using ih h
  | case3 open' c cells hcode bracket hopen ih =>
    have hturn := turn_eq (c := c) (by simpa using hcode)
    have hclose : Bracket.closed? c.byte ≠ some .paren := by
      intro hparen
      rw [Bracket.closed?_eq_paren_iff.1 hparen] at hopen
      cases hopen
    rw [ih h, excess_cons, hturn, hopen, if_neg hclose]
    cases bracket with
    | paren =>
      rw [List.count_cons_self, if_pos rfl]
      omega
    | square | brace => simp
  | case4 c cells hcode bracket rest hopen hclose ih =>
    have hturn := turn_eq (c := c) (by simpa using hcode)
    rw [ih h, excess_cons, hturn, hopen, hclose]
    cases bracket with
    | paren =>
      rw [List.count_cons_self, if_neg (Option.some_ne_none _).symm, if_pos rfl]
      omega
    | square | brace => simp
  | case5 | case6 => cases h
  | case7 open' c cells hcode hopen hclose ih =>
    have hturn := turn_eq (c := c) (by simpa using hcode)
    simpa [hturn, hopen, hclose] using ih h

/-! ## Stretches that leave the brackets alone -/

/-- Cells that can be put in or taken out without any effect on the brackets around them. -/
structure Steady (cells : List Cell) : Prop where
  level : Level cells
  shift : ∀ open', cells.foldl Bracket.shift open' = open'

theorem Steady.nil : Steady [] :=
  ⟨⟨rfl, fun m hm => by rw [List.prefix_nil.1 hm]; exact Int.le_refl 0⟩, fun _ => rfl⟩

/-- Two stretches that leave the stack as it is do so together. -/
theorem Steady.append {a b : List Cell} (ha : Steady a) (hb : Steady b) : Steady (a ++ b) :=
  ⟨ha.level.append hb.level, fun open' => by rw [List.foldl_append, ha.shift, hb.shift]⟩

/-- A steady stretch leaves the stack as it is. -/
theorem Steady.stack_append {a b : List Cell} (hb : Steady b) : stack (a ++ b) = stack a := by
  rw [Block.stack_append, hb.shift]

/-- Bytes that neither open nor close a bracket. -/
def isInert (b : UInt8) : Bool :=
  (Bracket.opened? b).isNone && (Bracket.closed? b).isNone

/-- Code without brackets is steady. -/
theorem steady_codeCells {bytes : Bytes} (h : ∀ b ∈ bytes, isInert b) :
    Steady (codeCells bytes) := by
  induction bytes with
  | nil => exact .nil
  | cons b bytes ih =>
    have hb := h b (by simp)
    simp only [isInert, Bool.and_eq_true, Option.isNone_iff_eq_none] at hb
    have hturn : turn ⟨b, .code⟩ = 0 := by rw [turn_eq rfl, hb.1, hb.2]; rfl
    have hone : Steady (codeCells [b]) := by
      refine ⟨⟨by simp [hturn], fun m hm => ?_⟩, fun open' => ?_⟩
      · rcases List.prefix_cons_iff.1 hm with rfl | ⟨t, rfl, ht⟩
        · exact Int.le_refl 0
        · rw [List.prefix_nil.1 ht, excess_cons, hturn]
          exact Int.le_refl 0
      · simp [Bracket.shift, hb.1, hb.2]
    exact hone.append (ih fun x hx => h x (List.mem_cons_of_mem _ hx))

/-- White space is no bracket. -/
theorem isInert_of_isBlank {b : UInt8} (h : Byte.isBlank b) : isInert b := by
  simp only [Byte.isBlank, Bool.or_eq_true, beq_iff_eq] at h
  rcases h with (((rfl | rfl) | rfl) | rfl) | rfl <;> rfl

/-- Bytes of names and dots are no brackets. -/
theorem isInert_of_isDottedByte {b : UInt8} (h : isDottedByte b) : isInert b := by
  unfold isInert Bracket.opened? Bracket.closed?
  split
  · cases h
  · cases h
  · cases h
  · split
    · cases h
    · cases h
    · cases h
    · rfl

/-- What follows the call in its statement is steady. -/
theorem Call.Statement.steady_tail (s : Statement) : Steady (Statement.tailCells s.tail) := by
  cases htail : s.tail with
  | none => exact .nil
  | some bytes =>
    have hsemi : ∀ b ∈ [Byte.semicolon], isInert b := List.forall_mem_singleton.2 rfl
    refine .append (steady_codeCells fun b hb => ?_) (steady_codeCells hsemi)
    exact isInert_of_isBlank (isBlank_of_isHorizontal (s.isHorizontal bytes htail b hb))

/-- What stands in front of the arguments of a statement leaves the brackets alone. -/
theorem Call.Statement.steady_name {function : Bytes} (hf : Dotted function) (s : Statement) :
    Steady (codeCells function ++ codeCells s.blanks) :=
  (steady_codeCells fun _ hb => isInert_of_isDottedByte (hf.isDottedByte hb)).append
    (steady_codeCells fun b hb => isInert_of_isBlank (s.isBlank b hb))

/-- A statement leaves as many parentheses open as there were. -/
theorem Call.Statement.level_cells {function : Bytes} (hf : Dotted function) (s : Statement) :
    Level (s.cells function) := by
  rw [s.cells_eq]
  exact ((s.steady_name hf).level.append s.level_group).append s.steady_tail.level

/-- A statement whose arguments are well nested leaves the brackets alone. -/
theorem Call.Statement.steady {function : Bytes} (hf : Dotted function) (s : Statement)
    (hnest : nest [] s.group = some []) : Steady (s.cells function) := by
  have hgroup : Steady s.group :=
    ⟨s.level_group, fun open' => by simpa using foldl_shift_of_nest hnest open'⟩
  rw [s.cells_eq]
  exact ((s.steady_name hf).append hgroup).append s.steady_tail

end LogSweep
