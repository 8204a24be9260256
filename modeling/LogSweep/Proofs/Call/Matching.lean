import LogSweep.Proofs.Block.Remembered
import LogSweep.Proofs.Block.Travel
import LogSweep.Proofs.Call.Position
import LogSweep.Proofs.Text.LineIndex
import Mathlib.Order.Bounds.Defs

/-!
# Two ways to match a parenthesis

A call is cut out by counting parentheses from its opening one on, and what it lies in is told by
the cursor's stack of brackets of all shapes. Where the brackets of a text are well nested the two
agree: the stretch up to the closer that the stack calls for has all its brackets closed
(`exists_closer`), so it leaves the stack as it is and the count at one, and on the way there the
count is never lower (`settles_of_nest`).
-/

namespace LogSweep

open Lexical Block Call

/-! ## The count over nested cells -/

/-- The count of parentheses goes from one to one over cells that close what they open, and never
below. -/
theorem settles_of_nest {cells : List Cell} (h : nest [] cells = some []) :
    Settles 1 cells := by
  have hcount : ∀ {m opened}, nest [] m = some opened → (opened.count .paren : Int) = excess m :=
    fun hm => (count_paren_of_nest hm).trans (Int.zero_add _)
  refine ⟨?_, fun m hm => ?_⟩
  · rw [← hcount h]
    rfl
  · obtain ⟨rest, rfl⟩ := hm
    rw [nest_append] at h
    obtain ⟨opened, hopened, -⟩ := Option.bind_eq_some_iff.1 h
    rw [← hcount hopened]
    omega

/-- Only parentheses of code turn the count. -/
theorem turn_eq_zero {c : Cell} (hopen : c ≠ ⟨Byte.openParen, .code⟩)
    (hclose : c ≠ ⟨Byte.closeParen, .code⟩) : turn c = 0 := by
  obtain ⟨b, mark⟩ := c
  by_cases hcode : mark = .code
  · subst hcode
    simp only [ne_eq, Cell.mk.injEq, and_true] at hopen hclose
    simp [turn, hopen, hclose]
  · simp [turn, Cell.isCode, hcode]

/-- The count of parentheses is that of the opening ones less that of the closing ones. -/
theorem excess_eq_count (cells : List Cell) :
    excess cells = (cells.count ⟨Byte.openParen, .code⟩ : Int) -
      cells.count ⟨Byte.closeParen, .code⟩ := by
  have hne : (⟨Byte.openParen, .code⟩ : Cell) ≠ ⟨Byte.closeParen, .code⟩ := by decide
  induction cells with
  | nil => rfl
  | cons c cells ih =>
    rw [excess_cons, ih]
    by_cases hopen : c = ⟨Byte.openParen, .code⟩
    · have hturn : turn c = 1 := hopen ▸ rfl
      rw [hturn, hopen, List.count_cons_self, List.count_cons_of_ne hne]
      omega
    · by_cases hclose : c = ⟨Byte.closeParen, .code⟩
      · rw [hclose, turn_close, List.count_cons_self, List.count_cons_of_ne hne.symm]
        omega
      · rw [turn_eq_zero hopen hclose, List.count_cons_of_ne hopen, List.count_cons_of_ne hclose]
        omega

/-! ## Offsets of code -/

/-- There is code at an offset of a text, and it is the given byte. -/
def CodeAt (text : Bytes) (b : UInt8) (offset : Nat) : Prop :=
  regionAt? (regions text) offset = none ∧ text[offset]? = some b

instance (text : Bytes) (b : UInt8) : DecidablePred (CodeAt text b) := fun _ =>
  inferInstanceAs (Decidable (_ ∧ _))

/-- There is code at an offset when the cell there is code. -/
theorem codeAt_iff {text : Bytes} {b : UInt8} {offset : Nat} :
    CodeAt text b offset ↔ (scan text)[offset]? = some ⟨b, .code⟩ := by
  unfold CodeAt
  rw [← getElem?_scan_map_byte]
  cases hcell : (scan text)[offset]? with
  | none => simp
  | some cell =>
    rw [regionAt?_eq_none_iff_code hcell, Option.map_some, Option.some.injEq, Option.some.injEq]
    obtain ⟨x, mark⟩ := cell
    simp [and_comm]

/-! ## The brackets that a cursor holds -/

namespace Block

/-- The brackets that are open in front of an offset of a text, innermost first, as a cursor that is
advanced to the offset knows them. -/
def openersAt (keyword text : Bytes) (offset : Nat) : List Opener :=
  (Cursor.advance keyword offset {} (scan text)).1.openers

/-- The open brackets at an offset are those of a cursor behind the cells before it. -/
theorem openersAt_eq (keyword text : Bytes) (offset : Nat) :
    openersAt keyword text offset = (Cursor.past keyword ((scan text).take offset)).openers :=
  Cursor.openers_advance keyword offset {} (scan text)

/-- So they are at the end of a first stretch of cells. -/
theorem openersAt_length (keyword : Bytes) {text : Bytes} {a b : List Cell}
    (h : scan text = a ++ b) :
    openersAt keyword text a.length = (Cursor.past keyword a).openers := by
  rw [openersAt_eq, h, List.take_left]

/-- The cursor opens a parenthesis at one offset of a text and closes it at another. The opener is
the innermost one behind the first offset and in front of the second, and it is held in between and
nowhere else. -/
structure Pops (keyword text : Bytes) (opened closed : Nat) : Prop where
  opener : ∃ o, o.bracket = .paren ∧ o.offset = opened ∧
    openersAt keyword text (opened + 1) = o :: openersAt keyword text opened ∧
    openersAt keyword text closed = o :: openersAt keyword text opened ∧
    openersAt keyword text (closed + 1) = openersAt keyword text opened
  held : ∀ n, opened < n → ((∃ o ∈ openersAt keyword text n, o.offset = opened) ↔ n ≤ closed)

namespace Cursor

variable {keyword : Bytes} {c : Cursor} {o : Opener}

/-- Closing a bracket opens none. -/
theorem mem_openers_closing {bracket : Bracket} (h : o ∈ (c.closing bracket).openers) :
    o ∈ c.openers := by
  unfold closing at h
  split at h
  · exact h
  · next hdrop =>
    exact (List.dropWhile_sublist _).mem (hdrop ▸ List.mem_cons_of_mem _ h)

/-- A step opens nothing but the bracket in front of the cursor. -/
theorem mem_openers_step {cell : Cell} (h : o ∈ (c.step keyword cell).openers) :
    o ∈ c.openers ∨ o.offset = c.offset := by
  unfold step at h
  split at h
  · unfold bracketed at h
    split at h
    · rcases List.mem_cons.1 h with rfl | h
      · exact .inr rfl
      · exact .inl h
    · exact .inl (mem_openers_closing h)
    · exact .inl h
  · exact .inl h

/-- What is open behind cells was open in front of them, or it is opened later. -/
theorem mem_openers_foldl {cells : List Cell} (h : o ∈ (cells.foldl (step keyword) c).openers) :
    o ∈ c.openers ∨ c.offset ≤ o.offset := by
  induction cells generalizing c with
  | nil => exact .inl h
  | cons cell cells ih =>
    rcases ih h with hmem | hle
    · exact (mem_openers_step hmem).imp_right fun heq => Nat.le_of_eq heq.symm
    · rw [offset_step] at hle
      exact .inr (Nat.le_of_succ_le hle)

end Cursor

/-- Cells in parentheses. -/
def parenthesised (cells : List Cell) : List Cell :=
  ⟨Byte.openParen, .code⟩ :: cells ++ [⟨Byte.closeParen, .code⟩]

/-- The parentheses around a stretch count for two. -/
theorem length_append_parenthesised (pre mid : List Cell) :
    (pre ++ parenthesised mid).length = pre.length + 1 + mid.length + 1 := by
  simp only [parenthesised, List.length_append, List.length_cons, List.length_nil]
  omega

section
variable (keyword : Bytes) (pre : List Cell) {mid : List Cell}

/-- Behind an opening parenthesis and nested cells its opener is held, and below it is what was open
in front of it. -/
theorem openers_past_paren {open' : List Bracket} (h : nest [] mid = some open') :
    ∃ inner, inner.map (·.bracket) = open' ∧
      (Cursor.past keyword (pre ++ ⟨Byte.openParen, .code⟩ :: mid)).openers =
        inner ++ (Cursor.past keyword pre).opener keyword .paren ::
          (Cursor.past keyword pre).openers := by
  have hopened : ((Cursor.past keyword pre).step keyword ⟨Byte.openParen, .code⟩).openers =
      [] ++ (Cursor.past keyword pre).opener keyword .paren :: (Cursor.past keyword pre).openers :=
    Cursor.openers_step_opening keyword _ rfl rfl
  obtain ⟨inner, hopeners, hinner⟩ := Cursor.openers_foldl_of_nest h hopened rfl
  refine ⟨inner, hinner, ?_⟩
  rw [Cursor.past, List.foldl_append, List.foldl_cons]
  exact hopeners

/-- Where the nested cells close all that they open, the opener is the innermost one, and the closer
takes it away. -/
theorem openers_past_parenthesised (h : nest [] mid = some []) :
    (Cursor.past keyword (pre ++ ⟨Byte.openParen, .code⟩ :: mid)).openers =
        (Cursor.past keyword pre).opener keyword .paren :: (Cursor.past keyword pre).openers ∧
      (Cursor.past keyword (pre ++ parenthesised mid)).openers =
        (Cursor.past keyword pre).openers := by
  obtain ⟨inner, hinner, hopeners⟩ := openers_past_paren keyword pre h
  rw [List.map_eq_nil_iff.1 hinner, List.nil_append] at hopeners
  refine ⟨hopeners, ?_⟩
  rw [parenthesised, ← List.append_assoc, Cursor.past_snoc]
  exact (Cursor.step_closing keyword _ rfl rfl hopeners rfl).1

end

section
variable {keyword text : Bytes} {pre mid behind : List Cell}

/-- What is open further behind was open behind the first cells, or is opened behind them. -/
theorem mem_openersAt_behind (h : scan text = pre ++ behind) {n : Nat} (hn : pre.length ≤ n)
    {o : Opener} (ho : o ∈ openersAt keyword text n) :
    o ∈ (Cursor.past keyword pre).openers ∨ pre.length ≤ o.offset := by
  rw [openersAt_eq, h, List.take_append, List.take_of_length_le hn, Cursor.past,
    List.foldl_append] at ho
  rcases Cursor.mem_openers_foldl ho with hmem | hle
  · exact .inl hmem
  · rw [← Cursor.past, Cursor.offset_past] at hle
    exact .inr hle

/-- What is open behind a parenthesis and the first of the cells that it encloses. -/
theorem openersAt_inside (keyword : Bytes) (hscan : scan text = pre ++ parenthesised mid ++ behind)
    {m rest : List Cell} (hm : mid = m ++ rest) :
    openersAt keyword text (pre.length + 1 + m.length) =
      (Cursor.past keyword (pre ++ ⟨Byte.openParen, .code⟩ :: m)).openers := by
  have hcells : scan text = (pre ++ ⟨Byte.openParen, .code⟩ :: m) ++
      (rest ++ ⟨Byte.closeParen, .code⟩ :: behind) := by
    rw [hscan, parenthesised, hm]
    simp
  rw [← openersAt_length keyword hcells, List.length_append, List.length_cons, Nat.add_assoc,
    Nat.add_comm 1]

/-- The opener of a parenthesis is held up to the closer behind the nested cells that follow it. It
is known by its offset: what was opened before lies further in front, and what is opened behind the
closer lies further behind. -/
theorem held_iff (hscan : scan text = pre ++ parenthesised mid ++ behind)
    (hmid : nest [] mid = some []) {n : Nat} (hn : pre.length < n) :
    (∃ o ∈ openersAt keyword text n, o.offset = pre.length) ↔ n ≤ pre.length + 1 + mid.length := by
  constructor
  · rintro ⟨o, ho, hoffset⟩
    by_contra hgt
    have hlength := length_append_parenthesised pre mid
    rcases mem_openersAt_behind hscan (by omega) ho with hmem | hle
    · rw [(openers_past_parenthesised keyword pre hmid).2] at hmem
      have := Cursor.offset_lt_of_mem_openers hmem
      omega
    · omega
  · intro hle
    obtain ⟨k, rfl⟩ := Nat.exists_eq_add_of_le (Nat.succ_le_of_lt hn)
    have hsplit := (List.take_append_drop k mid).symm
    have hk : (mid.take k).length = k := List.length_take_of_le (by omega)
    rw [hsplit, nest_append] at hmid
    obtain ⟨open', hopen, -⟩ := Option.bind_eq_some_iff.1 hmid
    obtain ⟨inner, -, hopeners⟩ := openers_past_paren keyword pre hopen
    have hat := openersAt_inside keyword hscan hsplit
    rw [hk, hopeners] at hat
    refine ⟨(Cursor.past keyword pre).opener keyword .paren, ?_, Cursor.offset_past keyword pre⟩
    rw [hat]
    exact List.mem_append_right _ List.mem_cons_self

/-- The cursor closes a parenthesis behind the nested cells that follow it. -/
theorem pops_of_nest (hscan : scan text = pre ++ parenthesised mid ++ behind)
    (hmid : nest [] mid = some []) :
    Pops keyword text pre.length (pre.length + 1 + mid.length) := by
  obtain ⟨hinner, houter⟩ := openers_past_parenthesised keyword pre hmid
  have hopened := (openers_past_parenthesised keyword pre (rfl : nest [] [] = some [])).1
  have hfront : openersAt keyword text pre.length = (Cursor.past keyword pre).openers :=
    openersAt_length keyword (by rw [hscan, List.append_assoc])
  refine ⟨⟨(Cursor.past keyword pre).opener keyword .paren, rfl, Cursor.offset_past keyword pre,
    ?_, ?_, ?_⟩, fun n hn => held_iff hscan hmid hn⟩
  · rw [hfront, ← hopened]
    exact openersAt_inside keyword hscan (List.nil_append mid).symm
  · rw [openersAt_inside keyword hscan (List.append_nil mid).symm, hinner, hfront]
  · rw [← length_append_parenthesised, openersAt_length keyword hscan, houter, hfront]

end

end Block

/-! ## The count and the stack -/

/-- In a stretch of a text there are as many opening as closing parentheses in code. -/
def EqualParens (text : Bytes) (first last : Nat) : Prop :=
  ((Finset.Icc first last).filter (CodeAt text Byte.openParen)).card =
    ((Finset.Icc first last).filter (CodeAt text Byte.closeParen)).card

/-- As many parentheses are opened as closed exactly when the excess over the cells is nothing. -/
theorem equalParens_iff {text : Bytes} {pre cells : List Cell} (hscan : scan text = pre ++ cells)
    (n : Nat) : EqualParens text pre.length (pre.length + n) ↔ excess (cells.take (n + 1)) = 0 := by
  have hcard : ∀ b, ((Finset.Icc pre.length (pre.length + n)).filter (CodeAt text b)).card =
      (cells.take (n + 1)).count ⟨b, .code⟩ := by
    intro b
    have hcount := card_positions (scan text) ⟨b, .code⟩ pre.length (n + 1)
    rw [hscan, List.drop_left, ← hscan, ← Nat.add_assoc, Finset.Ico_add_one_right_eq_Icc] at hcount
    rw [← hcount]
    exact congrArg Finset.card (Finset.filter_congr fun i _ => codeAt_iff)
  rw [EqualParens, hcard, hcard, excess_eq_count]
  omega

section
variable {text : Bytes} {pre mid behind : List Cell}

/-- In front of the closer of nested cells there are more opening parentheses than closing ones, and
with it there are as many. -/
theorem isLeast_equalParens (hscan : scan text = pre ++ parenthesised mid ++ behind)
    (hmid : nest [] mid = some []) :
    IsLeast {n | pre.length < n ∧ EqualParens text pre.length n} (pre.length + 1 + mid.length) := by
  rw [List.append_assoc] at hscan
  have hsettles := settles_of_nest hmid
  have hopen : turn ⟨Byte.openParen, .code⟩ = 1 := rfl
  constructor
  · have hlength : 1 + mid.length + 1 = (parenthesised mid).length := by
      have := length_append_parenthesised [] mid
      simpa using this.symm
    refine ⟨by omega, ?_⟩
    rw [Nat.add_assoc, equalParens_iff hscan, hlength, List.take_left, parenthesised, excess_append,
      excess_cons, excess_cons, excess_nil, hopen, turn_close]
    have := hsettles.ends
    omega
  · rintro n ⟨hn, hequal⟩
    by_contra hlt
    obtain ⟨k, rfl⟩ := Nat.exists_eq_add_of_lt hn
    have hfront : (parenthesised mid ++ behind).take (k + 1 + 1) =
        ⟨Byte.openParen, .code⟩ :: mid.take (k + 1) := by
      rw [parenthesised, List.cons_append, List.cons_append, List.take_succ_cons, List.append_assoc,
        List.take_append_of_le_length (by omega)]
    rw [Nat.add_assoc, equalParens_iff hscan, hfront, excess_cons, hopen] at hequal
    have := hsettles.stays _ (List.take_prefix (k + 1) mid)
    omega

/-- Counting from the parenthesis on leads to the closer of the nested cells behind it. -/
theorem closingParen?_of_nest (hscan : scan text = pre ++ parenthesised mid ++ behind)
    (hmid : nest [] mid = some []) :
    closingParen? 0 pre.length ((scan text).drop pre.length) =
      some (pre.length + 1 + mid.length, (scan text).drop (pre.length + 1 + mid.length + 1)) := by
  have hbehind : (scan text).drop (pre.length + 1 + mid.length + 1) = behind := by
    rw [hscan, ← length_append_parenthesised, List.drop_left]
  have hahead : (scan text).drop pre.length = ⟨Byte.openParen, .code⟩ ::
      (mid ++ ⟨Byte.closeParen, .code⟩ :: behind) := by
    rw [hscan, List.append_assoc, List.drop_left, parenthesised]
    simp
  rw [hbehind, hahead, closingParen?_cons, if_neg (by decide)]
  exact (closingParen?_eq_some_iff (by decide)).2 ⟨mid, rfl, rfl, settles_of_nest hmid⟩

end

/-- A parenthesis of a text whose brackets are well nested and closed has one closer: counting
parentheses from it on finds it, the cursor takes the opener off its stack there, and it is the
first place up to which there are as many closing as opening parentheses. -/
theorem closingParen?_pops (keyword text : Bytes) (hnest : WellNested text) (opened : Nat)
    (hopen : CodeAt text Byte.openParen opened) :
    ∃ closed,
      closingParen? 0 opened ((scan text).drop opened) =
        some (closed, (scan text).drop (closed + 1)) ∧
      Pops keyword text opened closed ∧
      IsLeast {n | opened < n ∧ EqualParens text opened n} closed := by
  obtain ⟨hscan, hlength⟩ := scan_split (codeAt_iff.1 hopen)
  generalize (scan text).take opened = pre at hscan hlength
  generalize (scan text).drop (opened + 1) = rest at hscan
  subst hlength
  -- the brackets of the cells behind the parenthesis close it
  rw [WellNested, hscan, nest_append] at hnest
  obtain ⟨open', -, hrest⟩ := Option.bind_eq_some_iff.1 hnest
  have hrest : nest ([] ++ .paren :: open') rest = some [] := hrest
  obtain ⟨mid, c, behind, rfl, hcode, hclose, hmid⟩ := exists_closer hrest
  obtain rfl : c = ⟨Byte.closeParen, .code⟩ := by
    obtain ⟨b, mark⟩ := c
    rw [Cell.mk.injEq]
    exact ⟨Bracket.closed?_eq_paren_iff.1 hclose, beq_iff_eq.1 hcode⟩
  have hcells : scan text = pre ++ parenthesised mid ++ behind := by
    rw [hscan, parenthesised]
    simp
  exact ⟨_, closingParen?_of_nest hcells hmid, pops_of_nest hcells hmid,
    isLeast_equalParens hcells hmid⟩

/-- Brackets of all shapes inside the parenthesis, and closing ones that are not code. -/
theorem closingParen?_pops_mixed :
    let text := Bytes.ofString "f([(a)],/*)*/')',{})"
    WellNested text ∧ CodeAt text Byte.openParen 1 ∧
    closingParen? 0 1 ((scan text).drop 1) = some (19, []) ∧
    Pops (.ofString "catch") text 1 19 ∧ IsLeast {n | 1 < n ∧ EqualParens text 1 n} 19 := by
  intro text
  have hnest : WellNested text := by decide +kernel
  have hopen : CodeAt text Byte.openParen 1 := by decide +kernel
  have hcloses : closingParen? 0 1 ((scan text).drop 1) = some (19, []) := by decide +kernel
  obtain ⟨closed, hclosing, hpops, hleast⟩ :=
    closingParen?_pops (.ofString "catch") text hnest 1 hopen
  obtain rfl : closed = 19 := by
    rw [hcloses, Option.some.injEq, Prod.mk.injEq] at hclosing
    exact hclosing.1.symm
  exact ⟨hnest, hopen, hcloses, hpops, hleast⟩

end LogSweep
