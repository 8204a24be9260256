import LogSweep.Proofs.Block.Nesting
import LogSweep.Proofs.Text.Names
import Mathlib.Data.List.TakeWhile

/-!
# Looking back for a handler

The cursor learns of handlers on its way to a place. The same handler is found by walking back from
the place: among the braces that are not closed on the way, the first one that a handler's keyword
introduces (`lookBack?`). Walking back counts the brackets of one shape only, where the cursor keeps
a stack of all shapes. Both come to the same where brackets are well nested, since a stretch whose
brackets are all closed leaves the count and the stack as they are (`unclosed_append`,
`Cursor.openers_foldl_of_nest`).
-/

namespace LogSweep.Block

open Lexical

/-! ## Walking back -/

/-- The brackets of a shape that are opened and not closed, met by walking back over cells, nearest
first; `depth` of them are yet to be skipped. Each comes with the cells behind it, back to where the
walk began, and with those before it, nearest first. -/
def unclosed (bracket : Bracket) (depth : Nat) (behind : List Cell) :
    List Cell → List (List Cell × List Cell)
  | [] => []
  | c :: before =>
    if c.isCode && Bracket.closed? c.byte == some bracket then
      unclosed bracket (depth + 1) (c :: behind) before
    else if c.isCode && Bracket.opened? c.byte == some bracket then
      if depth = 0 then (behind, before) :: unclosed bracket 0 (c :: behind) before
      else unclosed bracket (depth - 1) (c :: behind) before
    else unclosed bracket depth (c :: behind) before

/-- Whether the last significant one of the cells, nearest first, ends the keyword as a word. -/
def endsKeyword (keyword : Bytes) (cells : List Cell) : Bool :=
  let bytes := (cells.dropWhile (!·.isSignificant)).map (·.byte)
  keyword.reverse.isPrefixOf bytes && !(bytes.drop keyword.length).head?.any Byte.isName

/-- The longest run of name bytes that cells begin with. -/
def leadingName : List Cell → Bytes
  | [] => []
  | c :: cells => if Byte.isName c.byte then c.byte :: leadingName cells else []

/-- The parameter in a list of parameters: the longest run of name bytes from the first significant
cell on, unless there is none or it begins with a digit. -/
def parameter? : List Cell → Option Bytes
  | [] => none
  | c :: cells =>
    if !c.isSignificant then parameter? cells
    else if Byte.isName c.byte && !Byte.isDigit c.byte then some (c.byte :: leadingName cells)
    else none

/-- The handler that a brace behind the cells, nearest first, begins: they end with the keyword, or
with a closing parenthesis and the one that it matches comes behind the keyword. -/
def headerBack? (keyword : Bytes) (cells : List Cell) : Option Handler :=
  match cells.dropWhile (!·.isSignificant) with
  | [] => none
  | c :: before =>
    if c.byte == Byte.closeParen then
      match unclosed .paren 0 [] before with
      | [] => none
      | (listed, front) :: _ =>
        if endsKeyword keyword front then some ⟨cells.length, parameter? listed⟩ else none
    else if endsKeyword keyword cells then some ⟨cells.length, none⟩
    else none

/-- The handler around an offset of a text, found by walking back from there: the first brace that
is not closed on the way and begins a handler. -/
def lookBack? (keyword text : Bytes) (offset : Nat) : Option Handler :=
  (unclosed .brace 0 [] ((scan text).take offset).reverse).findSome? fun brace =>
    headerBack? keyword brace.2

/-! ## The walk over nested cells -/

/-- What opens a bracket closes none. -/
theorem Bracket.closed?_eq_none {b : UInt8} {bracket : Bracket} (h : opened? b = some bracket) :
    closed? b = none := by
  unfold opened? at h
  split at h
  · rfl
  · rfl
  · rfl
  · cases h

/-- What closes a bracket opens none. -/
theorem Bracket.opened?_eq_none {b : UInt8} {bracket : Bracket} (h : closed? b = some bracket) :
    opened? b = none := by
  cases hopen : opened? b with
  | none => rfl
  | some _ =>
    rw [closed?_eq_none hopen] at h
    cases h

/-- What a cell can do to the open brackets, innermost first, where brackets are well nested. -/
inductive Shifts (c : Cell) : List Bracket → List Bracket → Prop
  | passes {open' : List Bracket} (hopen : c.isCode = true → Bracket.opened? c.byte = none)
      (hclose : c.isCode = true → Bracket.closed? c.byte = none) : Shifts c open' open'
  | opens {open' : List Bracket} {bracket : Bracket} (hcode : c.isCode = true)
      (hopen : Bracket.opened? c.byte = some bracket) : Shifts c open' (bracket :: open')
  | closes {open' : List Bracket} {bracket : Bracket} (hcode : c.isCode = true)
      (hclose : Bracket.closed? c.byte = some bracket) : Shifts c (bracket :: open') open'

/-- Brackets are well nested when the first cell shifts the open ones and the rest is well nested
from there on. -/
theorem nest_cons_iff {open' opened : List Bracket} {c : Cell} {cells : List Cell} :
    nest open' (c :: cells) = some opened ↔
      ∃ mid, Shifts c open' mid ∧ nest mid cells = some opened := by
  constructor
  · intro h
    unfold nest at h
    split at h
    · next hcode =>
      have hcode : c.isCode = false := by simpa using hcode
      exact ⟨open', .passes (by simp [hcode]) (by simp [hcode]), h⟩
    · next hcode =>
      have hcode : c.isCode = true := by simpa using hcode
      split at h
      · next hopen => exact ⟨_, .opens hcode hopen, h⟩
      · next hopen hclose =>
        split at h
        · next heq => exact ⟨_, heq ▸ .closes hcode hclose, h⟩
        · cases h
      · cases h
      · next hopen hclose => exact ⟨_, .passes (fun _ => hopen) (fun _ => hclose), h⟩
  · rintro ⟨mid, hshift, h⟩
    cases hshift with
    | passes hopen hclose =>
      cases hcode : c.isCode with
      | false => simpa [nest, hcode] using h
      | true => simpa [nest, hcode, hopen hcode, hclose hcode] using h
    | opens hcode hopen => simpa [nest, hcode, hopen] using h
    | closes hcode hclose =>
      simpa [nest, hcode, hclose, Bracket.opened?_eq_none hclose] using h

section
variable {bracket : Bracket} {c : Cell} {depth : Nat} {behind before : List Cell}

/-- Walking back over a cell that is no bracket of the shape leaves the count as it is. -/
theorem unclosed_pass (hopen : c.isCode = true → Bracket.opened? c.byte ≠ some bracket)
    (hclose : c.isCode = true → Bracket.closed? c.byte ≠ some bracket) :
    unclosed bracket depth behind (c :: before) =
      unclosed bracket depth (c :: behind) before := by
  rw [unclosed, if_neg (by simpa using hclose), if_neg (by simpa using hopen)]

/-- Walking back over a closing bracket, one more opening one is to be skipped. -/
theorem unclosed_close (hcode : c.isCode = true) (hclose : Bracket.closed? c.byte = some bracket) :
    unclosed bracket depth behind (c :: before) =
      unclosed bracket (depth + 1) (c :: behind) before := by
  rw [unclosed, if_pos (by simp [hcode, hclose])]

/-- Walking back over an opening bracket, it is met when none is to be skipped. -/
theorem unclosed_open (hcode : c.isCode = true) (hopen : Bracket.opened? c.byte = some bracket) :
    unclosed bracket depth behind (c :: before) =
      if depth = 0 then (behind, before) :: unclosed bracket 0 (c :: behind) before
      else unclosed bracket (depth - 1) (c :: behind) before := by
  rw [unclosed, if_neg (by simp [Bracket.closed?_eq_none hopen]), if_pos (by simp [hcode, hopen])]

/-- One step back over a cell of nested ones. -/
theorem unclosed_shift {open' opened : List Bracket} (h : Shifts c open' opened) :
    unclosed bracket (depth + opened.count bracket) behind (c :: before) =
      unclosed bracket (depth + open'.count bracket) (c :: behind) before := by
  cases h with
  | passes hopen hclose =>
    exact unclosed_pass (fun hcode => by simp [hopen hcode]) (fun hcode => by simp [hclose hcode])
  | @opens _ shape hcode hopen =>
    by_cases hshape : shape = bracket
    · subst hshape
      rw [List.count_cons_self, ← Nat.add_assoc, unclosed_open hcode hopen,
        if_neg (Nat.succ_ne_zero _)]
      rfl
    · rw [List.count_cons_of_ne hshape]
      exact unclosed_pass (fun _ => by simpa [hopen] using hshape)
        (fun _ => by simp [Bracket.closed?_eq_none hopen])
  | @closes _ shape hcode hclose =>
    by_cases hshape : shape = bracket
    · subst hshape
      rw [List.count_cons_self, unclosed_close hcode hclose]
      rfl
    · rw [List.count_cons_of_ne hshape]
      exact unclosed_pass (fun _ => by simp [Bracket.opened?_eq_none hclose])
        (fun _ => by simpa [hclose] using hshape)

end

/-- Walking back over nested cells counts the brackets that are open behind them off against those
that are open in front of them. The induction is on the cells from left to right, so the walk comes
to the first cell last. -/
theorem unclosed_append {open' opened : List Bracket} {cells : List Cell}
    (h : nest open' cells = some opened) (bracket : Bracket) (depth : Nat)
    (behind before : List Cell) :
    unclosed bracket (depth + opened.count bracket) behind (cells.reverse ++ before) =
      unclosed bracket (depth + open'.count bracket) (cells ++ behind) before := by
  induction cells generalizing open' before with
  | nil =>
    rw [Option.some.inj h]
    rfl
  | cons c cells ih =>
    obtain ⟨mid, hshift, hcells⟩ := nest_cons_iff.1 h
    rw [List.reverse_cons, List.append_assoc, ih hcells, List.singleton_append,
      unclosed_shift hshift]
    rfl

/-- The bracket opened last among those that are still open: behind it all brackets are closed. The
induction is on the length of the cells; where they end with a closer, the search goes on in front
of the bracket that it closes. -/
theorem exists_opener {cells : List Cell} {bracket : Bracket} {open' : List Bracket}
    (h : nest [] cells = some (bracket :: open')) :
    ∃ a c b, cells = a ++ c :: b ∧ c.isCode = true ∧ Bracket.opened? c.byte = some bracket ∧
      nest [] a = some open' ∧ nest [] b = some [] := by
  induction hn : cells.length using Nat.strongRecOn generalizing cells bracket open' with
  | ind n ih =>
  subst hn
  rcases List.eq_nil_or_concat cells with rfl | ⟨init, x, rfl⟩
  · cases h
  rw [List.concat_eq_append] at h ih ⊢
  rw [nest_append] at h
  obtain ⟨mid, hmid, hx⟩ := Option.bind_eq_some_iff.1 h
  obtain ⟨last, hshift, hlast⟩ := nest_cons_iff.1 hx
  cases Option.some.inj hlast
  cases hshift with
  | passes hopen hclose =>
    obtain ⟨a, c, b, rfl, hcode, hc, ha, hb⟩ := ih init.length (by simp) hmid rfl
    refine ⟨a, c, b ++ [x], by simp, hcode, hc, ha, ?_⟩
    rw [nest_append, hb]
    exact nest_cons_iff.2 ⟨[], .passes hopen hclose, rfl⟩
  | opens hcode hopen => exact ⟨init, x, [], rfl, hcode, hopen, hmid, rfl⟩
  | @closes _ shape hcode hclose =>
    obtain ⟨a, c, b, rfl, hcodeC, hc, ha, hb⟩ := ih init.length (by simp) hmid rfl
    obtain ⟨a', c', b', rfl, hcode', hc', ha', hb'⟩ := ih a.length (by simp) ha rfl
    refine ⟨a', c', b' ++ c :: (b ++ [x]), by simp, hcode', hc', ha', ?_⟩
    have hpair : nest [shape] (b ++ [x]) = some [] := by
      have hinside : nest [shape] b = some [shape] := nest_below hb [shape]
      rw [nest_append, hinside]
      exact nest_cons_iff.2 ⟨[], .closes hcode hclose, rfl⟩
    rw [nest_append, hb']
    exact nest_cons_iff.2 ⟨[shape], .opens hcodeC hc, hpair⟩

/-- A bracket that is open in front of cells which close everything is closed by one of them, and up
to there the cells close just what was opened inside. The induction is on the cells; `inner` are the
brackets opened since. -/
theorem exists_closer {inner open' : List Bracket} {bracket : Bracket} {cells : List Cell}
    (h : nest (inner ++ bracket :: open') cells = some []) :
    ∃ mid c behind, cells = mid ++ c :: behind ∧ c.isCode = true ∧
      Bracket.closed? c.byte = some bracket ∧ nest inner mid = some [] := by
  induction cells generalizing inner with
  | nil => simp [nest] at h
  | cons x cells ih =>
    obtain ⟨next, hshift, hcells⟩ := nest_cons_iff.1 h
    -- in front of `x` the brackets `inner` are open, behind it those that `x` leaves
    have hmore : ∀ {inner'}, Shifts x inner inner' → next = inner' ++ bracket :: open' →
        ∃ mid c behind, x :: cells = mid ++ c :: behind ∧ c.isCode = true ∧
          Bracket.closed? c.byte = some bracket ∧ nest inner mid = some [] := by
      rintro inner' hx rfl
      obtain ⟨mid, c, behind, rfl, hcode, hclose, hmid⟩ := ih hcells
      exact ⟨x :: mid, c, behind, rfl, hcode, hclose, nest_cons_iff.2 ⟨inner', hx, hmid⟩⟩
    generalize hstack : inner ++ bracket :: open' = stack at hshift
    cases hshift with
    | passes hopen hclose => exact hmore (.passes hopen hclose) hstack.symm
    | opens hcode hopen =>
      rw [← hstack] at hmore
      exact hmore (.opens hcode hopen) rfl
    | closes hcode hclose =>
      cases inner with
      | nil =>
        obtain ⟨rfl, -⟩ := List.cons.inj hstack
        exact ⟨[], x, cells, rfl, hcode, hclose, rfl⟩
      | cons shape inner =>
        obtain ⟨rfl, rfl⟩ := List.cons.inj hstack
        exact hmore (.closes hcode hclose) rfl

/-! ## What the cursor keeps of nested cells -/

namespace Cursor

variable (keyword : Bytes) (c : Cursor) {cell : Cell}

/-- Brackets of code are significant: they are no white space. -/
theorem significant_of_bracket {bracket : Bracket} (hcode : cell.isCode = true)
    (h : Bracket.opened? cell.byte = some bracket ∨ Bracket.closed? cell.byte = some bracket) :
    cell.isSignificant = true := by
  cases hblank : Byte.isBlank cell.byte with
  | false => simp [Cell.isSignificant, hcode, hblank]
  | true =>
    obtain ⟨hopen, hclose⟩ := Bracket.none_of_isBlank hblank
    simp [hopen, hclose] at h

/-- What the cursor keeps of a bracket that is opened in front of it. -/
def opener (bracket : Bracket) : Opener :=
  ⟨bracket, c.offset, c.lastCode, if bracket == .brace then c.header? keyword else none⟩

/-- An opening bracket is put on top of the open ones. -/
theorem openers_step_opening {bracket : Bracket} (hcode : cell.isCode = true)
    (hopen : Bracket.opened? cell.byte = some bracket) :
    (c.step keyword cell).openers = c.opener keyword bracket :: c.openers := by
  rw [step, if_pos (significant_of_bracket hcode (.inl hopen)), bracketed, hopen]
  rfl

/-- A closing bracket of the right shape takes the top of the open ones away; a parenthesis leaves
the group that it closed. -/
theorem step_closing {bracket : Bracket} {o : Opener} {openers : List Opener}
    (hcode : cell.isCode = true) (hclose : Bracket.closed? cell.byte = some bracket)
    (hopeners : c.openers = o :: openers) (ho : o.bracket = bracket) :
    (c.step keyword cell).openers = openers ∧
      (c.step keyword cell).lastGroup =
        if bracket == .paren then some ⟨o.offset, c.offset, o.previous⟩ else c.lastGroup := by
  have hdrop : c.openers.dropWhile (·.bracket != bracket) = o :: openers := by
    rw [hopeners, List.dropWhile_cons_of_neg (by simp [ho])]
  rw [step, if_pos (significant_of_bracket hcode (.inr hclose)), bracketed,
    Bracket.opened?_eq_none hclose, hclose]
  simp only [closing, hdrop]
  exact ⟨rfl, rfl⟩

/-- A cell that is no bracket of code leaves the open brackets and the last group as they are. -/
theorem step_passing (hopen : cell.isSignificant = true → Bracket.opened? cell.byte = none)
    (hclose : cell.isSignificant = true → Bracket.closed? cell.byte = none) :
    (c.step keyword cell).openers = c.openers ∧
      (c.step keyword cell).lastGroup = c.lastGroup := by
  unfold step
  split
  · next hsig =>
    rw [bracketed, hopen hsig, hclose hsig]
    exact ⟨rfl, rfl⟩
  · exact ⟨rfl, rfl⟩

variable {keyword c}

/-- Cells that are not significant change neither the open brackets nor the last group. -/
theorem foldl_of_not_significant {g : List Cell} (hg : ∀ y ∈ g, y.isSignificant = false) :
    (g.foldl (step keyword) c).openers = c.openers ∧
      (g.foldl (step keyword) c).lastGroup = c.lastGroup := by
  induction g generalizing c with
  | nil => exact ⟨rfl, rfl⟩
  | cons y g ih =>
    obtain ⟨hy, hg⟩ := List.forall_mem_cons.1 hg
    obtain ⟨hopeners, hgroup⟩ := @step_passing keyword c y (by simp [hy]) (by simp [hy])
    obtain ⟨hopeners', hgroup'⟩ := @ih (c.step keyword y) hg
    exact ⟨hopeners'.trans hopeners, hgroup'.trans hgroup⟩

/-- Nested cells reach the open brackets that they close, and none below. -/
theorem openers_foldl_of_nest {open' opened : List Bracket} {cells : List Cell}
    (h : nest open' cells = some opened) {inner below : List Opener}
    (hopeners : c.openers = inner ++ below) (hinner : inner.map (·.bracket) = open') :
    ∃ inner', (cells.foldl (step keyword) c).openers = inner' ++ below ∧
      inner'.map (·.bracket) = opened := by
  induction cells generalizing c open' inner with
  | nil => exact ⟨inner, hopeners, hinner.trans (Option.some.inj h)⟩
  | cons x cells ih =>
    obtain ⟨mid, hshift, hcells⟩ := nest_cons_iff.1 h
    rw [List.foldl_cons]
    cases hshift with
    | passes hopen hclose =>
      have hcode : x.isSignificant = true → x.isCode = true := fun hx =>
        (Bool.and_eq_true_iff.1 hx).1
      obtain ⟨hkept, -⟩ := step_passing keyword c (fun hx => hopen (hcode hx))
        (fun hx => hclose (hcode hx))
      exact ih hcells (hkept.trans hopeners) hinner
    | @opens _ shape hcode hopen =>
      have hmore : (c.step keyword x).openers = c.opener keyword shape :: inner ++ below := by
        rw [openers_step_opening keyword c hcode hopen, hopeners]
        rfl
      exact ih hcells hmore (congrArg (shape :: ·) hinner)
    | @closes _ shape hcode hclose =>
      obtain ⟨o, inner, rfl, ho, hrest⟩ := List.map_eq_cons_iff.1 hinner
      obtain ⟨hfewer, -⟩ := step_closing keyword c hcode hclose hopeners ho
      exact ih hcells hfewer hrest

/-- Cells whose brackets are all closed leave the open brackets as they were. -/
theorem openers_foldl_of_closed {cells : List Cell} (h : nest [] cells = some []) :
    (cells.foldl (step keyword) c).openers = c.openers := by
  obtain ⟨inner, hopeners, hinner⟩ :=
    @openers_foldl_of_nest keyword c [] [] cells h [] c.openers rfl rfl
  rw [hopeners, List.map_eq_nil_iff.1 hinner]
  rfl

/-- The innermost open bracket behind nested cells is the one opened last, and below it are those
that were open in front of it. -/
theorem openers_past {cells : List Cell} {bracket : Bracket} {open' : List Bracket}
    (h : nest [] cells = some (bracket :: open')) :
    ∃ a x b, cells = a ++ x :: b ∧ x.isCode = true ∧ Bracket.opened? x.byte = some bracket ∧
      nest [] a = some open' ∧ nest [] b = some [] ∧
      (past keyword cells).openers =
        (past keyword a).opener keyword bracket :: (past keyword a).openers := by
  obtain ⟨a, x, b, rfl, hcode, hopen, ha, hb⟩ := exists_opener h
  refine ⟨a, x, b, rfl, hcode, hopen, ha, hb, ?_⟩
  rw [past, List.foldl_append, List.foldl_cons, openers_foldl_of_closed hb]
  exact openers_step_opening keyword _ hcode hopen

/-- Behind a parenthesis that is closed the cursor keeps its group. -/
theorem lastGroup_past {a g : List Cell} {x : Cell} {open' : List Bracket} (hcode : x.isCode = true)
    (hclose : Bracket.closed? x.byte = some .paren) (ha : nest [] a = some (.paren :: open'))
    (hg : ∀ y ∈ g, y.isSignificant = false) :
    ∃ front p listed, a = front ++ p :: listed ∧ p.isCode = true ∧
      Bracket.opened? p.byte = some .paren ∧ nest [] listed = some [] ∧
      (past keyword (a ++ x :: g)).lastGroup =
        some ⟨front.length, a.length, (past keyword front).lastCode⟩ := by
  obtain ⟨front, p, listed, hsplit, hp, hopen, -, hlisted, hopeners⟩ := openers_past ha
  refine ⟨front, p, listed, hsplit, hp, hopen, hlisted, ?_⟩
  obtain ⟨-, hgroup⟩ := step_closing keyword _ hcode hclose hopeners rfl
  rw [past, List.foldl_append, List.foldl_cons, (foldl_of_not_significant hg).2]
  refine hgroup.trans ?_
  rw [offset_past]
  simp [opener]

end Cursor

/-! ## Headers -/

/-- A word ends here when the bytes, nearest first, begin with it and no byte of a name comes next.
-/
theorem endsWithWord_eq (word : Bytes) (cells : List Cell) :
    endsWithWord word cells = (word.isPrefixOf (cells.map (·.byte)) &&
      !((cells.map (·.byte)).drop word.length).head?.any Byte.isName) := by
  fun_induction endsWithWord word cells with
  | case1 => rfl
  | case2 => rfl
  | case3 => rfl
  | case4 b word c cells ih =>
    rw [ih, List.map_cons, List.isPrefixOf_cons_cons, Bool.and_assoc]
    rfl

/-- Walking back over blanks and comments ends at the last significant cell. -/
theorem dropWhile_reverse {a g : List Cell} {x : Cell} (hx : x.isSignificant = true)
    (hg : ∀ y ∈ g, y.isSignificant = false) :
    (a ++ x :: g).reverse.dropWhile (!·.isSignificant) = x :: a.reverse := by
  rw [List.reverse_append, List.reverse_cons, List.append_assoc,
    List.dropWhile_append_of_pos (by simpa using hg)]
  simp [hx]

/-- Walking back over blanks and comments only leaves nothing. -/
theorem dropWhile_reverse_none {g : List Cell} (hg : ∀ y ∈ g, y.isSignificant = false) :
    g.reverse.dropWhile (!·.isSignificant) = [] :=
  List.dropWhile_eq_nil_iff.2 (by simpa using hg)

/-- The word that the cursor compares is the one that cells end with. -/
theorem endsKeyword_reverse (keyword : Bytes) {a g : List Cell} {x : Cell}
    (hx : x.isSignificant = true) (hg : ∀ y ∈ g, y.isSignificant = false) :
    endsKeyword keyword (a ++ x :: g).reverse = endsWithWord keyword.reverse (x :: a.reverse) := by
  rw [endsKeyword, dropWhile_reverse hx hg, endsWithWord_eq, List.length_reverse]

/-- Where nothing is significant no keyword ends. -/
theorem endsKeyword_reverse_none {keyword : Bytes} (hne : keyword.isEmpty = false) {g : List Cell}
    (hg : ∀ y ∈ g, y.isSignificant = false) : endsKeyword keyword g.reverse = false := by
  rw [endsKeyword, dropWhile_reverse_none hg]
  cases keyword with
  | nil => cases hne
  | cons b keyword => simp

/-- Walking back from a closing parenthesis leads to the one that it matches. -/
theorem unclosed_paren {front listed : List Cell} {p : Cell} (hp : p.isCode = true)
    (hopen : Bracket.opened? p.byte = some .paren) (hlisted : nest [] listed = some []) :
    unclosed .paren 0 [] (front ++ p :: listed).reverse =
      (listed, front.reverse) :: unclosed .paren 0 (p :: listed) front.reverse := by
  have hover := unclosed_append hlisted .paren 0 [] (p :: front.reverse)
  rw [List.append_nil] at hover
  rw [List.reverse_append, List.reverse_cons, List.append_assoc]
  exact hover.trans (unclosed_open hp hopen)

/-- The cells of a parenthesised group, cut out by its offsets. -/
theorem take_group (front listed : List Cell) (p : Cell) :
    ((front ++ p :: listed).reverse.take
      ((front ++ p :: listed).length - front.length - 1)).reverse = listed := by
  have hlength : (front ++ p :: listed).length - front.length - 1 = listed.reverse.length := by
    simp only [List.length_append, List.length_cons, List.length_reverse]
    omega
  rw [hlength, List.reverse_append, List.reverse_cons, List.append_assoc, List.take_left,
    List.reverse_reverse]

/-- The name bytes at the start of cells, one by one. -/
theorem leadingName_eq (cells : List Cell) :
    leadingName cells = (cells.map (·.byte)).takeWhile Byte.isName := by
  induction cells with
  | nil => rfl
  | cons c cells ih => rw [leadingName, ih, List.map_cons, List.takeWhile_cons]

/-- The name that the cursor takes from a list of parameters is the parameter. -/
theorem firstName?_eq_parameter? (listed : List Cell) : firstName? listed = parameter? listed := by
  induction listed with
  | nil => rfl
  | cons c listed ih =>
    cases hsig : c.isSignificant with
    | false =>
      rw [parameter?, if_pos (by rw [hsig]; rfl), ← ih, firstName?, firstName?,
        List.dropWhile_cons_of_pos (by rw [hsig]; rfl)]
    | true =>
      rw [parameter?, if_neg (by simp [hsig]), firstName?,
        List.dropWhile_cons_of_neg (by simp [hsig]), List.map_cons, List.takeWhile_cons,
        leadingName_eq]
      cases Byte.isName c.byte with
      | false => rfl
      | true => cases hdigit : Byte.isDigit c.byte <;> simp [hdigit]

/-- Behind a parenthesised group the keyword is looked for in front of it. -/
theorem header?_past_group {keyword : Bytes} (hne : keyword.isEmpty = false) {a g : List Cell}
    {x : Cell} {open' : List Bracket} (hcode : x.isCode = true) (hx : x.byte = Byte.closeParen)
    (ha : nest [] a = some (.paren :: open')) (hg : ∀ y ∈ g, y.isSignificant = false) :
    (Cursor.past keyword (a ++ x :: g)).header? keyword =
      headerBack? keyword (a ++ x :: g).reverse := by
  have hclose : Bracket.closed? x.byte = some .paren := by
    rw [hx]
    rfl
  have hsig := Cursor.significant_of_bracket hcode (.inr hclose)
  obtain ⟨front, p, listed, rfl, hp, hopen, hlisted, hgroup⟩ :=
    Cursor.lastGroup_past hcode hclose ha hg
  rw [Cursor.header?, hne, Cursor.lastCode_past keyword hsig hg, hgroup, headerBack?,
    dropWhile_reverse hsig hg, Cursor.offset_past, List.length_reverse]
  simp only [hx, unclosed_paren hp hopen hlisted, take_group, firstName?_eq_parameter?,
    bne_self_eq_false, beq_self_eq_true, Bool.false_eq_true, if_false, if_true]
  -- the word in front of the group
  rcases Cursor.last_split Cell.isSignificant front with hnone | ⟨b, y, d, rfl, hy, hd⟩
  · rw [Cursor.lastCode_past_none keyword hnone, endsKeyword_reverse_none hne hnone]
    rfl
  · rw [Cursor.lastCode_past keyword hy hd, endsKeyword_reverse keyword hy hd]

/-- The handler that a brace behind nested cells begins, as the cursor knows it, is the one seen
from the brace. -/
theorem header?_past {keyword : Bytes} (hne : keyword.isEmpty = false) {cells : List Cell}
    {open' : List Bracket} (h : nest [] cells = some open') :
    (Cursor.past keyword cells).header? keyword = headerBack? keyword cells.reverse := by
  rcases Cursor.last_split Cell.isSignificant cells with hnone | ⟨a, x, g, rfl, hx, hg⟩
  · rw [Cursor.header?, hne, Cursor.lastCode_past_none keyword hnone, headerBack?,
      dropWhile_reverse_none hnone]
    rfl
  · by_cases hparen : x.byte = Byte.closeParen
    · have hcode : x.isCode = true := (Bool.and_eq_true_iff.1 hx).1
      have hclose : Bracket.closed? x.byte = some .paren := by
        rw [hparen]
        rfl
      rw [nest_append] at h
      obtain ⟨mid, ha, hrest⟩ := Option.bind_eq_some_iff.1 h
      obtain ⟨_, hshift, -⟩ := nest_cons_iff.1 hrest
      cases hshift with
      | passes _ hnot =>
        rw [hnot hcode] at hclose
        cases hclose
      | opens _ hopen =>
        rw [Bracket.closed?_eq_none hopen] at hclose
        cases hclose
      | closes _ hshape =>
        rw [hclose] at hshape
        cases hshape
        exact header?_past_group hne hcode hparen ha hg
    · rw [Cursor.header?, hne, Cursor.lastCode_past keyword hx hg, headerBack?,
        dropWhile_reverse hx hg, endsKeyword_reverse keyword hx hg, Cursor.offset_past,
        List.length_reverse]
      simp [hparen]

/-! ## Handlers -/

/-- The handler that the cursor knows of behind nested cells is found by walking back over them. The
induction is on the open brackets, innermost first. -/
theorem handler?_past {keyword : Bytes} (hne : keyword.isEmpty = false) {cells : List Cell}
    {open' : List Bracket} (h : nest [] cells = some open') (behind : List Cell) :
    (Cursor.past keyword cells).handler? =
      (unclosed .brace 0 behind cells.reverse).findSome? fun brace =>
        headerBack? keyword brace.2 := by
  induction open' generalizing cells behind with
  | nil =>
    have hopeners : (Cursor.past keyword cells).openers = [] := Cursor.openers_foldl_of_closed h
    have hnone := unclosed_append h .brace 0 behind []
    rw [List.append_nil] at hnone
    rw [Cursor.handler?, hopeners]
    exact (congrArg (List.findSome? _) hnone).symm
  | cons bracket open' ih =>
    obtain ⟨a, x, b, rfl, hcode, hopen, ha, hb, hopeners⟩ := @Cursor.openers_past keyword _ _ _ h
    have hover : unclosed .brace 0 behind (a ++ x :: b).reverse =
        unclosed .brace 0 (b ++ behind) (x :: a.reverse) := by
      rw [List.reverse_append, List.reverse_cons, List.append_assoc, List.singleton_append]
      exact unclosed_append hb .brace 0 behind (x :: a.reverse)
    have hrest := ih ha (x :: (b ++ behind))
    rw [Cursor.handler?] at hrest ⊢
    rw [hopeners, List.findSome?_cons, hrest, hover]
    by_cases hbrace : bracket = .brace
    · subst hbrace
      rw [unclosed_open hcode hopen, if_pos rfl, List.findSome?_cons]
      simp only [Cursor.opener, beq_self_eq_true, if_true, header?_past hne ha]
    · have hpass : unclosed .brace 0 (b ++ behind) (x :: a.reverse) =
          unclosed .brace 0 (x :: (b ++ behind)) a.reverse :=
        unclosed_pass (fun _ => by simpa [hopen] using hbrace)
          (fun _ => by simp [Bracket.closed?_eq_none hopen])
      rw [hpass]
      simp [Cursor.opener, hbrace]

/-- Advancing to an offset opens what is opened before it: behind the offset only the rest of a
comment or literal is passed over. -/
theorem Cursor.openers_advance (keyword : Bytes) (target : Nat) (c : Cursor) (cells : List Cell) :
    (advance keyword target c cells).1.openers =
      ((cells.take (target - c.offset)).foldl (step keyword) c).openers := by
  induction cells generalizing c with
  | nil => simp [advance]
  | cons x cells ih =>
    rw [advance]
    split
    · next hgo =>
      rw [ih, offset_step]
      by_cases hlt : c.offset < target
      · have htake : target - c.offset = target - (c.offset + 1) + 1 := by omega
        rw [htake, List.take_succ_cons, List.foldl_cons]
      · have hinside : x.isInside = true := by simpa [hlt] using hgo
        have hsig : x.isSignificant = false := by
          simp only [Cell.isInside] at hinside
          split at hinside
          · next hmark => simp [Cell.isSignificant, Cell.isCode, hmark]
          · cases hinside
        have hnone : target - c.offset = 0 ∧ target - (c.offset + 1) = 0 := by omega
        rw [hnone.1, hnone.2]
        exact (@step_passing keyword c x (by simp [hsig]) (by simp [hsig])).1
    · next hstay =>
      have hnone : target - c.offset = 0 := by
        simp only [Bool.or_eq_true, decide_eq_true_eq, not_or] at hstay
        omega
      rw [hnone]
      rfl

/-- The handler that the cursor finds around an offset is the one that is found by walking back from
there, wherever the brackets before the offset are well nested; some may still be open. -/
theorem handlerAt?_eq_lookBack? (keyword : String) (h : Rules.isName keyword.toList = true)
    (text : Bytes) (offset : Nat) (hnest : (nest [] ((scan text).take offset)).isSome = true) :
    handlerAt? (.ofString keyword) text offset = lookBack? (.ofString keyword) text offset := by
  have hne : (Bytes.ofString keyword).isEmpty = false := by
    rw [Bytes.ofString]
    cases hchars : keyword.toList with
    | nil =>
      rw [hchars] at h
      cases h
    | cons c chars =>
      rw [List.flatMap_cons, List.isEmpty_eq_false_iff]
      exact List.append_ne_nil_of_left_ne_nil String.utf8EncodeChar_ne_nil _
  obtain ⟨open', hopen⟩ := Option.isSome_iff_exists.1 hnest
  have hopeners := Cursor.openers_advance (.ofString keyword) offset {} (scan text)
  have hhandler := handler?_past hne hopen []
  rw [Cursor.handler?] at hhandler
  rw [handlerAt?, Cursor.handler?, hopeners]
  exact hhandler

/-- Inside a callback in a handler: a block that is closed, a comment inside the header, and
brackets of other shapes that are still open. -/
theorem handlerAt?_eq_lookBack?_callback :
    Rules.isName "catch".toList = true ∧
    nest [] ((scan (.ofString "try{a}catch/*)*/(e){if(b){c}f([()=>{}])}")).take 36) =
      some [.brace, .square, .paren, .brace] ∧
    lookBack? (.ofString "catch") (.ofString "try{a}catch/*)*/(e){if(b){c}f([()=>{}])}") 36 =
      some ⟨19, some (.ofString "e")⟩ ∧
    handlerAt? (.ofString "catch") (.ofString "try{a}catch/*)*/(e){if(b){c}f([()=>{}])}") 36 =
      some ⟨19, some (.ofString "e")⟩ := by
  have hname : Rules.isName "catch".toList = true := by decide
  have hnest : nest [] ((scan (.ofString "try{a}catch/*)*/(e){if(b){c}f([()=>{}])}")).take 36) =
      some [.brace, .square, .paren, .brace] := by decide +kernel
  have hback : lookBack? (.ofString "catch") (.ofString "try{a}catch/*)*/(e){if(b){c}f([()=>{}])}")
      36 = some ⟨19, some (.ofString "e")⟩ := by decide +kernel
  refine ⟨hname, hnest, hback, ?_⟩
  rw [handlerAt?_eq_lookBack? "catch" hname _ 36 (by rw [hnest]; rfl)]
  exact hback

end LogSweep.Block
