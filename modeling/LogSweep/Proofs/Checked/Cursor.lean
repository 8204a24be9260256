import LogSweep.Proofs.Block.Remembered
import LogSweep.Proofs.Block.Travel
import LogSweep.Proofs.Checked.Header

/-!
# The block cursor by checked reads

A walker does what the block cursor does, but it keeps no cells: all that it knows of a place is the
offset, and what it compares it reads from the text when it needs it. Its reads never fail. Behind
some cells it knows the offsets of what the cursor knows there (`Walker.past`), and it opens the
same handlers (`Walker.header?_eq`), so it gets wherever the cursor gets
(`Walker.Follows.advanceTo?`) and any number of advances amounts to one
(`Walker.travel?_knows_largest`).
-/

namespace LogSweep.Checked

open Lexical Block

/-- A bracket that is still open. -/
structure OpenAt where
  bracket : Bracket
  offset : Nat
  /-- The last significant byte before the bracket. -/
  previous : Option Nat
  handler : Option Handler
  deriving DecidableEq, Repr, Inhabited

/-- A parenthesised group that has been closed. -/
structure GroupAt where
  openParen : Nat
  closeParen : Nat
  /-- The last significant byte before the group. -/
  previous : Option Nat
  deriving DecidableEq, Repr, Inhabited

/-- A place in a text and what the text before it amounts to. -/
structure Walker where
  offset : Nat := 0
  /-- How many regions have been passed. -/
  region : Nat := 0
  lineStart : Nat := 0
  /-- The last significant byte passed over. -/
  lastCode : Option Nat := none
  /-- The brackets still open, innermost first. -/
  openers : List OpenAt := []
  lastGroup : Option GroupAt := none
  deriving DecidableEq, Repr, Inhabited

namespace Walker

/-- The handler that a brace opened here would begin. -/
def header? (keyword text : Bytes) (rs : List Region) (w : Walker) : Option (Option Handler) :=
  if keyword.isEmpty then some none else
  match w.lastCode with
  | none => some none
  | some last => do
    let b ← text[last]?
    if b == Byte.closeParen then
      match w.lastGroup with
      | none => return none
      | some group =>
        if group.closeParen != last then return none else
        match group.previous with
        | none => return none
        | some word => do
          let parameter ← nameAt? text rs (group.openParen + 1) last
          let found ← endsWordAt? text keyword (word + 1)
          return if found then some ⟨w.offset, parameter⟩ else none
    else do
      let found ← endsWordAt? text keyword (last + 1)
      return if found then some ⟨w.offset, none⟩ else none

/-! ## Moving on -/

/-- Opens a bracket. -/
def opening (w : Walker) (bracket : Bracket) (handler : Option Handler) : Walker :=
  { w with openers := ⟨bracket, w.offset, w.lastCode, handler⟩ :: w.openers }

/-- Closes the nearest open bracket of the given shape. -/
def closing (w : Walker) (bracket : Bracket) : Walker :=
  match w.openers.dropWhile (·.bracket != bracket) with
  | [] => w
  | o :: openers =>
    let group := if bracket == .paren then some ⟨o.offset, w.offset, o.previous⟩ else w.lastGroup
    { w with openers := openers, lastGroup := group }

/-- What a significant byte does to the open brackets. -/
def bracketed? (keyword text : Bytes) (rs : List Region) (w : Walker) (b : UInt8) : Option Walker :=
  match Bracket.opened? b, Bracket.closed? b with
  | some .brace, _ => do
    let handler ← w.header? keyword text rs
    return w.opening .brace handler
  | some bracket, _ => some (w.opening bracket none)
  | none, some bracket => some (w.closing bracket)
  | none, none => some w

/-- What a byte of code tells about the places behind it. -/
def read? (keyword text : Bytes) (rs : List Region) (w : Walker) (b : UInt8) : Option Walker :=
  if b == Byte.newline then some { w with lineStart := w.offset + 1 }
  else if Byte.isBlank b then some w
  else do
    let next ← w.bracketed? keyword text rs b
    return { next with lastCode := some w.offset }

/-- The start of the line behind bytes that stand at an offset. -/
def lineBehind (offset start : Nat) : Bytes → Nat
  | [] => start
  | b :: bytes => lineBehind (offset + 1) (if b == Byte.newline then offset + 1 else start) bytes

/-- Advances to an offset. A region is passed as a whole. -/
def advance? (keyword text : Bytes) (rs : List Region) (target : Nat) (w : Walker) :
    Option Walker :=
  if w.offset < target then
    match rs[w.region]?.filter (·.span.start ≤ w.offset) with
    | some r => do
      let stop := min r.span.stop text.length
      let passed ← text.range? ⟨w.offset, stop⟩
      advance? keyword text rs target
        { w with
          offset := max stop (w.offset + 1)
          region := w.region + 1
          lineStart := lineBehind w.offset w.lineStart passed }
    | none => do
      let b ← text[w.offset]?
      let next ← w.read? keyword text rs b
      advance? keyword text rs target { next with offset := w.offset + 1 }
  else some w
termination_by target - w.offset

/-- Advances to an offset of the text, or to its end. -/
def advanceTo? (keyword text : Bytes) (rs : List Region) (target : Nat) (w : Walker) :
    Option Walker :=
  w.advance? keyword text rs (min target text.length)

/-- Whether the innermost open bracket is a parenthesis or a square bracket. -/
def insideGroup (w : Walker) : Bool :=
  match w.openers with
  | [] => false
  | o :: _ => o.bracket != .brace

/-- The innermost open handler. -/
def handler? (w : Walker) : Option Handler :=
  w.openers.findSome? (·.handler)

end Walker

/-! ## Walkers and cursors -/

def OpenAt.of (o : Opener) : OpenAt :=
  ⟨o.bracket, o.offset, o.previous.map (·.offset), o.handler⟩

def GroupAt.of (g : Group) : GroupAt :=
  ⟨g.openParen, g.closeParen, g.previous.map (·.offset)⟩

namespace Walker

/-- The offsets of what a cursor knows when it has passed some regions. -/
def of (region : Nat) (c : Cursor) : Walker where
  offset := c.offset
  region := region
  lineStart := c.lineStart
  lastCode := c.lastCode.map (·.offset)
  openers := c.openers.map OpenAt.of
  lastGroup := c.lastGroup.map GroupAt.of

/-- The walker behind the given cells of a text. -/
def past (keyword : Bytes) (cells : List Cell) : Walker :=
  of (regionsFrom 0 [] cells).length (.past keyword cells)

section
variable (n : Nat) (c : Cursor)

/-- A walker knows whether a group is open as the cursor does. -/
theorem insideGroup_of : (of n c).insideGroup = c.insideGroup := by
  unfold insideGroup Cursor.insideGroup
  show (match c.openers.map OpenAt.of with | [] => _ | _ :: _ => _) = _
  cases c.openers <;> rfl

/-- A walker knows the innermost handler as the cursor does. -/
theorem handler?_of : (of n c).handler? = c.handler? := by
  show (c.openers.map OpenAt.of).findSome? (·.handler) = _
  rw [List.findSome?_map]
  rfl

/-- Closing a bracket takes the same brackets away. -/
theorem closing_of (bracket : Bracket) :
    (of n c).closing bracket = of n (c.closing bracket) := by
  have hdrop : (c.openers.map OpenAt.of).dropWhile (·.bracket != bracket) =
      (c.openers.dropWhile (·.bracket != bracket)).map OpenAt.of := by
    rw [List.dropWhile_map]
    rfl
  have hopeners : (of n c).openers = c.openers.map OpenAt.of := rfl
  rw [closing, Cursor.closing, hopeners, hdrop]
  cases c.openers.dropWhile (·.bracket != bracket) with
  | nil => rfl
  | cons o openers =>
    cases bracket == .paren with
    | true => rfl
    | false => rfl

end

section
variable {keyword text : Bytes} {pre ahead : List Cell}

/-- A walker finds the header that the cursor finds. -/
theorem header?_eq (htext : Aligned text) (h : scan text = pre ++ ahead) (n : Nat) :
    (of n (.past keyword pre)).header? keyword text (regions text) =
      some ((Cursor.past keyword pre).header? keyword) := by
  rw [header?, Cursor.header?]
  cases keyword.isEmpty with
  | true => rfl
  | false =>
  have hlast : (of n (Cursor.past keyword pre)).lastCode =
      (Cursor.past keyword pre).lastCode.map (·.offset) := rfl
  have hgroup : (of n (Cursor.past keyword pre)).lastGroup =
      (Cursor.past keyword pre).lastGroup.map GroupAt.of := rfl
  have hoffset : (of n (Cursor.past keyword pre)).offset = (Cursor.past keyword pre).offset := rfl
  rw [hlast, hgroup, hoffset]
  rcases Cursor.last_split Cell.isSignificant pre with hnone | ⟨a, x, g, rfl, hx, hg⟩
  · rw [Cursor.lastCode_past_none keyword hnone]
    rfl
  rw [Cursor.lastCode_past keyword hx hg]
  have hplace : scan text = a ++ x :: (g ++ ahead) := by rw [h]; simp
  have hbyte : text[a.length]? = some x.byte := getElem?_of_scan hplace
  simp only [Option.map_some, hbyte, Option.bind_eq_bind, Option.bind_some, Bool.false_eq_true,
    if_false]
  split
  · next hparen =>
    cases hlastGroup : (Cursor.past keyword (a ++ x :: g)).lastGroup with
    | none => rfl
    | some group =>
      obtain ⟨front, p, listed, x', rest, hcells, hp, hx', hopened, hclosed, hprevious⟩ :=
        (Cursor.remembers_past keyword (a ++ x :: g)).group group hlastGroup
      simp only [Option.map_some, GroupAt.of]
      split
      · rfl
      · next hends =>
        have hends : group.closeParen = a.length := by simpa using hends
        have hsplit : a ++ x :: g = (front ++ p :: listed) ++ x' :: rest := by rw [hcells]; simp
        obtain ⟨rfl, -⟩ := List.append_inj hsplit (by rw [← hends, hclosed])
        have hname := nameAt?_eq htext (hplace.trans (List.append_assoc ..)) hp
          (by simpa using hparen)
        rw [← hopened] at hname
        rw [hname, hclosed, hopened, take_group, hprevious]
        rcases Cursor.last_split Cell.isSignificant front with hnone | ⟨a', y, g', rfl, hy, hg'⟩
        · rw [Cursor.lastCode_past_none keyword hnone]
          rfl
        · have hword : scan text = a' ++ y :: (g' ++ p :: (listed ++ x :: (g ++ ahead))) := by
            rw [hplace]
            simp
          rw [Cursor.lastCode_past keyword hy hg']
          simp only [Option.map_some, Option.bind_some, endsWordAt?_eq hword]
          cases endsWithWord keyword.reverse (y :: a'.reverse) <;> rfl
  · rw [endsWordAt?_eq hplace, Option.bind_some]
    cases endsWithWord keyword.reverse (x :: a.reverse) <;> rfl

/-- A bracket does to a walker what it does to the cursor, and its reads succeed. -/
theorem bracketed?_eq (htext : Aligned text) (h : scan text = pre ++ ahead) (n : Nat) (b : UInt8) :
    (of n (.past keyword pre)).bracketed? keyword text (regions text) b =
      some (of n ((Cursor.past keyword pre).bracketed keyword b)) := by
  rw [bracketed?, Cursor.bracketed]
  cases hopen : Bracket.opened? b with
  | some bracket =>
    cases bracket with
    | brace =>
      simp only [header?_eq htext h, Option.bind_eq_bind, Option.bind_some]
      rfl
    | paren => rfl
    | square => rfl
  | none =>
    cases hclose : Bracket.closed? b with
    | some bracket => exact congrArg some (closing_of n _ bracket)
    | none => rfl

/-- A byte of code brings a walker where it brings the cursor. -/
theorem read?_eq (htext : Aligned text) (h : scan text = pre ++ ahead) (n : Nat) (b : UInt8) :
    ∃ next, (of n (.past keyword pre)).read? keyword text (regions text) b = some next ∧
      { next with offset := pre.length + 1 } = of n (.past keyword (pre ++ [⟨b, .code⟩])) := by
  have hoffset : (Cursor.past keyword pre).offset = pre.length := Cursor.offset_past keyword pre
  rw [Cursor.past_snoc, read?]
  by_cases hnewline : b = Byte.newline
  · subst hnewline
    refine ⟨_, if_pos rfl, ?_⟩
    rw [← hoffset]
    rfl
  rw [if_neg (by simpa using hnewline)]
  cases hblank : Byte.isBlank b with
  | true =>
    have hstep : (Cursor.past keyword pre).step keyword ⟨b, .code⟩ =
        (Cursor.past keyword pre).passed ⟨b, .code⟩ := by
      simp [Cursor.step, Cell.isSignificant, hblank]
    refine ⟨_, rfl, ?_⟩
    rw [hstep, ← hoffset]
    simp [of, Cursor.passed, hnewline]
  | false =>
    have hstep : (Cursor.past keyword pre).step keyword ⟨b, .code⟩ =
        { ((Cursor.past keyword pre).bracketed keyword b).passed ⟨b, .code⟩ with
          lastCode := some ⟨(Cursor.past keyword pre).offset, ⟨b, .code⟩,
            (Cursor.past keyword pre).before⟩ } := by
      simp [Cursor.step, Cell.isSignificant, Cell.isCode, hblank]
    rw [bracketed?_eq htext h]
    refine ⟨_, rfl, ?_⟩
    rw [hstep, Cursor.bracketed_eq, ← hoffset]
    simp [of, Cursor.passed, hnewline]

end

/-! ## Advancing -/

/-- The line of a cursor begins behind the last newline of the cells that it passed. -/
theorem lineStart_foldl (keyword : Bytes) (c : Cursor) (cells : List Cell) :
    (cells.foldl (Cursor.step keyword) c).lineStart =
      lineBehind c.offset c.lineStart (cells.map (·.byte)) := by
  induction cells generalizing c with
  | nil => rfl
  | cons cell cells ih =>
    rw [List.foldl_cons, ih, Cursor.offset_step, Cursor.lineStart_step]
    rfl

/-- Cells that are not significant leave the last significant one as it is. -/
theorem lastCode_foldl (keyword : Bytes) (c : Cursor) {cells : List Cell}
    (h : ∀ y ∈ cells, y.isSignificant = false) :
    (cells.foldl (Cursor.step keyword) c).lastCode = c.lastCode := by
  induction cells generalizing c with
  | nil => rfl
  | cons cell cells ih =>
    obtain ⟨hcell, hcells⟩ := List.forall_mem_cons.1 h
    rw [List.foldl_cons, ih _ hcells, Cursor.lastCode_step, hcell, if_neg Bool.false_ne_true]

section
variable {keyword text : Bytes} {pre a b : List Cell}

/-- What is not code moves the cursor and its line, and nothing else. -/
theorem of_past_append (n : Nat) {cells : List Cell} (h : ∀ y ∈ cells, y.isSignificant = false) :
    of n (.past keyword (pre ++ cells)) =
      { of n (.past keyword pre) with
        offset := (pre ++ cells).length
        lineStart := lineBehind pre.length (Cursor.past keyword pre).lineStart
          (cells.map (·.byte)) } := by
  have hpast : Cursor.past keyword (pre ++ cells) =
      cells.foldl (Cursor.step keyword) (.past keyword pre) := List.foldl_append
  obtain ⟨hopeners, hgroup⟩ := @Cursor.foldl_of_not_significant keyword (.past keyword pre) _ h
  have hline := lineStart_foldl keyword (.past keyword pre) cells
  rw [Cursor.offset_past] at hline
  rw [of, Cursor.offset_past, hpast, hopeners, hgroup, hline, lastCode_foldl keyword _ h]
  rfl

/-- The region that a walker looks at is the first one ahead. -/
theorem getElem?_regions (h : Parting text pre b) :
    (regions text)[(past keyword pre).region]? = (regionsFrom pre.length [] b).head? := by
  rw [h.regions_eq]
  show (_ ++ _)[(regionsFrom 0 [] pre).length]? = _
  rw [List.getElem?_append_right (Nat.le_refl _), Nat.sub_self, List.head?_eq_getElem?]

theorem offset_past (keyword : Bytes) (cells : List Cell) :
    (past keyword cells).offset = cells.length :=
  Cursor.offset_past keyword cells

/-- A byte of code is read, and the walker goes on behind it. -/
theorem advance?_code (htext : Aligned text) {x : UInt8}
    (h : Parting text pre (⟨x, .code⟩ :: b)) {target : Nat} (hlt : pre.length < target) :
    (past keyword pre).advance? keyword text (regions text) target =
      (past keyword (pre ++ [⟨x, .code⟩])).advance? keyword text (regions text) target := by
  have hb : Parted b := h.code.ahead
  have hnone : (regions text)[(past keyword pre).region]?.filter
      (·.span.start ≤ (past keyword pre).offset) = none := by
    rw [getElem?_regions h, offset_past, regionsFrom_code]
    cases hhead : (regionsFrom (pre.length + 1) [] b).head? with
    | none => rfl
    | some r =>
      have := hb.span_of_mem (List.mem_of_mem_head? hhead)
      exact Option.filter_eq_none_iff.2 (by intro s hs; cases hs; simp; omega)
  have hcell : text[pre.length]? = some x := getElem?_of_scan h.scan_eq
  have hregion : (regionsFrom 0 [] (pre ++ [⟨x, .code⟩])).length =
      (regionsFrom 0 [] pre).length := by
    rw [h.pre.regionsFrom_append (.code .nil)]
    simp [regionsFrom]
  obtain ⟨next, hread, hnext⟩ := @read?_eq keyword text pre _ htext h.scan_eq
    (regionsFrom 0 [] pre).length x
  have hread : (past keyword pre).read? keyword text (regions text) x = some next := hread
  have hnext : past keyword (pre ++ [⟨x, .code⟩]) = { next with offset := pre.length + 1 } := by
    rw [past, hregion, hnext]
  rw [advance?, hnone, offset_past, if_pos hlt, hcell, hnext]
  simp only [Option.bind_eq_bind, Option.bind_some, hread]

/-- A region is passed as a whole. -/
theorem advance?_region {kind : Kind} {x : UInt8} {body : List Cell}
    (h : Parting text pre (⟨x, .opening kind⟩ :: (body ++ b)))
    (hbody : ∀ c ∈ body, c.mark = .inside kind) (hb : Parted b) {target : Nat}
    (hlt : pre.length < target) :
    (past keyword pre).advance? keyword text (regions text) target =
      (past keyword (pre ++ ⟨x, .opening kind⟩ :: body)).advance? keyword text (regions text)
        target := by
  have hnext := (h.region hbody hb).scan_eq
  have hlength : (pre ++ ⟨x, .opening kind⟩ :: body).length = pre.length + 1 + body.length := by
    simp only [List.length_append, List.length_cons]
    omega
  have hsome : (regions text)[(past keyword pre).region]?.filter
      (·.span.start ≤ (past keyword pre).offset) =
        some ⟨kind, ⟨pre.length, (pre ++ ⟨x, .opening kind⟩ :: body).length⟩⟩ := by
    rw [getElem?_regions h, offset_past, hb.regionsFrom_region hbody, hlength]
    simp
  have hend : (pre ++ ⟨x, .opening kind⟩ :: body).length ≤ text.length := by
    rw [length_of_scan hnext]
    exact Nat.le_add_right _ _
  have hplain : ∀ y ∈ (⟨x, .opening kind⟩ :: body : List Cell), y.isSignificant = false := by
    refine List.forall_mem_cons.2 ⟨rfl, fun y hy => ?_⟩
    simp [Cell.isSignificant, Cell.isCode, hbody y hy]
  have hregion : (regionsFrom 0 [] (pre ++ ⟨x, .opening kind⟩ :: body)).length =
      (regionsFrom 0 [] pre).length + 1 := by
    have hone := Parted.nil.regionsFrom_region (b := x) hbody (0 + pre.length)
    have hparted := Parted.region (b := x) hbody .nil
    rw [List.append_nil] at hone hparted
    rw [h.pre.regionsFrom_append hparted, hone]
    simp [regionsFrom]
  have hpast : past keyword (pre ++ ⟨x, .opening kind⟩ :: body) =
      { past keyword pre with
        offset := (pre ++ ⟨x, .opening kind⟩ :: body).length
        region := (past keyword pre).region + 1
        lineStart := lineBehind pre.length (past keyword pre).lineStart
          ((⟨x, .opening kind⟩ :: body : List Cell).map (·.byte)) } := by
    rw [past, hregion, of_past_append _ hplain]
    rfl
  rw [advance?, hsome, offset_past, if_pos hlt, hpast]
  simp only [Nat.min_eq_left hend, range?_of_scan hnext, Option.bind_eq_bind, Option.bind_some]
  rw [Nat.max_eq_left (by omega)]

end

/-! ## Following the cursor -/

/-- A walker stands where a cursor stands that has the given cells ahead of it. -/
def Follows (keyword text : Bytes) (w : Walker) (c : Cursor) (ahead : List Cell) : Prop :=
  ∃ pre, w = past keyword pre ∧ c = .past keyword pre ∧ Parting text pre ahead

section
variable {keyword text : Bytes} {w : Walker} {c : Cursor} {ahead : List Cell}

/-- At the start of a text a walker stands where the cursor stands. -/
theorem follows_start (keyword text : Bytes) : Follows keyword text {} {} (scan text) :=
  ⟨[], rfl, rfl, .start text⟩

/-- There is one place for a walker where a cursor stands. -/
theorem Follows.unique (h : Follows keyword text w c ahead) {w' : Walker} {c' : Cursor}
    (h' : Follows keyword text w' c' ahead) : w = w' := by
  obtain ⟨pre, rfl, -, hpre⟩ := h
  obtain ⟨pre', rfl, -, hpre'⟩ := h'
  rw [List.append_cancel_right (hpre.scan_eq.symm.trans hpre'.scan_eq)]

/-- Both stay where they are when the offset is behind them. -/
theorem Follows.stays (h : Follows keyword text w c ahead) {target : Nat}
    (hle : min target text.length ≤ w.offset) :
    w.advance? keyword text (regions text) (min target text.length) = some w ∧
      Cursor.advance keyword target c ahead = (c, ahead) := by
  obtain ⟨pre, rfl, rfl, hparting⟩ := h
  rw [offset_past] at hle
  refine ⟨?_, ?_⟩
  · rw [Walker.advance?, offset_past, if_neg (Nat.not_lt.2 hle)]
  · cases ahead with
    | nil => rfl
    | cons cell ahead =>
      have hlength := length_of_scan hparting.scan_eq
      rw [List.length_cons] at hlength
      rw [Cursor.advance, hparting.ahead.not_isInside cell rfl, Cursor.offset_past, if_neg]
      simp
      omega

/-- The step: before the offset, both pass a byte of code or a whole region. The walker jumps to the
end of the region that its index names; the cursor goes on as long as the region does, also when the
offset lies inside. -/
theorem Follows.step (htext : Aligned text) (h : Follows keyword text w c ahead) {target : Nat}
    (hlt : w.offset < min target text.length) :
    ∃ w' c' ahead', Follows keyword text w' c' ahead' ∧ ahead'.length < ahead.length ∧
      w.advance? keyword text (regions text) (min target text.length) =
        w'.advance? keyword text (regions text) (min target text.length) ∧
      Cursor.advance keyword target c ahead = Cursor.advance keyword target c' ahead' := by
  obtain ⟨pre, rfl, rfl, hparting⟩ := h
  rw [offset_past] at hlt
  have hcursor : (Cursor.past keyword pre).offset < target := by
    rw [Cursor.offset_past]
    omega
  have hlength := length_of_scan hparting.scan_eq
  have hahead := hparting.ahead
  cases hahead with
  | nil =>
    rw [List.length_nil] at hlength
    omega
  | @code x rest =>
    refine ⟨_, _, rest, ⟨_, rfl, rfl, hparting.code⟩, by simp,
      advance?_code htext hparting hlt, ?_⟩
    rw [Cursor.advance_cons_of_lt hcursor, Cursor.past_snoc]
  | @region kind x body rest hbody hrest =>
    have hshorter : rest.length < ((⟨x, .opening kind⟩ : Cell) :: (body ++ rest)).length := by
      rw [List.length_cons, List.length_append]
      omega
    refine ⟨_, _, rest, ⟨_, rfl, rfl, hparting.region hbody hrest⟩, hshorter,
      advance?_region hparting hbody hrest hlt, ?_⟩
    have hinside : ∀ y ∈ body, y.isInside = true := fun y hy => by simp [Cell.isInside, hbody y hy]
    rw [Cursor.advance_cons_of_lt hcursor, Cursor.advance_append_of_isInside hinside]
    simp only [Cursor.past, List.foldl_append, List.foldl_cons]

/-- A walker gets wherever the cursor gets, inside comments and literals and beyond the end, too. -/
theorem Follows.advanceTo? (htext : Aligned text) (h : Follows keyword text w c ahead)
    (target : Nat) : ∃ w', w.advanceTo? keyword text (regions text) target = some w' ∧
      Follows keyword text w' (Cursor.advance keyword target c ahead).1
        (Cursor.advance keyword target c ahead).2 := by
  unfold Walker.advanceTo?
  induction hn : ahead.length using Nat.strongRecOn generalizing w c ahead with
  | ind n ih =>
    by_cases hle : min target text.length ≤ w.offset
    · obtain ⟨hwalker, hcursor⟩ := h.stays hle
      rw [hwalker, hcursor]
      exact ⟨w, rfl, h⟩
    · obtain ⟨w', c', ahead', h', hshorter, hwalker, hcursor⟩ :=
        h.step htext (Nat.lt_of_not_le hle)
      rw [hwalker, hcursor]
      exact ih _ (hn ▸ hshorter) h' rfl

/-- Advances to the given offsets, one after the other. -/
def travel? (keyword text : Bytes) (rs : List Region) (targets : List Nat) (w : Walker) :
    Option Walker :=
  targets.foldlM (fun w target => w.advanceTo? keyword text rs target) w

/-- A walker follows the cursor to any offsets, one after the other. -/
theorem Follows.travel? (htext : Aligned text) (h : Follows keyword text w c ahead)
    (targets : List Nat) : ∃ w', w.travel? keyword text (regions text) targets = some w' ∧
      Follows keyword text w' (Cursor.travel keyword targets (c, ahead)).1
        (Cursor.travel keyword targets (c, ahead)).2 := by
  induction targets generalizing w c ahead with
  | nil => exact ⟨w, rfl, h⟩
  | cons target targets ih =>
    obtain ⟨next, hnext, hfollows⟩ := h.advanceTo? htext target
    obtain ⟨w', hw', h'⟩ := ih hfollows
    refine ⟨w', ?_, h'⟩
    rw [Walker.travel?, List.foldlM_cons, hnext]
    exact hw'

end

/-- A walker that is advanced to offsets in any order, inside comments and literals and beyond the
end of the text too, never fails, and it ends up where a fresh one ends up that is advanced once to
the largest of them: where the cursor ends up. Its last significant byte is the last one before that
offset; its line begins behind the last newline before the offset, unless this lies strictly inside
of a comment or literal. The keyword has no part in either, nor in whether a group is open. -/
theorem travel?_knows_largest (keyword : Bytes) (source : String) (targets : List Nat) :
    let text := Bytes.ofString source
    let m := targets.foldl max 0
    ∃ w, travel? keyword text (regions text) targets {} = some w ∧
      advanceTo? keyword text (regions text) m {} = some w ∧
      w = of w.region (Cursor.travel keyword targets ({}, scan text)).1 ∧
      w.handler? = handlerAt? keyword text m ∧
      IsLast (SignificantAt text) m w.lastCode ∧
      ((∀ r ∈ regions text, ¬ (r.span.start < m ∧ m < r.span.stop)) →
        ∃ last, IsLast (text[·]? = some Byte.newline) m last ∧
          w.lineStart = last.elim 0 (· + 1)) ∧
      ∀ keyword', ∃ w', travel? keyword' text (regions text) targets {} = some w' ∧
        w'.lastCode = w.lastCode ∧ w'.lineStart = w.lineStart ∧
        w'.insideGroup = w.insideGroup := by
  intro text m
  have htext : Aligned text := aligned_ofString source
  have hof : ∀ {keyword w c ahead}, Follows keyword text w c ahead → w = of w.region c := by
    rintro keyword w c ahead ⟨pre, rfl, rfl, -⟩
    rfl
  obtain ⟨w, htravel, hfollows⟩ := (follows_start keyword text).travel? htext targets
  obtain ⟨fresh, hfresh, hfollows'⟩ := (follows_start keyword text).advanceTo? htext m
  obtain ⟨-, hhandler, hlast, hline, hkeyword⟩ := travel_knows_largest keyword text targets
  obtain rfl : w = fresh := by
    have hsame : Cursor.travel keyword targets ({}, scan text) =
        Cursor.advance keyword m {} (scan text) := Cursor.travel_eq_advance keyword targets text
    rw [hsame] at hfollows
    exact hfollows.unique hfollows'
  have hw := hof hfollows
  refine ⟨w, htravel, hfresh, hw, ?_, ?_, ?_, fun keyword' => ?_⟩
  · rw [hw, handler?_of]
    exact hhandler
  · rw [hw]
    exact hlast
  · rw [hw]
    exact hline
  · obtain ⟨w', htravel', hfollows'⟩ := (follows_start keyword' text).travel? htext targets
    have hw' := hof hfollows'
    obtain ⟨hcode, hstart, hgroup⟩ := hkeyword keyword'
    refine ⟨w', htravel', ?_, ?_, ?_⟩
    · rw [hw, hw']
      exact congrArg (Option.map (·.offset)) hcode
    · rw [hw, hw']
      exact hstart
    · rw [hw, hw', insideGroup_of, insideGroup_of, hgroup]

end Walker

end LogSweep.Checked
