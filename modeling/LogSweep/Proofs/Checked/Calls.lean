import LogSweep.Proofs.Checked.Cursor
import LogSweep.Proofs.Component.Structure

/-!
# Call statements by checked reads

A place where the name of the target stands is judged by offsets: what stands around it is read from
the text and from its regions. The count of open parentheses is a natural number, and it is taken
down only while one is open (`closingAt?_eq`). No read fails, and the verdict is that of the library
(`judgeAt?_eq`), except that it is left open how a call statement is redirected.
-/

namespace LogSweep.Call

/-- A site before it is settled how it is redirected. -/
def Site.unplaced (site : Site) : Site :=
  { site with redirection := none }

def Verdict.unplaced : Verdict → Verdict
  | .accepted site => .accepted site.unplaced
  | .ignored => .ignored
  | .refused reason => .refused reason

end LogSweep.Call

namespace LogSweep.Checked

open Lexical Block Call

/-! ## Reading ahead -/

/-- Passes over the bytes that satisfy `p`. -/
def skip? (p : UInt8 → Bool) (text : Bytes) (i : Nat) : Option Nat :=
  if i < text.length then do
    let b ← text[i]?
    if p b then skip? p text (i + 1) else return i
  else some i
termination_by text.length - i

/-- The parenthesis that brings the count of open ones back to zero. -/
def closingAt? (text : Bytes) (rs : List Region) (i depth : Nat) : Option (Option Nat) :=
  if i < text.length then
    match regionAt? rs i with
    | some r => if i < r.span.stop then closingAt? text rs r.span.stop depth else none
    | none => do
      let b ← text[i]?
      if b == Byte.openParen then closingAt? text rs (i + 1) (depth + 1)
      else if b == Byte.closeParen then do
        let depth ← minus? depth 1
        if depth = 0 then return some i else closingAt? text rs (i + 1) depth
      else closingAt? text rs (i + 1) depth
  else some none
termination_by text.length - i

/-- The first byte behind white space and comments. -/
def nextToken? (text : Bytes) (rs : List Region) (i : Nat) : Option (Option Nat) :=
  if i < text.length then
    match regionAt? rs i with
    | some r =>
      if r.kind.isComment then
        if i < r.span.stop then nextToken? text rs r.span.stop else none
      else some (some i)
    | none => do
      let b ← text[i]?
      if Byte.isBlank b then nextToken? text rs (i + 1) else return some i
  else some none
termination_by text.length - i

/-- Whether what stands at an offset continues an expression. -/
def continues? (text : Bytes) (rs : List Region) (i : Nat) : Option Bool :=
  match regionAt? rs i with
  | some r => some (r.kind == .template)
  | none => do
    let b ← text[i]?
    return continuations.contains b

/-- Whether the first thing behind white space and comments continues the expression before. -/
def continuesFrom? (text : Bytes) (rs : List Region) (i : Nat) : Option Bool := do
  match ← nextToken? text rs i with
  | none => return false
  | some next => continues? text rs next

/-- The end of the statement whose closing parenthesis comes right before the offset, and whether
it is a semicolon. -/
def endingAt? (text : Bytes) (rs : List Region) (after : Nat) : Option (Option (Nat × Bool)) := do
  let next ← skip? Byte.isHorizontal text after
  match text[next]? with
  | none => return some (after, false)
  | some c =>
    if c == Byte.semicolon then return some (next + 1, true)
    else if c == Byte.closeBrace then return some (after, false)
    else if c == Byte.newline || c == Byte.carriageReturn || c == Byte.slash then do
      let b ← text[next]?
      if b == Byte.slash && (regionAt? rs next).isNone then return none
      else do
        let continued ← continuesFrom? text rs next
        return if continued then none else some (after, false)
    else return none

/-- What to delete with a statement. -/
def removalAt? (text : Bytes) (start stop lineStart : Nat) (startsLine : Bool) : Option Span := do
  let rest ← skip? Byte.isHorizontal text stop
  let lineEnd := match text[rest]? with
    | none => some rest
    | some b =>
      if b == Byte.newline then some (rest + 1)
      else if b == Byte.carriageReturn && text[rest + 1]? == some Byte.newline then some (rest + 2)
      else none
  return match lineEnd with
    | some lineEnd => if startsLine then ⟨lineStart, lineEnd⟩ else ⟨start, rest⟩
    | none => ⟨start, stop⟩

/-! ## Judging a place -/

/-- Whether a statement can begin where the walker stands. -/
def atStatement? (text : Bytes) (w : Walker) (accepted : Option Span) : Option Bool :=
  match w.lastCode with
  | none => some (!w.insideGroup)
  | some last =>
    if accepted.any (·.contains last) then some (!w.insideGroup) else do
      let b ← text[last]?
      return !w.insideGroup &&
        (b == Byte.semicolon || b == Byte.openBrace || b == Byte.closeBrace)

/-- The parenthesis of a call of the target, if one begins at the offset, where the target is
spelled out. -/
def calledAt? (text : Bytes) (rs : List Region) (target : Bytes) (start : Nat) :
    Option (Option Nat) :=
  if (regionAt? rs start).isSome then some none else do
    let inName ←
      if target.head?.any Byte.isName then text.precededBy? isDottedByte start else some false
    if inName then return none else do
      let opened ← skip? Byte.isBlank text (start + target.length)
      return if text[opened]? == some Byte.openParen then some opened else none

/-- The site of a call statement on a line. How it is redirected is left open. -/
def siteAt? (text : Bytes) (lineStart : Nat) (statement listed : Span) (semicolon : Bool) :
    Option Site := do
  let row ← text.range? ⟨lineStart, statement.start⟩
  let startsLine := row.all Byte.isHorizontal
  let removal ← removalAt? text statement.start statement.stop lineStart startsLine
  let arguments ← text.cut? listed
  return {
    start := statement.start
    stop := statement.stop
    line := lineNumber text statement.start
    arguments, semicolon, lineStart, startsLine, removal
    redirection := none }

/-- Judges a call whose parenthesis is given. -/
def statementAt? (text : Bytes) (rs : List Region) (accepted : Option Span) (w : Walker)
    (start opened : Nat) : Option (Verdict × Walker) := do
  match ← closingAt? text rs opened 0 with
  | none => return (.refused .unbalanced, w)
  | some closed => do
    let w ← w.advanceTo? [] text rs start
    let atStatement ← atStatement? text w accepted
    if !atStatement then return (.refused .notStatement, w) else
    match ← endingAt? text rs (closed + 1) with
    | none => return (.refused .resultUsed, w)
    | some (stop, semicolon) => do
      let site ← siteAt? text w.lineStart ⟨start, stop⟩ ⟨opened + 1, closed⟩ semicolon
      return (.accepted site, w)

/-- Judges a place where the target is spelled out. -/
def judgeAt? (text : Bytes) (rs : List Region) (target : Bytes) (accepted : Option Span)
    (w : Walker) (start : Nat) : Option (Verdict × Walker) := do
  match ← calledAt? text rs target start with
  | none => return (.ignored, w)
  | some opened => statementAt? text rs accepted w start opened

/-! ## What is read ahead -/

section
variable {text : Bytes} {pre ahead : List Cell}

/-- A cell stands at an offset of the text. -/
theorem lt_of_scan {c : Cell} (h : scan text = pre ++ c :: ahead) : pre.length < text.length := by
  rw [length_of_scan h, List.length_cons]
  omega

/-- Skipping by checked reads goes up to the first byte that is not skipped. -/
theorem skip?_eq {p : UInt8 → Bool} {g m : List Cell} (h : scan text = pre ++ (g ++ m))
    (hg : ∀ c ∈ g, p c.byte = true) (hm : ∀ c, m.head? = some c → p c.byte = false) :
    skip? p text pre.length = some (pre ++ g).length := by
  induction g generalizing pre with
  | nil =>
    rw [List.append_nil, skip?]
    cases m with
    | nil =>
      have hlength := length_of_scan h
      rw [if_neg (by rw [hlength]; simp)]
    | cons c m =>
      rw [if_pos (lt_of_scan h), getElem?_of_scan h]
      simp [hm c rfl]
  | cons c g ih =>
    obtain ⟨hc, hg⟩ := List.forall_mem_cons.1 hg
    have hrest := @ih (pre ++ [c]) (by rw [h]; simp) hg
    rw [← List.append_cons, List.length_append, List.length_singleton] at hrest
    rw [skip?, if_pos (lt_of_scan h), getElem?_of_scan h]
    simp only [List.cons_append, List.head?_cons, Option.map_some, Option.bind_eq_bind,
      Option.bind_some, hc, if_true]
    exact hrest

/-- The search for the closing parenthesis passes over what is no code. -/
theorem closingParen?_skip {body : List Cell} (hbody : ∀ c ∈ body, c.isCode = false) (depth : Int)
    (offset : Nat) (rest : List Cell) : closingParen? depth offset (body ++ rest) =
      closingParen? depth (offset + body.length) rest := by
  induction body generalizing offset with
  | nil => rfl
  | cons c body ih =>
    obtain ⟨hc, hbody⟩ := List.forall_mem_cons.1 hbody
    rw [List.cons_append, closingParen?, hc, Bool.not_false, if_pos rfl, ih hbody, List.length_cons,
      Nat.add_assoc, Nat.add_comm 1]

/-- The cells of a region are no code. -/
theorem isCode_region {kind : Kind} {b : UInt8} {body : List Cell}
    (hbody : ∀ c ∈ body, c.mark = .inside kind) :
    ∀ c ∈ ⟨b, .opening kind⟩ :: body, c.isCode = false := by
  refine List.forall_mem_cons.2 ⟨rfl, fun c hc => ?_⟩
  simp [Cell.isCode, hbody c hc]

/-- As long as a parenthesis is open, the count can be taken down. The induction is on the cells
ahead, which are code and whole regions in turn. -/
theorem closingAt?_eq (h : Parting text pre ahead) {depth : Nat} (hdepth : 1 ≤ depth) :
    closingAt? text (regions text) pre.length depth =
      some ((closingParen? depth pre.length ahead).map (·.1)) := by
  have hahead := h.ahead
  induction hahead generalizing pre depth with
  | nil =>
    have hlength := length_of_scan h.scan_eq
    rw [closingAt?, if_neg (by rw [hlength]; simp)]
    rfl
  | @code b rest hrest ih =>
    have hnext : ∀ {depth : Nat}, 1 ≤ depth →
        closingAt? text (regions text) (pre.length + 1) depth =
          some ((closingParen? depth (pre.length + 1) rest).map (·.1)) := by
      intro depth hdepth
      have := ih h.code hdepth
      rwa [List.length_append, List.length_singleton] at this
    rw [closingAt?, if_pos (lt_of_scan h.scan_eq), h.regionAt?_code, getElem?_of_scan h.scan_eq]
    simp only [List.head?_cons, Option.map_some, Option.bind_eq_bind, Option.bind_some]
    rw [closingParen?_cons]
    by_cases hopen : b = Byte.openParen
    · subst hopen
      rw [if_pos (beq_self_eq_true _), if_neg (fun hsame => by cases hsame.1),
        hnext (Nat.le_add_left ..)]
      rfl
    rw [if_neg (by simpa using hopen)]
    by_cases hclose : b = Byte.closeParen
    · subst hclose
      rw [if_pos (beq_self_eq_true _), minus?_eq hdepth, Option.bind_some]
      by_cases hone : depth = 1
      · subst hone
        rw [if_pos rfl, if_pos ⟨rfl, rfl⟩]
        rfl
      · have hcast : (depth : Int) + turn ⟨Byte.closeParen, .code⟩ = ((depth - 1 : Nat) : Int) := by
          rw [turn_close]
          omega
        rw [if_neg (by omega), if_neg (by omega), hnext (by omega), hcast]
    · have hturn : turn ⟨b, .code⟩ = 0 := by simp [turn, Cell.isCode, hopen, hclose]
      rw [if_neg (by simpa using hclose), if_neg (by simp [hclose]), hnext hdepth, hturn,
        Int.add_zero]
  | @region kind b body rest hbody hrest ih =>
    have hmore := ih (h.region hbody hrest) hdepth
    rw [closingAt?, if_pos (lt_of_scan h.scan_eq), h.regionAt?_region hbody hrest]
    simp only
    rw [if_pos (by simp), hmore, ← List.cons_append, closingParen?_skip (isCode_region hbody),
      ← List.length_append]

/-- A comment is a gap, all of it. -/
theorem isGap_region {kind : Kind} {b : UInt8} {body : List Cell}
    (hbody : ∀ c ∈ body, c.mark = .inside kind) (hkind : kind.isComment = true) :
    ∀ c ∈ ⟨b, .opening kind⟩ :: body, c.isGap = true := by
  refine List.forall_mem_cons.2 ⟨hkind, fun c hc => ?_⟩
  simp [Cell.isGap, Cell.kind?, hbody c hc, hkind]

/-- Whether an expression goes on behind white space and comments. -/
theorem continuesFrom?_eq (h : Parting text pre ahead) :
    continuesFrom? text (regions text) pre.length = some (continuesExpression ahead) := by
  have hahead := h.ahead
  induction hahead generalizing pre with
  | nil =>
    have hlength := length_of_scan h.scan_eq
    rw [continuesFrom?, nextToken?, if_neg (by rw [hlength]; simp)]
    rfl
  | @code b rest hrest ih =>
    have hcell : text[pre.length]? = some b := getElem?_of_scan h.scan_eq
    rw [continuesFrom?, nextToken?, if_pos (lt_of_scan h.scan_eq), h.regionAt?_code, hcell]
    simp only [Option.bind_eq_bind, Option.bind_some]
    cases hblank : Byte.isBlank b with
    | true =>
      have hmore := ih h.code
      rw [List.length_append, List.length_singleton] at hmore
      have hgap : (⟨b, .code⟩ : Cell).isGap = true := hblank
      have hskip : continuesExpression (⟨b, .code⟩ :: rest) = continuesExpression rest := by
        rw [continuesExpression, List.dropWhile_cons_of_pos hgap]
        rfl
      rw [if_pos rfl, hskip, ← hmore]
      rfl
    | false =>
      have hgap : ¬ (⟨b, .code⟩ : Cell).isGap = true := by
        simpa [Cell.isGap, Cell.kind?] using hblank
      rw [if_neg Bool.false_ne_true, continuesExpression, List.dropWhile_cons_of_neg hgap]
      simp only [Option.pure_def, Option.bind_some, continues?, h.regionAt?_code, hcell]
      rfl
  | @region kind b body rest hbody hrest ih =>
    rw [continuesFrom?, nextToken?, if_pos (lt_of_scan h.scan_eq), h.regionAt?_region hbody hrest]
    simp only
    cases hkind : kind.isComment with
    | true =>
      have hmore := ih (h.region hbody hrest)
      have hskip : continuesExpression (⟨b, .opening kind⟩ :: (body ++ rest)) =
          continuesExpression rest := by
        rw [continuesExpression, ← List.cons_append,
          List.dropWhile_append_of_pos (isGap_region hbody hkind)]
        rfl
      rw [if_pos rfl, if_pos (by simp), hskip, ← hmore]
      rfl
    | false =>
      have hgap : ¬ (⟨b, .opening kind⟩ : Cell).isGap = true := by
        simp [Cell.isGap, Cell.kind?, hkind]
      rw [if_neg Bool.false_ne_true, continuesExpression, List.dropWhile_cons_of_neg hgap]
      simp only [Option.bind_eq_bind, Option.bind_some, continues?, h.regionAt?_region hbody hrest]
      simp [Cell.kind?, Cell.isCode]

/-- A statement ends where it ends for the library. -/
theorem endingAt?_eq (h : scan text = pre ++ ahead) (hlex : Lexed ahead) :
    endingAt? text (regions text) pre.length =
      some ((ending? pre.length ahead).map fun e => (e.stop, e.semicolon)) := by
  obtain ⟨g, m, rfl, hg, hm⟩ := skip_split Byte.isHorizontal ahead
  rw [endingAt?, skip?_eq h hg hm, ending?, skipWhile_append hg hm, Option.bind_eq_bind,
    Option.bind_some]
  have hplace : scan text = (pre ++ g) ++ m := by rw [h, List.append_assoc]
  rw [getElem?_of_scan hplace]
  cases m with
  | nil => rfl
  | cons c m =>
    have hregion : (regionAt? (regions text) (pre ++ g).length).isNone = c.isCode := by
      have := regionAt?_eq_none_iff hplace
      rw [Bool.eq_iff_iff, Option.isNone_iff_eq_none, this, Cell.isCode, beq_iff_eq]
    have hrest : Lexed (c :: m) :=
      (hlex.of_plain fun x hx => isPlain_of_isBlank (isBlank_of_isHorizontal (hg x hx))).2
    have hmore := continuesFrom?_eq (.of_lexed hplace hrest)
    rw [List.length_append] at hmore hregion ⊢
    simp only [List.head?_cons, Option.map_some, hregion, hmore]
    by_cases hsemi : (c.byte == Byte.semicolon) = true
    · rw [if_pos hsemi, if_pos hsemi]
      rfl
    rw [if_neg hsemi, if_neg hsemi]
    by_cases hbrace : (c.byte == Byte.closeBrace) = true
    · rw [if_pos hbrace, if_pos hbrace]
      rfl
    rw [if_neg hbrace, if_neg hbrace]
    cases c.byte == Byte.newline || c.byte == Byte.carriageReturn || c.byte == Byte.slash with
    | false => rfl
    | true =>
      rw [Option.bind_eq_bind, Option.bind_some]
      cases c.byte == Byte.slash && c.isCode with
      | true => rfl
      | false => cases continuesExpression (c :: m) <;> rfl

/-- What is removed with a statement is what the library removes. -/
theorem removalAt?_eq {behind : List Cell} (h : scan text = pre ++ behind) (cursor : Cursor)
    (semicolon : Bool) :
    removalAt? text cursor.offset pre.length cursor.lineStart cursor.startsLine =
      some (removal cursor ⟨pre.length, semicolon, behind⟩) := by
  obtain ⟨g, m, rfl, hg, hm⟩ := skip_split Byte.isHorizontal behind
  rw [removalAt?, skip?_eq h hg hm, removal, skipWhile_append hg hm, Option.bind_eq_bind,
    Option.bind_some, ← List.length_append]
  have hplace : scan text = (pre ++ g) ++ m := by rw [h, List.append_assoc]
  rw [getElem?_of_scan hplace]
  cases m with
  | nil => rfl
  | cons c m =>
    have hnext : text[(pre ++ g).length + 1]? = m.head?.map (·.byte) := by
      have := @getElem?_of_scan text (pre ++ g ++ [c]) m (by rw [hplace]; simp)
      rwa [@List.length_append _ (pre ++ g) [c], List.length_singleton] at this
    simp only [List.head?_cons, Option.map_some, hnext, lineEnd?]
    rfl

/-- A statement can begin where one can begin for the library. -/
theorem atStatement?_eq (h : scan text = pre ++ ahead) (keyword : Bytes) (n : Nat)
    (accepted : Option Span) :
    atStatement? text (.of n (.past keyword pre)) accepted =
      some (atStatement (.past keyword pre) accepted) := by
  have hlast : (Walker.of n (Cursor.past keyword pre)).lastCode =
      (Cursor.past keyword pre).lastCode.map (·.offset) := rfl
  rw [atStatement?, atStatement, Walker.insideGroup_of, hlast]
  rcases Cursor.last_split Cell.isSignificant pre with hnone | ⟨a, x, g, rfl, hx, hg⟩
  · rw [Cursor.lastCode_past_none keyword hnone]
    simp
  · have hbyte : text[a.length]? = some x.byte :=
      getElem?_of_scan (h.trans (List.append_assoc ..))
    rw [Cursor.lastCode_past keyword hx hg]
    simp only [Option.map_some, hbyte, Option.bind_eq_bind, Option.bind_some]
    cases accepted with
    | none => simp
    | some span =>
      cases hcontains : span.contains a.length <;> simp [hcontains]

end

/-! ## Judging -/

section
variable {text target : Bytes} {pre ahead : List Cell}

/-- Cells are ended, as a test of the last byte. -/
theorem ended_iff {cells : List Cell} :
    Ended cells ↔ cells.getLast?.any (isDottedByte ·.byte) = false := by
  unfold Ended
  cases cells.getLast? <;> simp

variable (ht : Dotted target)
include ht

/-- The target begins with a byte of a name. -/
theorem head?_any_isName : target.head?.any Byte.isName = true := by
  obtain ⟨b, name, rfl, hb⟩ := ht.head
  exact hb

/-- The parenthesis of a call is found. -/
theorem calledAt?_of_callAt (h : scan text = pre ++ ahead) {blanks : Bytes} {rest : List Cell}
    (hcall : CallAt target pre ahead blanks rest) :
    calledAt? text (regions text) target pre.length =
      some (some (pre.length + target.length + blanks.length)) := by
  have hname := precededBy?_of_scan isDottedByte h
  rw [ended_iff.1 hcall.boundary] at hname
  have hcells : scan text = (pre ++ codeCells target) ++
      (codeCells blanks ++ ⟨Byte.openParen, .code⟩ :: rest) := by
    rw [h, hcall.ahead_eq]
    simp
  have hregion : regionAt? (regions text) pre.length = none := by
    obtain ⟨b, name, rfl, -⟩ := ht.head
    rw [List.append_assoc, codeCells_cons, List.cons_append] at hcells
    exact (regionAt?_eq_none_iff hcells).2 rfl
  have hskip := skip?_eq (p := Byte.isBlank) hcells
    (fun c hc => hcall.blank _ (mem_codeCells.1 hc).1) (by rintro c ⟨⟩; rfl)
  have hparen := getElem?_of_scan (hcells.trans (List.append_assoc ..).symm)
  simp only [List.length_append, length_codeCells] at hskip hparen
  rw [calledAt?, hregion, head?_any_isName ht, if_pos rfl, hname]
  simp only [Option.isSome_none, Bool.false_eq_true, if_false, Option.bind_eq_bind,
    Option.bind_some, hskip, hparen]
  rfl

/-- Where there is no call, none is found. -/
theorem calledAt?_of_not_callAt (h : scan text = pre ++ ahead) (hspell : spells target ahead = true)
    (hcall : ∀ blanks rest, ¬ CallAt target pre ahead blanks rest) :
    calledAt? text (regions text) target pre.length = some none := by
  obtain ⟨name, rest, rfl, hname⟩ := spells_iff.1 hspell
  obtain ⟨g, m, rfl, hg, hm⟩ := skip_split Byte.isBlank rest
  have hcells : scan text = (pre ++ name) ++ (g ++ m) := by rw [h, List.append_assoc]
  have hlength : pre.length + target.length = (pre ++ name).length := by
    rw [← hname, List.length_map, List.length_append]
  have hparen := getElem?_of_scan (hcells.trans (List.append_assoc ..).symm)
  rw [calledAt?]
  split
  · rfl
  next hregion =>
  rw [head?_any_isName ht, if_pos rfl, precededBy?_of_scan isDottedByte h, Option.bind_eq_bind,
    Option.bind_some]
  cases hended : pre.getLast?.any (isDottedByte ·.byte) with
  | true => rfl
  | false =>
    simp only [Bool.false_eq_true, if_false, hlength, skip?_eq hcells hg hm, Option.bind_eq_bind,
      Option.bind_some, hparen]
    rw [if_neg]
    · rfl
    intro hopen
    cases m with
    | nil => cases hopen
    | cons d m =>
      have hd : d.byte = Byte.openParen := by simpa using hopen
      -- the name begins in code, and so everything up to the parenthesis is code
      have hlex : Lexed (name ++ (g ++ d :: m)) := by
        obtain ⟨b, bytes, hb, -⟩ := ht.head
        cases name with
        | nil =>
          rw [hb] at hname
          cases hname
        | cons x name =>
          have hcode : x.mark = .code :=
            (regionAt?_eq_none_iff h).1 (by simpa using hregion)
          exact Lexed.from_code (h ▸ Lexed.scan text) hcode
      exact hcall _ _ ⟨ended_iff.2 hended, List.forall_mem_map.2 hg, call_cells ht hlex hname hg hd⟩

end

/-- The walker has not gone beyond the given cells. -/
def Reached (keyword text : Bytes) (pre : List Cell) (w : Walker) : Prop :=
  ∃ q rest, w = .past keyword q ∧ q <+: pre ∧ Parting text q rest

section
variable {keyword text : Bytes} {pre ahead : List Cell}

/-- A walker that has not gone beyond some cells has not gone beyond more. -/
theorem Reached.mono {w : Walker} (h : Reached keyword text pre w) (more : List Cell) :
    Reached keyword text (pre ++ more) w := by
  obtain ⟨q, rest, hw, hq, hparting⟩ := h
  exact ⟨q, rest, hw, hq.trans (List.prefix_append _ _), hparting⟩

/-- A walker stands right behind the cells that it passed. -/
theorem reached_past (keyword : Bytes) (h : Parting text pre ahead) :
    Reached keyword text pre (.past keyword pre) :=
  ⟨pre, ahead, rfl, List.prefix_refl _, h⟩

/-- A walker that has not gone too far can be advanced. -/
theorem Reached.advanceTo? {w : Walker} (htext : Aligned text) (hw : Reached keyword text pre w)
    (h : Parting text pre ahead) :
    w.advanceTo? keyword text (regions text) pre.length = some (.past keyword pre) := by
  obtain ⟨q, rest, rfl, ⟨mid, rfl⟩, hq⟩ := hw
  obtain rfl : rest = mid ++ ahead := by
    have := hq.scan_eq.symm.trans h.scan_eq
    rw [List.append_assoc] at this
    exact List.append_cancel_left this
  have hcursor : Cursor.advance keyword (q ++ mid).length (.past keyword q) (mid ++ ahead) =
      (.past keyword (q ++ mid), ahead) := by
    have hadv := Cursor.advance_eq keyword mid h.ahead.not_isInside (.past keyword q)
    rw [Cursor.offset_past, ← List.length_append] at hadv
    rw [hadv, Cursor.past, Cursor.past, List.foldl_append]
  have hfollows : Walker.Follows keyword text (.past keyword q) (.past keyword q) (mid ++ ahead) :=
    ⟨q, rfl, rfl, hq⟩
  obtain ⟨w, hw, hthere⟩ := hfollows.advanceTo? htext (q ++ mid).length
  rw [hcursor] at hthere
  rw [hw, hthere.unique ⟨q ++ mid, rfl, rfl, h⟩]

/-- Whether a statement can begin does not depend on the keyword of the walker. -/
theorem atStatement_keyword (keyword keyword' : Bytes) (cells : List Cell)
    (accepted : Option Span) : atStatement (.past keyword' cells) accepted =
      atStatement (.past keyword cells) accepted := by
  obtain ⟨hlast, -, hgroup⟩ := past_keyword keyword keyword' cells
  rw [atStatement, atStatement, hlast, hgroup]

/-- The parenthesis that closes a call is found, starting at the one that it closes. -/
theorem closingAt?_open {rest : List Cell}
    (h : Parting text pre (⟨Byte.openParen, .code⟩ :: rest)) :
    closingAt? text (regions text) pre.length 0 =
      some ((closingParen? 1 (pre.length + 1) rest).map (·.1)) := by
  have hmore := closingAt?_eq h.code (Nat.le_refl 1)
  rw [List.length_append, List.length_singleton] at hmore
  rw [closingAt?, if_pos (lt_of_scan h.scan_eq), h.regionAt?_code, getElem?_of_scan h.scan_eq]
  exact hmore

/-- The site of a statement has what the library reads off the cells. -/
theorem siteAt?_eq (htext : Aligned text) (h : scan text = pre ++ ahead) (keyword : Bytes)
    {opening arguments behind upto after : List Cell}
    (hlisted : scan text = opening ++ arguments ++ ⟨Byte.closeParen, .code⟩ :: behind)
    (hopening : Ended opening) (hstop : scan text = upto ++ after) (semicolon : Bool) :
    siteAt? text (Cursor.past keyword pre).lineStart ⟨pre.length, upto.length⟩
        ⟨opening.length, (opening ++ arguments).length⟩ semicolon =
      some {
        start := pre.length
        stop := upto.length
        line := (Cursor.past keyword pre).line
        arguments := arguments.map (·.byte)
        semicolon
        lineStart := (Cursor.past keyword pre).lineStart
        startsLine := (Cursor.past keyword pre).startsLine
        removal := removal (.past keyword pre) ⟨upto.length, semicolon, after⟩
        redirection := none } := by
  have hremoval := removalAt?_eq hstop (.past keyword pre) semicolon
  have hcut := cut?_of_scan hlisted
    (isCut_of_ended htext (hlisted.trans (List.append_assoc ..)) hopening)
    (isCut_closeParen hlisted)
  rw [Cursor.offset_past] at hremoval
  rw [(line_past_split h).2]
  obtain ⟨up, row, rfl, hup, hrow⟩ := Cursor.line_split pre
  have hline := Cursor.lineStart_past keyword hup hrow
  have hstarts : (row.map (·.byte)).all Byte.isHorizontal =
      (Cursor.past keyword (up ++ row)).startsLine := by
    rw [Cursor.startsLine_past keyword hup hrow, List.all_map]
    rfl
  have hread : text.range? ⟨(Cursor.past keyword (up ++ row)).lineStart, (up ++ row).length⟩ =
      some (row.map (·.byte)) := by
    rw [hline]
    exact range?_of_scan h
  simp only [siteAt?, hread, Option.bind_eq_bind, Option.bind_some, hstarts, hremoval, hcut]
  rfl

/-- The same for a statement that ends as the library says. -/
theorem siteAt?_of_ending (htext : Aligned text) (h : scan text = pre ++ ahead) (keyword : Bytes)
    {opening arguments behind : List Cell}
    (hlisted : scan text = opening ++ arguments ++ ⟨Byte.closeParen, .code⟩ :: behind)
    (hopening : Ended opening) {e : Ending}
    (hend : ending? ((opening ++ arguments).length + 1) behind = some e) :
    siteAt? text (Cursor.past keyword pre).lineStart ⟨pre.length, e.stop⟩
        ⟨opening.length, (opening ++ arguments).length⟩ e.semicolon =
      some {
        start := pre.length
        stop := e.stop
        line := (Cursor.past keyword pre).line
        arguments := arguments.map (·.byte)
        semicolon := e.semicolon
        lineStart := (Cursor.past keyword pre).lineStart
        startsLine := (Cursor.past keyword pre).startsLine
        removal := removal (.past keyword pre) e
        redirection := none } := by
  have hlex : Lexed behind := Lexed.of_code (hlisted ▸ Lexed.scan text) rfl
  obtain ⟨tail, -, rfl, he⟩ := ending?_tail hlex hend
  have hstop : scan text = (opening ++ arguments ++ [⟨Byte.closeParen, .code⟩] ++
      Statement.tailCells tail) ++ e.ahead := by
    rw [hlisted]
    simp
  have hlength : (opening ++ arguments ++ [(⟨Byte.closeParen, .code⟩ : Cell)] ++
      Statement.tailCells tail).length = e.stop := by
    rw [he, List.length_append, @List.length_append _ (opening ++ arguments), List.length_singleton]
  have hsite := siteAt?_eq htext h keyword hlisted hopening hstop e.semicolon
  rwa [hlength] at hsite

/-- A call is judged as the library judges it. -/
theorem statementAt?_eq {target : Bytes} (ht : Dotted target) (htext : Aligned text)
    (h : scan text = pre ++ ahead) {blanks : Bytes} {rest : List Cell}
    (hcall : CallAt target pre ahead blanks rest) {w : Walker} (hw : Reached [] text pre w)
    (keyword : Bytes) (accepted : Option Span) :
    ∃ w', statementAt? text (regions text) accepted w pre.length
        (pre.length + target.length + blanks.length) =
          some ((judge target accepted (.past keyword pre) ahead).unplaced, w') ∧
      Reached [] text pre w' := by
  have hlex : Lexed ahead := by
    obtain ⟨b, name, rfl, -⟩ := ht.head
    have := h ▸ Lexed.scan text
    rw [hcall.ahead_eq] at this ⊢
    exact Lexed.from_code this rfl
  have hpre : Parting text pre ahead := .of_lexed h hlex
  have hname : scan text = (pre ++ codeCells target ++ codeCells blanks) ++
      ⟨Byte.openParen, .code⟩ :: rest := by
    rw [h, hcall.ahead_eq]
    simp
  have hopened : (pre ++ codeCells target ++ codeCells blanks).length =
      pre.length + target.length + blanks.length := by simp [Nat.add_assoc]
  have hclosing := closingAt?_open (.of_scan hname (by rintro c ⟨⟩; rfl))
  rw [hopened] at hclosing
  rw [judge_of_callAt ht keyword accepted hcall, statementAt?, hclosing]
  simp only [Option.bind_eq_bind, Option.bind_some]
  cases hclose : closingParen? 1 (pre.length + target.length + blanks.length + 1) rest with
  | none => exact ⟨w, rfl, hw⟩
  | some p =>
    obtain ⟨closed, behind⟩ := p
    obtain ⟨arguments, rfl, rfl, -⟩ := (closingParen?_eq_some_iff (Int.le_refl 1)).1 hclose
    have hposition := atStatement?_eq h [] (regionsFrom 0 [] pre).length accepted
    rw [atStatement_keyword keyword] at hposition
    refine ⟨.past [] pre, ?_, reached_past [] hpre⟩
    simp only [Option.map_some, hw.advanceTo? htext hpre, Option.bind_some]
    rw [Walker.past, hposition, Option.bind_some]
    cases atStatement (.past keyword pre) accepted with
    | false => rfl
    | true =>
    -- the cells in front of the arguments, by which all offsets behind the name are given
    obtain ⟨opening, hopening⟩ : ∃ opening, opening = pre ++ codeCells target ++ codeCells blanks ++
      [⟨Byte.openParen, .code⟩] := ⟨_, rfl⟩
    have hstart : pre.length + target.length + blanks.length + 1 = opening.length := by
      rw [hopening, List.length_append, hopened, List.length_singleton]
    have hlisted : scan text = opening ++ arguments ++ ⟨Byte.closeParen, .code⟩ :: behind := by
      rw [hname, hopening]
      simp
    have hending := @endingAt?_eq text (opening ++ arguments ++ [⟨Byte.closeParen, .code⟩]) behind
      (by rw [hlisted]; simp) (Lexed.of_code (hlisted ▸ Lexed.scan text) rfl)
    have htake : (arguments ++ ⟨Byte.closeParen, .code⟩ :: behind).take
        (opening.length + arguments.length - (pre.length + target.length + blanks.length) - 1) =
          arguments := by
      have hcount : opening.length + arguments.length -
          (pre.length + target.length + blanks.length) - 1 = arguments.length := by omega
      rw [hcount, List.take_left]
    rw [List.length_append, List.length_singleton, List.length_append] at hending
    simp only [Bool.not_true, Bool.false_eq_true, if_false, hstart, hending, Option.bind_some]
    cases hend : ending? (opening.length + arguments.length + 1) behind with
    | none => rfl
    | some e =>
      have hline : (Walker.of (regionsFrom 0 [] pre).length (.past [] pre)).lineStart =
          (Cursor.past keyword pre).lineStart := (past_keyword keyword [] pre).2.1
      have hsite := siteAt?_of_ending htext h keyword hlisted
        (hopening ▸ ended_snoc.2 rfl) (by rwa [List.length_append])
      rw [List.length_append] at hsite
      simp only [Option.map_some, hline, hsite, Option.bind_some, htake]
      rfl

/-- A place where the target is spelled out is judged as the library judges it. -/
theorem judgeAt?_eq {target : Bytes} (ht : Dotted target) (htext : Aligned text)
    (h : scan text = pre ++ ahead) (hspell : spells target ahead = true) {w : Walker}
    (hw : Reached [] text pre w) (keyword : Bytes) (accepted : Option Span) :
    ∃ w', judgeAt? text (regions text) target accepted w pre.length =
        some ((judge target accepted (.past keyword pre) ahead).unplaced, w') ∧
      Reached [] text pre w' := by
  by_cases hcall : ∃ blanks rest, CallAt target pre ahead blanks rest
  · obtain ⟨blanks, rest, hcall⟩ := hcall
    rw [judgeAt?, calledAt?_of_callAt ht h hcall]
    exact statementAt?_eq ht htext h hcall hw keyword accepted
  · have hnone : ∀ blanks rest, ¬ CallAt target pre ahead blanks rest := fun blanks rest hat =>
      hcall ⟨blanks, rest, hat⟩
    have hjudge : judge target accepted (.past keyword pre) ahead = .ignored :=
      Decidable.byContradiction fun hne =>
        hcall (callAt_of_judge ht (h ▸ Lexed.scan text) hspell hne)
    rw [judgeAt?, calledAt?_of_not_callAt ht h hspell hnone, hjudge]
    exact ⟨w, rfl, hw⟩

end

end LogSweep.Checked
