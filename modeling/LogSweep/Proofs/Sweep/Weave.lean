import LogSweep.Proofs.Call.Run
import LogSweep.Sweep.Script

/-!
# What a sweep keeps and what it replaces

The cells of a text are kept parts and statements in turn, and the swept text is woven from the same
kept parts and what the statements are replaced by. `Weave` puts the two side by side, with the
sites in order. Every run of the search over lexed cells gives a weave (`Run.weave`): a removal that
takes a whole line never reaches back into the statement before. A kept part in front of a statement
is whole (`Cut.whole_kept`), so the woven cells are the cells of the swept text
(`Weave.lexed_out`).
-/

namespace LogSweep

open Lexical Block Call

/-! ## In front of a statement -/

/-- Cells whose last significant one, if there is one, ends a statement or opens or closes a
block. -/
def Rests (cells : List Cell) : Prop :=
  ∀ a x g, cells = a ++ x :: g → x.isSignificant = true → (∀ y ∈ g, y.isSignificant = false) →
    x.byte = Byte.semicolon ∨ x.byte = Byte.openBrace ∨ x.byte = Byte.closeBrace

/-- Code cells that are white space. -/
def Blanks (cells : List Cell) : Prop :=
  ∀ c ∈ cells, c.mark = .code ∧ Byte.isBlank c.byte = true

theorem Blanks.nil : Blanks [] := by
  intro c hc
  cases hc

/-- Blanks behind blanks are blanks. -/
theorem Blanks.append {a b : List Cell} (ha : Blanks a) (hb : Blanks b) : Blanks (a ++ b) := by
  intro c hc
  rcases List.mem_append.1 hc with hc | hc
  · exact ha c hc
  · exact hb c hc

/-- Blanks are not significant. -/
theorem Blanks.not_significant {cells : List Cell} (h : Blanks cells) :
    ∀ c ∈ cells, c.isSignificant = false := by
  intro c hc
  simp [Cell.isSignificant, (h c hc).2]

/-- No name goes on behind blanks. -/
theorem Blanks.ended {cells : List Cell} (h : Blanks cells) : Ended cells := by
  intro c hc
  exact not_isDottedByte_of_isBlank (h c (List.mem_of_getLast? hc)).2

/-- The end of a stretch that rests does so too. -/
theorem Rests.of_append {a b : List Cell} (h : Rests (a ++ b)) : Rests b := by
  rintro a' x g rfl hx hg
  exact h (a ++ a') x g (by simp) hx hg

/-- Blanks at the end do not matter to whether a stretch rests. -/
theorem Rests.of_blanks {a b : List Cell} (h : Rests (a ++ b)) (hb : Blanks b) : Rests a := by
  rintro a' x g rfl hx hg
  refine h a' x (g ++ b) (by simp) hx fun y hy => ?_
  rcases List.mem_append.1 hy with hy | hy
  · exact hg y hy
  · exact hb.not_significant y hy

/-- White space in front of a code cell of a name is code. -/
theorem blanks_of_next {a indent rest : List Cell} {c : Cell}
    (h : Lexed (a ++ indent ++ c :: rest)) (hindent : ∀ x ∈ indent, Byte.isHorizontal x.byte)
    (hc : c.mark = .code) (hb : c.byte ≠ Byte.newline) : Blanks indent := by
  induction indent using List.reverseRecOn generalizing c rest with
  | nil => exact .nil
  | append_singleton indent x ih =>
    have hx : Byte.isHorizontal x.byte := hindent x (by simp)
    have hcode : x.mark = .code := by
      by_contra hne
      have hlex : Lexed (a ++ indent ++ x :: c :: rest) := by simpa using h
      rcases hlex.region_end hne hc with hend | ⟨hend, -⟩ | hend | hend | hend
      · exact hb hend
      all_goals rw [hend] at hx; cases hx
    have hlex : Lexed (a ++ indent ++ x :: c :: rest) := by simpa using h
    refine .append (ih hlex (fun y hy => hindent y (List.mem_append_left _ hy)) hcode
      (Cursor.not_newline_of_horizontal hx)) ?_
    intro y hy
    rw [List.mem_singleton.1 hy]
    exact ⟨hcode, isBlank_of_isHorizontal hx⟩

/-- A statement ends with a parenthesis or a semicolon in code. -/
theorem Call.Statement.cells_eq_snoc (function : Bytes) (s : Statement) :
    ∃ init z, s.cells function = init ++ [z] ∧ z.mark = .code ∧
      (z.byte = Byte.closeParen ∨ z.byte = Byte.semicolon) := by
  obtain ⟨blanks, arguments, tail, -, -, -⟩ := s
  cases tail with
  | none =>
    exact ⟨codeCells function ++ codeCells blanks ++ ⟨Byte.openParen, .code⟩ :: arguments,
      ⟨Byte.closeParen, .code⟩, by simp [Statement.cells, Statement.tailCells], rfl, .inl rfl⟩
  | some bytes =>
    exact ⟨codeCells function ++ codeCells blanks ++ ⟨Byte.openParen, .code⟩ ::
      (arguments ++ ⟨Byte.closeParen, .code⟩ :: codeCells bytes),
      ⟨Byte.semicolon, .code⟩, by simp [Statement.cells, Statement.tailCells], rfl, .inr rfl⟩

/-- No name goes on behind a statement. -/
theorem Call.Statement.ended (function : Bytes) (s : Statement) : Ended (s.cells function) := by
  obtain ⟨init, z, hz, -, hbyte⟩ := s.cells_eq_snoc function
  rw [hz, ended_snoc]
  rcases hbyte with hbyte | hbyte <;> rw [hbyte] <;> rfl

/-- A call statement comes at rest behind the statement accepted last. -/
theorem rests_of_atStatement {keyword : Bytes} {accepted : Option Span} {pre kept : List Cell}
    (hacc : ∀ span ∈ accepted, span.stop ≤ pre.length)
    (h : atStatement (.past keyword (pre ++ kept)) accepted = true) : Rests kept := by
  rintro a x g rfl hx hg
  rw [← List.append_assoc, atStatement, Cursor.lastCode_past keyword hx hg, Bool.and_eq_true] at h
  have hpos := h.2
  simp only [Bool.or_eq_true, beq_iff_eq] at hpos
  rcases hpos with ((hspan | hb) | hb) | hb
  · -- the last significant cell would lie in the accepted statement
    exfalso
    cases accepted with
    | none => cases hspan
    | some span =>
      have hstop := hacc span rfl
      simp only [Span.contains, List.length_append, Bool.and_eq_true, decide_eq_true_eq] at hspan
      omega
  · exact .inl hb
  · exact .inr (.inl hb)
  · exact .inr (.inr hb)

/-! ## Places without a statement -/

/-- A call statement begins between `pre` and `ahead`. -/
def Begins (target keyword : Bytes) (accepted : Option Span) (pre ahead : List Cell) : Prop :=
  ∃ s behind, ahead = Statement.cells target s ++ behind ∧
    StatementAt target keyword accepted pre s behind

/-- No call statement begins in `kept`, which stands between `pre` and `rest`. -/
def Quiet (target keyword : Bytes) (accepted : Option Span) (pre kept rest : List Cell) : Prop :=
  ∀ a c b, kept = a ++ c :: b → ¬ Begins target keyword accepted (pre ++ a) (c :: b ++ rest)

section
variable {target keyword : Bytes} {accepted : Option Span} {pre a b rest : List Cell} {c : Cell}

theorem Quiet.nil : Quiet target keyword accepted pre [] rest := by
  intro a c b h
  cases a <;> cases h

/-- A quiet stretch grows by a cell where no statement begins. -/
theorem Quiet.cons (hc : ¬ Begins target keyword accepted pre (c :: b ++ rest))
    (hb : Quiet target keyword accepted (pre ++ [c]) b rest) :
    Quiet target keyword accepted pre (c :: b) rest := by
  intro a x b' h
  cases a with
  | nil =>
    obtain ⟨rfl, rfl⟩ := List.cons.inj h
    simpa using hc
  | cons y a =>
    obtain ⟨rfl, rfl⟩ := List.cons.inj h
    simpa using hb a x b' rfl

/-- Two quiet stretches make a quiet one. -/
theorem Quiet.append (ha : Quiet target keyword accepted pre a (b ++ rest))
    (hb : Quiet target keyword accepted (pre ++ a) b rest) :
    Quiet target keyword accepted pre (a ++ b) rest := by
  induction a generalizing pre with
  | nil => simpa using hb
  | cons c a ih =>
    refine .cons (by simpa using ha [] c a rfl) (ih (fun a' x b' h => ?_) (by simpa using hb))
    simpa using ha (c :: a') x b' (by rw [h]; rfl)

/-- The start of a quiet stretch is quiet. -/
theorem Quiet.left (h : Quiet target keyword accepted pre (a ++ b) rest) :
    Quiet target keyword accepted pre a (b ++ rest) := by
  rintro a' c b' rfl
  simpa using h a' c (b' ++ b) (by simp)

/-- The end of a quiet stretch is quiet. -/
theorem Quiet.right (h : Quiet target keyword accepted pre (a ++ b) rest) :
    Quiet target keyword accepted (pre ++ a) b rest := by
  rintro a' c b' rfl
  simpa using h (a ++ a') c b' (by simp)

/-- A stretch is quiet when both its parts are. -/
theorem quiet_append_iff : Quiet target keyword accepted pre (a ++ b) rest ↔
    Quiet target keyword accepted pre a (b ++ rest) ∧
      Quiet target keyword accepted (pre ++ a) b rest :=
  ⟨fun h => ⟨h.left, h.right⟩, fun h => h.1.append h.2⟩

/-- No statement begins with a byte that is no part of a name. -/
theorem not_begins_of_undotted (ht : Dotted target) (hc : isDottedByte c.byte = false) :
    ¬ Begins target keyword accepted pre (c :: rest) := by
  rintro ⟨s, behind, hs, -⟩
  obtain ⟨x, tl, hx, -, hname⟩ := s.cells_eq_cons ht
  rw [hx, List.cons_append] at hs
  rw [(List.cons.inj hs).1, isDottedByte, hname] at hc
  cases hc

/-- Where there are no names no statement begins. -/
theorem Quiet.of_undotted (ht : Dotted target) (hb : ∀ c ∈ b, isDottedByte c.byte = false) :
    Quiet target keyword accepted pre b rest := by
  rintro a c b' rfl
  exact not_begins_of_undotted ht (hb c (by simp))

/-- No statement begins with white space. -/
theorem Quiet.of_blanks (ht : Dotted target) (hb : Blanks b) :
    Quiet target keyword accepted pre b rest :=
  .of_undotted ht fun c hc => not_isDottedByte_of_isBlank (hb c hc).2

/-- No statement begins at a place that is refused. -/
theorem not_begins_of_judge (ht : Dotted target) {ahead : List Cell}
    (h : ∀ site, judge target accepted (.past keyword pre) ahead ≠ .accepted site) :
    ¬ Begins target keyword accepted pre ahead := by
  rintro ⟨s, behind, rfl, hat⟩
  exact h _ (hat.judge_eq ht)

/-- A statement is a call. -/
theorem Call.StatementAt.callAt {s : Statement} {behind : List Cell}
    (h : StatementAt target keyword accepted pre s behind) :
    CallAt target pre (s.cells target ++ behind) s.blanks
      (s.arguments ++ ⟨Byte.closeParen, .code⟩ :: (Statement.tailCells s.tail ++ behind)) :=
  ⟨h.boundary, s.isBlank, by simp [Statement.cells]⟩

end

/-! ## Weaves -/

/-- A statement and the blanks that go with it, cut out between a kept part and `src`. In front of
the kept part stands `pre`, up to the statement accepted last or the blanks behind it. -/
structure Cut (target keyword : Bytes) (accepted : Option Span) (pre kept indent : List Cell)
    (s : Statement) (extra src : List Cell) : Prop where
  lexed : Lexed (kept ++ (indent ++ s.cells target ++ extra) ++ src)
  rests : Rests kept
  ended : Ended kept
  indent_row : ∀ c ∈ indent, Byte.isHorizontal c.byte
  indent_blanks : Blanks indent
  extra_blanks : Blanks extra
  quiet : Quiet target keyword accepted pre kept (indent ++ s.cells target ++ extra ++ src)

/-- The statement as it is written when it is redirected: without blanks around its parentheses. -/
def Call.Statement.tidy (s : Statement) : Statement where
  blanks := []
  arguments := s.arguments
  tail := s.tail.map fun _ => []
  isBlank := by simp
  balanced := s.balanced
  isHorizontal := by
    rintro bytes hbytes b hb
    obtain ⟨_, -, rfl⟩ := Option.map_eq_some_iff.1 hbytes
    cases hb

/-- A text from `pre` on, with its sites and the statement accepted last before them, and the swept
text. -/
inductive Weave (target keyword replacement : Bytes) :
    List Cell → Option Span → List Site → List Cell → List Cell → Prop
  | done {pre kept : List Cell} {accepted : Option Span} (hlex : Lexed kept)
      (hquiet : Quiet target keyword accepted pre kept []) :
      Weave target keyword replacement pre accepted [] kept kept
  | deleted {pre kept indent gap brk src out : List Cell} {accepted : Option Span} {s : Statement}
      {sites : List Site} {site : Site}
      (hcut : Cut target keyword accepted pre kept indent s (gap ++ brk) src)
      (hsite : site = s.site target keyword (pre ++ kept ++ indent) (gap ++ brk ++ src))
      (hred : site.redirection = none)
      (hrem : site.removal = ⟨(pre ++ kept).length,
        (pre ++ kept ++ indent ++ s.cells target ++ gap ++ brk).length⟩)
      (hrest : Weave target keyword replacement
        (pre ++ kept ++ indent ++ s.cells target ++ gap ++ brk) (some site.span) sites src out) :
      Weave target keyword replacement pre accepted (site :: sites)
        (kept ++ (indent ++ s.cells target ++ (gap ++ brk)) ++ src) (kept ++ out)
  | redirected {pre kept src out : List Cell} {accepted : Option Span} {s : Statement}
      {sites : List Site} {site : Site} {r : Redirection}
      (hcut : Cut target keyword accepted pre kept [] s [] src)
      (hsite : site = s.site target keyword (pre ++ kept) src)
      (hred : site.redirection = some r)
      (hrest : Weave target keyword replacement (pre ++ kept ++ s.cells target) (some site.span)
        sites src out) :
      Weave target keyword replacement pre accepted (site :: sites)
        (kept ++ s.cells target ++ src)
        (kept ++ (codeCells r.lead ++ s.tidy.cells replacement) ++ out)

/-- A run that accepts nothing finds no place where a statement begins. -/
theorem Call.Run.quiet {target keyword : Bytes} (ht : Dotted target) {pre ahead : List Cell}
    {accepted : Option Span} {refused : List Refused}
    (h : Run target keyword pre accepted ahead [] refused) :
    Quiet target keyword accepted pre ahead [] := by
  generalize hall : ([] : List Site) = all at h
  induction h with
  | done => exact .nil
  | @pass pre ahead c accepted _ refused hcall hrun ih =>
    refine .cons ?_ (ih hall)
    rintro ⟨s, behind, hs, hat⟩
    exact hcall _ _ (by simpa [← hs] using hat.callAt)
  | @refuse pre ahead rest c blanks accepted reason _ refused hcall hjudge hrun ih =>
    refine .cons (not_begins_of_judge ht fun site => ?_) (ih hall)
    rw [List.append_nil, hjudge]
    exact Verdict.noConfusion
  | accept => cases hall

/-- The first statement that a run accepts. -/
theorem Call.Run.split {target keyword : Bytes} (ht : Dotted target) {pre ahead : List Cell}
    {accepted : Option Span} {site : Site} {sites : List Site} {refused : List Refused}
    (h : Run target keyword pre accepted ahead (site :: sites) refused) :
    ∃ between s, ∃ cl : Clearing, ∃ refused',
      pre ++ between = cl.up ++ cl.indent ∧
      ahead = between ++ s.cells target ++ (cl.gap ++ cl.brk ++ cl.rest) ∧
      Quiet target keyword accepted pre between (s.cells target ++ (cl.gap ++ cl.brk ++ cl.rest)) ∧
      site = s.site target keyword (cl.up ++ cl.indent) (cl.gap ++ cl.brk ++ cl.rest) ∧
      StatementAt target keyword accepted (cl.up ++ cl.indent) s (cl.gap ++ cl.brk ++ cl.rest) ∧
      site.removal = ⟨cl.up.length,
        (cl.up ++ cl.indent ++ s.cells target ++ cl.gap ++ cl.brk).length⟩ ∧
      Run target keyword (cl.up ++ cl.indent ++ s.cells target ++ cl.gap ++ cl.brk)
        (some site.span) cl.rest sites refused' := by
  generalize hall : site :: sites = all at h
  induction h with
  | done => cases hall
  | @pass pre ahead c accepted _ refused hcall hrun ih =>
    obtain ⟨between, s, cl, refused', hup, rfl, hquiet, hrest⟩ := ih hall
    refine ⟨c :: between, s, cl, refused', by simpa using hup, by simp, .cons ?_ hquiet, hrest⟩
    rintro ⟨s', behind, hs, hat⟩
    exact hcall _ _ (by simpa [← hs] using hat.callAt)
  | @refuse pre ahead rest c blanks accepted reason _ refused hcall hjudge hrun ih =>
    obtain ⟨between, s, cl, refused', hup, rfl, hquiet, hrest⟩ := ih hall
    refine ⟨c :: between, s, cl, refused', by simpa using hup, by simp, .cons ?_ hquiet, hrest⟩
    refine not_begins_of_judge ht fun site => ?_
    rw [List.cons_append, ← List.append_assoc, hjudge]
    exact Verdict.noConfusion
  | @accept pre behind accepted s _ refused hat cl hpre hbehind hcl hrun =>
    obtain ⟨rfl, rfl⟩ := List.cons.inj hall
    subst hpre hbehind
    exact ⟨[], s, cl, refused, by simp, by simp, .nil, rfl, hat,
      by rw [hcl]; simp [Nat.add_assoc], hrun⟩

/-- No removal reaches back over `pre`: it does not end with a blank, or a line break follows it. -/
def Edge (pre rest : List Cell) : Prop :=
  (∀ c, pre.getLast? = some c → Byte.isHorizontal c.byte = false) ∨
    ∀ c, rest.head? = some c → c.byte = Byte.newline ∨ c.byte = Byte.carriageReturn

/-- The indentation in front of a statement lies behind what was cut out before. -/
theorem Edge.split {pre between up indent rest : List Cell} {c : Cell}
    (h : Edge pre (between ++ c :: rest)) (hc : Byte.isName c.byte)
    (heq : pre ++ between = up ++ indent) (hindent : ∀ x ∈ indent, Byte.isHorizontal x.byte) :
    ∃ kept, up = pre ++ kept ∧ between = kept ++ indent := by
  rcases List.append_eq_append_iff.1 heq with ⟨kept, hup, hbetween⟩ | ⟨passed, hpre, hind⟩
  · exact ⟨kept, hup, hbetween⟩
  · rcases List.eq_nil_or_concat passed with rfl | ⟨init, x, rfl⟩
    · exact ⟨[], by simpa using hpre.symm, by simpa using hind.symm⟩
    · exfalso
      rcases h with hlast | hhead
      · have := hlast x (by rw [hpre]; simp)
        rw [hindent x (by rw [hind]; simp)] at this
        cases this
      · cases between with
        | nil => rcases hhead c rfl with hb | hb <;> rw [hb] at hc <;> cases hc
        | cons y between =>
          have hy := hindent y (by rw [hind]; simp)
          rcases hhead y rfl with hb | hb <;> rw [hb] at hy <;> cases hy

/-- Bytes of names are no newlines. -/
theorem not_newline_of_name {b : UInt8} (h : Byte.isName b) : b ≠ Byte.newline := by
  rintro rfl
  cases h

/-- White space is what goes with a statement behind it. -/
theorem Call.Clearing.isBlank (cl : Clearing) : ∀ c ∈ cl.gap ++ cl.brk, Byte.isBlank c.byte := by
  intro c hc
  rcases List.mem_append.1 hc with hc | hc
  · exact isBlank_of_isHorizontal (cl.gap_blank c hc)
  · have hmem : c.byte ∈ cl.brk.map (·.byte) := List.mem_map_of_mem hc
    rcases cl.shape with ⟨-, hbrk | hbrk | ⟨hbrk, -⟩⟩ | ⟨-, hbrk, -⟩
    · rw [hbrk, List.mem_singleton] at hmem
      rw [hmem]
      rfl
    · rw [hbrk] at hmem
      rcases List.mem_cons.1 hmem with hmem | hmem
      · rw [hmem]; rfl
      · rw [List.mem_singleton.1 hmem]; rfl
    · rw [hbrk] at hc
      cases hc
    · rw [hbrk] at hc
      cases hc

/-- The blanks behind a statement are code, and so is the line break. -/
theorem Call.Clearing.blanks (cl : Clearing) (h : Lexed (cl.gap ++ cl.brk ++ cl.rest)) :
    Blanks (cl.gap ++ cl.brk) ∧ Lexed cl.rest := by
  obtain ⟨hcells, hrest⟩ := h.of_plain fun c hc => isPlain_of_isBlank (cl.isBlank c hc)
  refine ⟨fun c hc => ⟨?_, cl.isBlank c hc⟩, hrest⟩
  rw [hcells] at hc
  exact (mem_codeCells.1 hc).2

/-- Nothing that is removed later reaches back over what is removed here. -/
theorem Call.Clearing.edge (cl : Clearing) {a : List Cell} {z : Cell}
    (hz : Byte.isHorizontal z.byte = false) : Edge (a ++ [z] ++ (cl.gap ++ cl.brk)) cl.rest := by
  have hgap : cl.gap = [] → cl.brk = [] → Edge (a ++ [z] ++ (cl.gap ++ cl.brk)) cl.rest := by
    intro hgap hbrk
    refine .inl fun c hc => ?_
    rw [hgap, hbrk, List.append_nil, List.append_nil, List.getLast?_concat] at hc
    rwa [← Option.some.inj hc]
  have hbreak : ∀ brk rest, cl.rest = brk ++ rest → IsBreak brk rest → Edge
      (a ++ [z] ++ (cl.gap ++ cl.brk)) cl.rest := by
    rintro brk rest hrest hbrk
    refine .inr fun c hc => ?_
    rw [hrest] at hc
    rcases brk with _ | ⟨x, brk⟩
    · rcases hbrk with hbrk | hbrk | ⟨-, rfl⟩
      · cases hbrk
      · cases hbrk
      · cases hc
    · cases hc
      rcases hbrk with hbrk | hbrk | ⟨hbrk, -⟩
      · exact .inl (List.cons.inj hbrk).1
      · exact .inr (List.cons.inj hbrk).1
      · cases hbrk
  rcases cl.shape with ⟨-, hbrk⟩ | ⟨-, hbrk, hgap' | ⟨brk, rest, hrest, hbrk'⟩⟩
  · rcases List.eq_nil_or_concat cl.brk with hnil | ⟨init, x, hx⟩
    · rcases hbrk with hbrk | hbrk | ⟨-, hrest⟩
      · rw [hnil] at hbrk; cases hbrk
      · rw [hnil] at hbrk; cases hbrk
      · exact hbreak [] [] hrest (.inr (.inr ⟨rfl, rfl⟩))
    · refine .inl fun c hc => ?_
      have hall : a ++ [z] ++ (cl.gap ++ cl.brk) = (a ++ [z] ++ cl.gap ++ init) ++ [x] := by
        simp [hx]
      rw [hall, List.getLast?_concat] at hc
      have hnl : x.byte = Byte.newline := by
        rw [hx] at hbrk
        rcases hbrk with hbrk | hbrk | ⟨hbrk, -⟩
        · cases init <;> simp at hbrk; exact hbrk
        · rcases init with _ | ⟨y, _ | ⟨y', init⟩⟩ <;> simp at hbrk; exact hbrk.2
        · simp at hbrk
      rw [← Option.some.inj hc, hnl]
      rfl
  · exact hgap hgap' hbrk
  · exact hbreak brk rest hrest hbrk'

/-- A statement does not end with a space or a tab. -/
theorem not_horizontal_of_end {z : Cell}
    (h : z.byte = Byte.closeParen ∨ z.byte = Byte.semicolon) :
    Byte.isHorizontal z.byte = false := by
  rcases h with h | h <;> rw [h] <;> rfl

/-- A statement that is found behind `pre` when the search has gone over `passed`, and what is
cleared with it. -/
structure Sighted (target keyword : Bytes) (accepted : Option Span) (pre passed : List Cell)
    (s : Statement) (cl : Clearing) : Prop where
  front : ∀ span ∈ accepted, span.stop ≤ pre.length
  place : pre ++ passed = cl.up ++ cl.indent
  lexed : Lexed (passed ++ s.cells target ++ (cl.gap ++ cl.brk ++ cl.rest))
  quiet : Quiet target keyword accepted pre passed
    (s.cells target ++ (cl.gap ++ cl.brk ++ cl.rest))
  statement : StatementAt target keyword accepted (cl.up ++ cl.indent) s
    (cl.gap ++ cl.brk ++ cl.rest)

section
variable {target keyword : Bytes} {accepted : Option Span} {pre passed : List Cell} {s : Statement}
  {cl : Clearing} (h : Sighted target keyword accepted pre passed s cl)
include h

/-- A statement is found behind what ends a statement or a block. -/
theorem Sighted.rests : Rests passed := by
  refine @rests_of_atStatement keyword _ _ _ h.front ?_
  rw [h.place]
  exact h.statement.position

/-- What follows a statement is lexed. -/
theorem Sighted.lexed_behind : Lexed (cl.gap ++ cl.brk ++ cl.rest) := by
  obtain ⟨init, z, hz, hcode, -⟩ := s.cells_eq_snoc target
  have hlex := h.lexed
  rw [hz] at hlex
  exact Lexed.of_code (a := passed ++ init) (c := z) (by simpa using hlex) hcode

/-- A statement that is redirected is cut out by itself. -/
theorem Sighted.cut_redirected : Cut target keyword accepted pre passed [] s []
    (cl.gap ++ cl.brk ++ cl.rest) where
  lexed := by simpa using h.lexed
  rests := h.rests
  ended := by
    intro c hc
    refine h.statement.boundary c ?_
    rw [← h.place, List.getLast?_append, hc]
    rfl
  indent_row := by simp
  indent_blanks := .nil
  extra_blanks := .nil
  quiet := by simpa using h.quiet

/-- A statement that is deleted is cut out with the indentation in front of it and the blanks
behind, as far as they are cleared. -/
theorem Sighted.cut_deleted (ht : Dotted target)
    (hedge : Edge pre (passed ++ s.cells target ++ (cl.gap ++ cl.brk ++ cl.rest))) :
    ∃ kept, cl.up = pre ++ kept ∧ passed = kept ++ cl.indent ∧
      Cut target keyword accepted pre kept cl.indent s (cl.gap ++ cl.brk) cl.rest := by
  obtain ⟨x, tl, hx, hxcode, hxname⟩ := s.cells_eq_cons ht
  have hedge : Edge pre (passed ++ x :: (tl ++ (cl.gap ++ cl.brk ++ cl.rest))) := by
    simpa [hx] using hedge
  obtain ⟨kept, hup, hpassed⟩ := hedge.split hxname h.place cl.indent_blank
  have hlex := h.lexed
  have hrests := h.rests
  have hquiet := h.quiet
  rw [hpassed] at hlex hrests hquiet
  have hindent : Blanks cl.indent := by
    have hnext : Lexed (kept ++ cl.indent ++ x :: (tl ++ (cl.gap ++ cl.brk ++ cl.rest))) := by
      simpa [hx] using hlex
    exact blanks_of_next hnext cl.indent_blank hxcode (not_newline_of_name hxname)
  refine ⟨kept, hup, hpassed, by simpa using hlex, hrests.of_blanks hindent, fun c hc => ?_,
    cl.indent_blank, hindent, (cl.blanks h.lexed_behind).1, by simpa using hquiet.left⟩
  have hlast : cl.up.getLast? = some c := by simp [hup, List.getLast?_append, hc]
  rcases cl.shape with ⟨hline, -⟩ | ⟨hnil, -, -⟩
  · rw [hline c hlast]
    rfl
  · exact h.statement.boundary c (by rw [hnil, List.append_nil, hlast])

end

/-- A run over lexed cells weaves a swept text. The induction is on the sites: `lead` is what the
search has passed over since the last cut, all of it kept. -/
theorem Call.Run.weave {target keyword : Bytes} (ht : Dotted target) (replacement : Bytes)
    {pre lead ahead : List Cell} {accepted : Option Span} {sites : List Site}
    {refused : List Refused} (h : Run target keyword (pre ++ lead) accepted ahead sites refused)
    (hlex : Lexed (lead ++ ahead)) (hacc : ∀ span ∈ accepted, span.stop ≤ pre.length)
    (hlead : Quiet target keyword accepted pre lead ahead) (hedge : Edge pre (lead ++ ahead)) :
    ∃ out, Weave target keyword replacement pre accepted sites (lead ++ ahead) out := by
  induction sites generalizing pre lead ahead accepted refused with
  | nil => exact ⟨_, .done hlex (.append (by simpa using hlead) (h.quiet ht))⟩
  | cons site sites ih =>
    obtain ⟨between, s, cl, refused', hplace, rfl, hbetween, hsite, hat, hrem, hrun⟩ := h.split ht
    have hsighted : Sighted target keyword accepted pre (lead ++ between) s cl :=
      ⟨hacc, by rw [← List.append_assoc, hplace], by simpa using hlex,
        .append (by simpa using hlead) hbetween, hat⟩
    obtain ⟨hextra, hrest⟩ := cl.blanks hsighted.lexed_behind
    obtain ⟨init, z, hz, -, hzbyte⟩ := s.cells_eq_snoc target
    have hz' := not_horizontal_of_end hzbyte
    have hstop : site.span.stop = (cl.up ++ cl.indent ++ s.cells target).length := by
      rw [hsite, List.length_append]
      rfl
    cases hred : site.redirection with
    | some r =>
      -- the blanks behind the statement are kept, in front of what comes next
      obtain ⟨out, hout⟩ := @ih (cl.up ++ cl.indent ++ s.cells target) (cl.gap ++ cl.brk) cl.rest
        (some site.span) refused' (by simpa using hrun) hsighted.lexed_behind
        (by rintro _ ⟨⟩; exact Nat.le_of_eq hstop) (.of_blanks ht hextra) (.inl fun c hc => by
          rw [hz, ← List.append_assoc, List.getLast?_concat] at hc
          rwa [← Option.some.inj hc])
      rw [← hsighted.place] at hsite hout
      have hweave := Weave.redirected hsighted.cut_redirected hsite hred hout
      exact ⟨_, by simpa using hweave⟩
    | none =>
      obtain ⟨kept, hup, hkept, hcut⟩ := hsighted.cut_deleted ht (by simpa using hedge)
      obtain ⟨out, hout⟩ := @ih (cl.up ++ cl.indent ++ s.cells target ++ cl.gap ++ cl.brk) []
        cl.rest (some site.span) refused' (by simpa using hrun) hrest
        (by rintro _ ⟨⟩; rw [hstop]; simp) .nil (by
          have := cl.edge (a := cl.up ++ cl.indent ++ init) hz'
          rw [hz]
          simpa using this)
      rw [hup] at hsite hrem hout
      have hweave := Weave.deleted hcut hsite hred hrem hout
      have hcells : lead ++ (between ++ s.cells target ++ (cl.gap ++ cl.brk ++ cl.rest)) =
          kept ++ (cl.indent ++ s.cells target ++ (cl.gap ++ cl.brk)) ++ cl.rest := by
        simp only [← List.append_assoc, hkept]
      exact ⟨_, by rw [hcells]; exact hweave⟩

/-- The sites of a text weave the swept text. -/
theorem exists_weave {target : Bytes} (ht : Dotted target) (keyword replacement text : Bytes) :
    ∃ out, Weave target keyword replacement [] none (find target keyword text).sites (scan text)
      out :=
  @Call.Run.weave target keyword ht replacement [] [] (scan text) none _ _
    (find_run ht keyword text) (Lexed.scan text) (by simp) .nil (.inl (by simp))

/-! ## The woven cells -/

section
variable {target keyword replacement : Bytes} {accepted : Option Span}
  {pre kept indent extra src out : List Cell} {s : Statement} {sites : List Site}

/-- A kept part is followed by code on the same line. -/
theorem Cut.next (ht : Dotted target)
    (h : Cut target keyword accepted pre kept indent s extra src) :
    ∃ c rest, Lexed (kept ++ c :: rest) ∧ c.mark = .code ∧ c.byte ≠ Byte.newline := by
  obtain ⟨x, tl, hx, hcode, hname⟩ := s.cells_eq_cons ht
  have hlex := h.lexed
  cases indent with
  | nil =>
    rw [hx] at hlex
    exact ⟨x, tl ++ extra ++ src, by simpa using hlex, hcode, not_newline_of_name hname⟩
  | cons c indent =>
    exact ⟨c, indent ++ s.cells target ++ extra ++ src, by simpa using hlex,
      (h.indent_blanks c (by simp)).1,
      Cursor.not_newline_of_horizontal (h.indent_row c (by simp))⟩

/-- The last cell of a kept part, if it is code other than white space, ends a statement or opens or
closes a block. -/
theorem Cut.last (h : Cut target keyword accepted pre kept indent s extra src) {x : Cell}
    (hx : kept.getLast? = some x) (hcode : x.mark = .code) :
    Byte.isBlank x.byte = true ∨ x.byte = Byte.semicolon ∨ x.byte = Byte.openBrace ∨
      x.byte = Byte.closeBrace := by
  obtain ⟨init, rfl⟩ := List.getLast?_eq_some_iff.1 hx
  cases hblank : Byte.isBlank x.byte with
  | true => exact .inl rfl
  | false =>
    have hx : x.isSignificant = true := by simp [Cell.isSignificant, Cell.isCode, hcode, hblank]
    exact .inr (h.rests init x [] rfl hx (by simp))

/-- A kept part in front of a statement reads the same whatever follows it. -/
theorem Cut.whole_kept (ht : Dotted target)
    (h : Cut target keyword accepted pre kept indent s extra src) : Whole kept := by
  obtain ⟨c, rest, hlex, hcode, hbyte⟩ := h.next ht
  refine hlex.whole_of_next hcode hbyte ?_
  rintro x hx ⟨hxcode, hxbyte⟩
  rcases h.last hx hxcode with hb | hb | hb | hb <;> rw [hxbyte] at hb <;> cases hb

/-- The parenthesised arguments of a statement read the same whatever surrounds them. -/
theorem Cut.whole_group (h : Cut target keyword accepted pre kept indent s extra src) :
    Whole s.group := by
  have hlex := h.lexed
  rw [s.cells_eq] at hlex
  have hopen := Lexed.from_code (a := kept ++ (indent ++ (codeCells target ++ codeCells s.blanks)))
    (c := ⟨Byte.openParen, .code⟩) (by simpa [Statement.group] using hlex) rfl
  exact Lexed.whole_snoc (a := ⟨Byte.openParen, .code⟩ :: s.arguments) hopen rfl (by decide)

/-- A redirected statement reads the same wherever it is put. -/
theorem Cut.whole_tidy (hr : Dotted replacement)
    (h : Cut target keyword accepted pre kept indent s extra src) :
    Whole (s.tidy.cells replacement) := by
  have htail : Whole (Statement.tailCells s.tidy.tail) := by
    cases htail : s.tidy.tail with
    | none => exact .nil
    | some bytes =>
      have hsemi : ∀ b ∈ [Byte.semicolon], isPlain b := List.forall_mem_singleton.2 rfl
      refine .append (whole_codeCells fun b hb => ?_) (whole_codeCells hsemi)
      exact isPlain_of_isBlank (isBlank_of_isHorizontal (s.tidy.isHorizontal bytes htail b hb))
  rw [Statement.cells_eq]
  exact (((whole_codeCells hr.plain).append .nil).append h.whole_group).append htail

/-- What a site is redirected behind is white space. -/
theorem Call.Statement.lead_isBlank {site : Site} {behind : List Cell} {r : Redirection}
    (hsite : site = s.site target keyword pre behind) (hred : site.redirection = some r) :
    ∀ b ∈ r.lead, Byte.isBlank b := by
  rw [hsite] at hred
  exact Call.lead_isBlank hred

/-- What leads a redirected call is blank. -/
theorem Call.Statement.lead_blanks {site : Site} {behind : List Cell} {r : Redirection}
    (hsite : site = s.site target keyword pre behind) (hred : site.redirection = some r) :
    Blanks (codeCells r.lead) := by
  intro c hc
  obtain ⟨hb, hcode⟩ := mem_codeCells.1 hc
  exact ⟨hcode, Statement.lead_isBlank hsite hred c.byte hb⟩

/-- So does it with what it is put behind. -/
theorem Cut.whole_put (hr : Dotted replacement)
    (h : Cut target keyword accepted pre kept indent s extra src) {site : Site} {pre' : List Cell}
    {behind : List Cell} {r : Redirection} (hsite : site = s.site target keyword pre' behind)
    (hred : site.redirection = some r) : Whole (codeCells r.lead ++ s.tidy.cells replacement) :=
  .append (whole_codeCells fun b hb => isPlain_of_isBlank (Statement.lead_isBlank hsite hred b hb))
    (h.whole_tidy hr)

/-- The woven cells are the cells of their bytes. -/
theorem Weave.lexed_out (ht : Dotted target) (hr : Dotted replacement)
    (h : Weave target keyword replacement pre accepted sites src out) : Lexed out := by
  induction h with
  | done hlex => exact hlex
  | deleted hcut _ _ _ _ ih => exact (hcut.whole_kept ht).lexed_append ih
  | redirected hcut hsite hred _ ih =>
    exact ((hcut.whole_kept ht).append (hcut.whole_put hr hsite hred)).lexed_append ih

/-- The text that is woven is lexed. -/
theorem Weave.lexed_src (h : Weave target keyword replacement pre accepted sites src out) :
    Lexed src := by
  cases h with
  | done hlex => exact hlex
  | deleted hcut => exact hcut.lexed
  | redirected hcut => simpa using hcut.lexed

end

end LogSweep
