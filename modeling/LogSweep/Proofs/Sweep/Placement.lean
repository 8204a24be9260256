import LogSweep.Proofs.Lexical.Regions
import LogSweep.Proofs.Sweep.Replaced

/-!
# Where call statements stand

A site that the search finds can be read off the text: the statement at its span (`Spelled`), the
line that it begins on (`OnLine`), and the blanks that its removal takes with it (`Clears`). None of
its offsets splits a character. What is removed with a statement ends where no later removal reaches
back to, so the removals of a text come one behind the other (`Call.Run.removals`).
-/

namespace LogSweep

open Lexical Block Call

/-! ## A site in its text -/

/-- The parentheses in the code of the cells are balanced: as many are closed as are opened, and
none before it is opened. -/
def Balanced (cells : List Cell) : Prop :=
  excess cells = 0 ∧ ∀ m, m <+: cells → 0 ≤ excess m

/-- The offset behind the opening parenthesis of a site. -/
def Call.Site.opened (function blanks : Bytes) (site : Site) : Nat :=
  site.start + function.length + blanks.length + 1

/-- The statement of a site is the function, white space, the arguments in parentheses, and a
semicolon behind spaces and tabs if the site has one. -/
structure Spelled (function text : Bytes) (site : Site) (blanks gap : Bytes) : Prop where
  blank : ∀ b ∈ blanks, Byte.isBlank b = true
  horizontal : ∀ b ∈ gap, Byte.isHorizontal b = true
  slice_eq : text.slice site.span =
    function ++ blanks ++ [Byte.openParen] ++ site.arguments ++ [Byte.closeParen] ++
      if site.semicolon then gap ++ [Byte.semicolon] else []
  balanced : Balanced
    (((scan text).drop (site.opened function blanks)).take site.arguments.length)
  /-- A semicolon that could belong to the statement does. -/
  ended : site.semicolon = false → ∀ more rest, (∀ b ∈ more, Byte.isHorizontal b = true) →
    text.drop site.stop ≠ more ++ Byte.semicolon :: rest

/-- The line of a site starts behind the last newline before it, or with the text. -/
structure OnLine (text : Bytes) (site : Site) : Prop where
  le : site.lineStart ≤ site.start
  begins : site.lineStart = 0 ∨ text[site.lineStart - 1]? = some Byte.newline
  row : Byte.newline ∉ text.slice ⟨site.lineStart, site.start⟩
  startsLine_iff : site.startsLine = true ↔
    ∀ b ∈ text.slice ⟨site.lineStart, site.start⟩, Byte.isHorizontal b = true

/-- The removal of a site adds spaces and tabs to the statement, and a line break only together with
all that stands in front of it on its line. -/
structure Clears (text : Bytes) (site : Site) (gap brk : Bytes) : Prop where
  start_le : site.removal.start ≤ site.start
  le_stop : site.stop ≤ site.removal.stop
  indent : ∀ b ∈ text.slice ⟨site.removal.start, site.start⟩, Byte.isHorizontal b = true
  slice_eq : text.slice ⟨site.stop, site.removal.stop⟩ = gap ++ brk
  horizontal : ∀ b ∈ gap, Byte.isHorizontal b = true
  shape : brk = [] ∨ brk = [Byte.newline] ∨ brk = [Byte.carriageReturn, Byte.newline]
  whole : brk ≠ [] → site.removal.start = site.lineStart

/-- An offset in a text that splits no character. -/
def IsCut (text : Bytes) (offset : Nat) : Prop :=
  offset ≤ text.length ∧ Bytes.isBoundary text.toArray offset = true

/-! ## Reading it off the cells -/

/-- A statement stands in a text at a site, with what is cleared around it. -/
structure Located (target keyword : Bytes) (cells : List Cell) (site : Site) (s : Statement)
    (cl : Clearing) : Prop where
  cells_eq : cells = cl.up ++ cl.indent ++ s.cells target ++ (cl.gap ++ cl.brk ++ cl.rest)
  site_eq : site = s.site target keyword (cl.up ++ cl.indent) (cl.gap ++ cl.brk ++ cl.rest)
  statement : ∃ accepted, StatementAt target keyword accepted (cl.up ++ cl.indent) s
    (cl.gap ++ cl.brk ++ cl.rest)
  removal_eq : site.removal =
    ⟨cl.up.length, (cl.up ++ cl.indent ++ s.cells target ++ (cl.gap ++ cl.brk)).length⟩

/-- Every site of a run is one that a statement stands at. -/
theorem Call.Run.located {target keyword : Bytes} {pre ahead : List Cell} {accepted : Option Span}
    {sites : List Site} {refused : List Refused}
    (h : Run target keyword pre accepted ahead sites refused) :
    ∀ site ∈ sites, ∃ s cl, Located target keyword (pre ++ ahead) site s cl := by
  induction h with
  | done => simp
  | pass _ _ ih | refuse _ _ _ ih =>
    intro site hsite
    rw [List.append_cons]
    exact ih site hsite
  | @accept pre behind accepted s sites refused hat cl hpre hbehind hcl hrun ih =>
    subst hpre hbehind
    refine List.forall_mem_cons.2 ⟨⟨s, cl, ?_, rfl, ⟨_, hat⟩, ?_⟩, fun site hsite => ?_⟩
    · simp only [List.append_assoc]
    · rw [hcl]
      simp only [List.length_append, Nat.add_assoc]
    · have hrest := ih site hsite
      simp only [List.append_assoc] at hrest ⊢
      exact hrest

/-- A statement up to its arguments. -/
def Call.Statement.opening (function : Bytes) (s : Statement) : List Cell :=
  codeCells function ++ codeCells s.blanks ++ [⟨Byte.openParen, .code⟩]

/-- The cells of a statement up to its parenthesis, and from there on. -/
theorem Call.Statement.cells_eq_opening (function : Bytes) (s : Statement) :
    s.cells function = s.opening function ++
      (s.arguments ++ ⟨Byte.closeParen, .code⟩ :: Statement.tailCells s.tail) := by
  simp [Statement.cells, Statement.opening]

/-- The bytes of a statement. -/
theorem Call.Statement.map_byte_cells (function : Bytes) (s : Statement) :
    (s.cells function).map (·.byte) =
      function ++ s.blanks ++ [Byte.openParen] ++ s.arguments.map (·.byte) ++ [Byte.closeParen] ++
        if s.tail.isSome then s.tail.getD [] ++ [Byte.semicolon] else [] := by
  obtain ⟨blanks, arguments, tail, -, -, -⟩ := s
  cases tail <;> simp [Statement.cells, Statement.tailCells]

/-- Arguments behind which the count settles are balanced. -/
theorem Call.Settles.balanced {cells : List Cell} (h : Settles 1 cells) : Balanced cells := by
  refine ⟨?_, fun m hm => ?_⟩
  · have := h.ends
    omega
  · have := h.stays m hm
    omega

/-- The bytes of the cells between two others. -/
theorem slice_cells (a b c : List Cell) :
    Bytes.slice ((a ++ b ++ c).map (·.byte)) ⟨a.length, (a ++ b).length⟩ = b.map (·.byte) := by
  have := slice_middle (a.map (·.byte)) (b.map (·.byte)) (c.map (·.byte))
  simpa using this

/-- A semicolon behind spaces and tabs ends the statement. -/
theorem semicolon_of_ending? {offset : Nat} {gap rest : List Cell} {c : Cell} {e : Ending}
    (hgap : ∀ x ∈ gap, Byte.isHorizontal x.byte = true) (hc : c.byte = Byte.semicolon)
    (h : ending? offset (gap ++ c :: rest) = some e) : e.semicolon = true := by
  have hstop : ∀ x, (c :: rest).head? = some x → Byte.isHorizontal x.byte = false := by
    rintro x ⟨⟩
    rw [hc]
    rfl
  rw [ending?, skipWhile_append hgap hstop] at h
  simp only [hc, beq_self_eq_true, if_true, Option.some.injEq] at h
  rw [← h]

section
variable {target keyword text : Bytes} {site : Site} {s : Statement} {cl : Clearing}
  (h : Located target keyword (scan text) site s cl)
include h

/-- The text around a statement. -/
theorem Located.text_eq : text =
    (cl.up ++ cl.indent ++ s.cells target ++ (cl.gap ++ cl.brk ++ cl.rest)).map (·.byte) := by
  rw [← h.cells_eq, map_byte_scan]

/-- A site starts where its statement does. -/
theorem Located.start_eq : site.start = (cl.up ++ cl.indent).length := by
  rw [h.site_eq]
  rfl

/-- A site stops where its statement does. -/
theorem Located.stop_eq : site.stop = (cl.up ++ cl.indent ++ s.cells target).length := by
  rw [h.site_eq, List.length_append]
  rfl

/-- The span of a site cuts out its statement. -/
theorem Located.slice_span : text.slice site.span = (s.cells target).map (·.byte) := by
  rw [Site.span, h.start_eq, h.stop_eq, h.text_eq]
  exact slice_cells _ _ _

/-- The arguments of a site are those of its statement. -/
theorem Located.arguments_eq : site.arguments = s.arguments.map (·.byte) := by
  rw [h.site_eq]
  rfl

/-- The arguments begin behind the parenthesis. -/
theorem Located.opened_eq : site.opened target s.blanks =
    (cl.up ++ cl.indent ++ s.opening target).length := by
  simp only [Site.opened, h.start_eq, Statement.opening, List.length_append, List.length_cons,
    List.length_nil, length_codeCells]
  omega

/-- The cells of the text around the arguments. -/
theorem Located.scan_eq : scan text = cl.up ++ cl.indent ++ s.opening target ++ (s.arguments ++
    ⟨Byte.closeParen, .code⟩ :: (Statement.tailCells s.tail ++ (cl.gap ++ cl.brk ++ cl.rest))) := by
  rw [h.cells_eq, s.cells_eq_opening]
  simp only [List.append_assoc, List.cons_append]

/-- A statement without a semicolon is not followed by one on its line. -/
theorem Located.not_semicolon (hnone : site.semicolon = false) {more rest : Bytes}
    (hmore : ∀ b ∈ more, Byte.isHorizontal b = true) :
    text.drop site.stop ≠ more ++ Byte.semicolon :: rest := by
  obtain ⟨accepted, hat⟩ := h.statement
  have hnone : s.tail.isSome = false := by
    rw [h.site_eq] at hnone
    exact hnone
  have hdrop : text.drop site.stop = (cl.gap ++ cl.brk ++ cl.rest).map (·.byte) := by
    rw [h.stop_eq, h.text_eq, List.map_append, ← List.length_map (f := (·.byte)), List.drop_left]
  rw [hdrop]
  intro hsplit
  obtain ⟨gap, behind, hbehind, rfl, hsemi⟩ := List.map_eq_append_iff.1 hsplit
  obtain ⟨c, after, rfl, hc, -⟩ := List.map_eq_cons_iff.1 hsemi
  have hending := hat.ending
  rw [Option.isSome_eq_false_iff, Option.isNone_iff_eq_none] at hnone
  rw [hnone, Statement.tailCells, List.nil_append, hbehind] at hending
  have hyes := semicolon_of_ending? (List.forall_mem_map.1 hmore) hc hending
  rw [Statement.ending, hnone] at hyes
  cases hyes

/-- The statement of a site is spelled as a call. -/
theorem Located.spelled : Spelled target text site s.blanks (s.tail.getD []) := by
  have hsemicolon : site.semicolon = s.tail.isSome := by rw [h.site_eq]; rfl
  refine ⟨s.isBlank, ?_, ?_, ?_, fun hnone _ _ => h.not_semicolon hnone⟩
  · cases htail : s.tail with
    | none => simp
    | some bytes => exact s.isHorizontal bytes htail
  · rw [h.slice_span, s.map_byte_cells, h.arguments_eq, hsemicolon]
  · rw [h.opened_eq, h.scan_eq, List.drop_left, h.arguments_eq, List.length_map, List.take_left]
    exact s.balanced.balanced

/-- A site has the line of the cursor in front of it. -/
theorem Located.line_eq {lines row : List Cell} (hpre : cl.up ++ cl.indent = lines ++ row)
    (hlines : Cursor.LineBegins lines) (hrow : ∀ c ∈ row, c.byte ≠ Byte.newline) :
    site.lineStart = lines.length ∧ site.startsLine = row.all (Byte.isHorizontal ·.byte) := by
  rw [h.site_eq, hpre]
  exact ⟨Cursor.lineStart_past keyword hlines hrow, Cursor.startsLine_past keyword hlines hrow⟩

/-- The site knows the start of its line. -/
theorem Located.onLine : OnLine text site := by
  obtain ⟨lines, row, hpre, hlines, hrow⟩ := Cursor.line_split (cl.up ++ cl.indent)
  obtain ⟨hstart, hstarts⟩ := h.line_eq hpre hlines hrow
  have htext := h.text_eq
  rw [hpre, List.append_assoc (lines ++ row)] at htext
  have hslice : text.slice ⟨site.lineStart, site.start⟩ = row.map (·.byte) := by
    rw [hstart, h.start_eq, hpre, htext]
    exact slice_cells lines row _
  refine ⟨?_, ?_, ?_, ?_⟩
  · rw [hstart, h.start_eq, hpre]
    exact (List.prefix_append _ _).length_le
  · rcases List.eq_nil_or_concat lines with rfl | ⟨init, c, rfl⟩
    · exact .inl hstart
    · right
      have hc : c.byte = Byte.newline := hlines c (by simp)
      rw [hstart, htext]
      simp [hc]
  · rw [hslice]
    rintro hmem
    obtain ⟨c, hc, hnewline⟩ := List.mem_map.1 hmem
    exact hrow c hc hnewline
  · rw [hslice, hstarts, List.all_eq_true, List.forall_mem_map]

/-- The removal of a site clears the blanks around the statement. -/
theorem Located.clears : Clears text site (cl.gap.map (·.byte)) (cl.brk.map (·.byte)) := by
  have htext := h.text_eq
  refine ⟨?_, ?_, ?_, ?_, List.forall_mem_map.2 cl.gap_blank, ?_, fun hne => ?_⟩
  · rw [h.removal_eq, h.start_eq]
    exact (List.prefix_append _ _).length_le
  · rw [h.removal_eq, h.stop_eq]
    exact (List.prefix_append _ _).length_le
  · rw [h.removal_eq, h.start_eq, htext, List.append_assoc (cl.up ++ cl.indent), slice_cells]
    exact List.forall_mem_map.2 cl.indent_blank
  · rw [h.removal_eq, h.stop_eq, htext, ← List.append_assoc, slice_cells, List.map_append]
  · rcases cl.shape with ⟨-, hbrk | hbrk | ⟨hbrk, -⟩⟩ | ⟨-, hbrk, -⟩
    · exact .inr (.inl hbrk)
    · exact .inr (.inr hbrk)
    · exact .inl (by rw [hbrk]; rfl)
    · exact .inl (by rw [hbrk]; rfl)
  · rcases cl.shape with ⟨hline, -⟩ | ⟨-, hbrk, -⟩
    · have hrow : ∀ c ∈ cl.indent, c.byte ≠ Byte.newline := fun c hc =>
        Cursor.not_newline_of_horizontal (cl.indent_blank c hc)
      rw [h.removal_eq, (h.line_eq rfl hline hrow).1]
    · exact absurd (by rw [hbrk]; rfl) hne

end

/-! ## Characters -/

/-- No name goes on at the start of a line. -/
theorem ended_of_lineBegins {up : List Cell} (h : Cursor.LineBegins up) : Ended up := by
  intro c hc
  rw [h c hc]
  rfl

/-- No name goes on behind white space. -/
theorem ended_of_isBlank {cells : List Cell} (h : ∀ c ∈ cells, Byte.isBlank c.byte = true) :
    Ended cells := by
  intro c hc
  exact not_isDottedByte_of_isBlank (h c (List.mem_of_getLast? hc))

section
variable {text : Bytes} {a b : List Cell}

/-- A cut where no name goes on splits no character. -/
theorem isCut_of_ended (htext : Aligned text) (hsplit : scan text = a ++ b) (ha : Ended a) :
    IsCut text a.length := by
  have hbytes : text = a.map (·.byte) ++ b.map (·.byte) := by
    rw [← List.map_append, ← hsplit, map_byte_scan]
  rw [hbytes] at htext ⊢
  refine ⟨by simp, ?_⟩
  have := htext.isBoundary ha.lt
  rwa [List.length_map] at this

/-- Nor does a cut in front of a parenthesis. -/
theorem isCut_closeParen (hsplit : scan text = a ++ ⟨Byte.closeParen, .code⟩ :: b) :
    IsCut text a.length := by
  have hbytes : text = (a ++ ⟨Byte.closeParen, .code⟩ :: b).map (·.byte) := by
    rw [← hsplit, map_byte_scan]
  have hnext : text.toArray[a.length]? = some Byte.closeParen := by
    rw [hbytes]
    simp
  refine ⟨by rw [hbytes]; simp, ?_⟩
  rw [Bytes.isBoundary, hnext]
  rfl

end

/-- No offset of a site splits a character. -/
theorem Located.isCut {target keyword text : Bytes} {site : Site} {s : Statement} {cl : Clearing}
    (h : Located target keyword (scan text) site s cl) (htext : Aligned text) :
    ∀ offset ∈ [site.lineStart, site.start, site.opened target s.blanks,
      site.opened target s.blanks + site.arguments.length, site.stop, site.removal.start,
      site.removal.stop], IsCut text offset := by
  obtain ⟨accepted, hat⟩ := h.statement
  have hstart : Ended (cl.up ++ cl.indent) := hat.boundary
  have hstop : Ended (cl.up ++ cl.indent ++ s.cells target) := hstart.append (s.ended target)
  have hopened : Ended (cl.up ++ cl.indent ++ s.opening target) := by
    rw [Statement.opening, ← List.append_assoc, ended_snoc]
    rfl
  have hup : Ended cl.up := by
    rcases cl.shape with ⟨hline, -⟩ | ⟨hnil, -, -⟩
    · exact ended_of_lineBegins hline
    · rwa [hnil, List.append_nil] at hstart
  obtain ⟨lines, row, hpre, hlines, hrow⟩ := Cursor.line_split (cl.up ++ cl.indent)
  simp only [List.forall_mem_cons, List.not_mem_nil, false_imp_iff, implies_true, and_true]
  refine ⟨?_, ?_, ?_, ?_, ?_, ?_, ?_⟩
  · have hsplit : scan text =
        lines ++ (row ++ (s.cells target ++ (cl.gap ++ cl.brk ++ cl.rest))) := by
      rw [h.cells_eq, hpre]
      simp only [List.append_assoc]
    rw [(h.line_eq hpre hlines hrow).1]
    exact isCut_of_ended htext hsplit (ended_of_lineBegins hlines)
  · rw [h.start_eq]
    exact isCut_of_ended htext (h.cells_eq.trans (List.append_assoc ..)) hstart
  · rw [h.opened_eq]
    exact isCut_of_ended htext h.scan_eq hopened
  · rw [h.opened_eq, h.arguments_eq, List.length_map, ← List.length_append]
    exact isCut_closeParen (h.scan_eq.trans (List.append_assoc ..).symm)
  · rw [h.stop_eq]
    exact isCut_of_ended htext h.cells_eq hstop
  · have hsplit : scan text =
        cl.up ++ (cl.indent ++ (s.cells target ++ (cl.gap ++ cl.brk ++ cl.rest))) := by
      rw [h.cells_eq]
      simp only [List.append_assoc]
    rw [h.removal_eq]
    exact isCut_of_ended htext hsplit hup
  · rw [h.removal_eq]
    exact isCut_of_ended htext (h.cells_eq.trans (List.append_assoc ..).symm)
      (hstop.append (ended_of_isBlank cl.isBlank))

/-! ## Removals -/

/-- What is removed with the sites of a run lies behind what it has passed over, and one removal
behind the other. The induction is on the sites: each removal ends at an edge, which the indentation
of the next statement cannot reach over. -/
theorem Call.Run.removals {target keyword : Bytes} (ht : Dotted target) {pre ahead : List Cell}
    {accepted : Option Span} {sites : List Site} {refused : List Refused}
    (h : Run target keyword pre accepted ahead sites refused) (hedge : Edge pre ahead) :
    (∀ site ∈ sites, pre.length ≤ site.removal.start) ∧
      sites.Pairwise fun a b => a.removal.stop ≤ b.removal.start := by
  induction sites generalizing pre ahead accepted refused with
  | nil => exact ⟨by simp, .nil⟩
  | cons site sites ih =>
    obtain ⟨between, s, cl, refused', hplace, rfl, -, -, -, hrem, hrun⟩ := h.split ht
    obtain ⟨x, tl, hx, -, hname⟩ := s.cells_eq_cons ht
    obtain ⟨init, z, hz, -, hzbyte⟩ := s.cells_eq_snoc target
    have hahead : between ++ s.cells target ++ (cl.gap ++ cl.brk ++ cl.rest) =
        between ++ x :: (tl ++ (cl.gap ++ cl.brk ++ cl.rest)) := by
      rw [hx, List.append_assoc, List.cons_append]
    rw [hahead] at hedge
    obtain ⟨kept, hup, -⟩ := hedge.split hname hplace cl.indent_blank
    have hnext : Edge (cl.up ++ cl.indent ++ s.cells target ++ cl.gap ++ cl.brk) cl.rest := by
      have hclear := cl.edge (a := cl.up ++ cl.indent ++ init) (not_horizontal_of_end hzbyte)
      rw [hz]
      simpa only [List.append_assoc] using hclear
    obtain ⟨hbehind, hpairs⟩ := ih hrun hnext
    have hfirst : pre.length ≤ cl.up.length := by
      rw [hup]
      exact (List.prefix_append _ _).length_le
    have hall : cl.up.length ≤
        (cl.up ++ cl.indent ++ s.cells target ++ cl.gap ++ cl.brk).length := by
      simp only [List.append_assoc]
      exact (List.prefix_append _ _).length_le
    refine ⟨List.forall_mem_cons.2 ⟨?_, fun site' hsite' => ?_⟩,
      List.pairwise_cons.2 ⟨fun site' hsite' => ?_, hpairs⟩⟩
    · rw [hrem]
      exact hfirst
    · exact (hfirst.trans hall).trans (hbehind site' hsite')
    · rw [hrem]
      exact hbehind site' hsite'

/-- The call statements of a text are well placed. Each of them is spelled out at its span, stands
on its line and is removed with blanks alone, and with a line break only when whole lines go; its
offsets split no character, and the removals come one behind the other. -/
theorem find_sites_placed (target : String) (h : Rules.isDottedName target.toList = true)
    (keyword : Bytes) (source : String) :
    let text := Bytes.ofString source
    let sites := (find (.ofString target) keyword text).sites
    (∀ site ∈ sites,
      (∃ blanks gap, Spelled (.ofString target) text site blanks gap ∧
        ∀ offset ∈ [site.lineStart, site.start, site.opened (.ofString target) blanks,
          site.opened (.ofString target) blanks + site.arguments.length, site.stop,
          site.removal.start, site.removal.stop], IsCut text offset) ∧
      OnLine text site ∧ ∃ gap brk, Clears text site gap brk) ∧
    sites.Pairwise fun a b => a.removal.stop ≤ b.removal.start := by
  intro text sites
  have ht := Rules.dotted_of_isDottedName h
  have hrun : Run (.ofString target) keyword [] none (scan text) sites _ :=
    find_run ht keyword text
  refine ⟨fun site hsite => ?_, (hrun.removals ht (.inl (by simp))).2⟩
  obtain ⟨s, cl, hlocated⟩ := hrun.located site hsite
  rw [List.nil_append] at hlocated
  exact ⟨⟨_, _, hlocated.spelled, hlocated.isCut (aligned_ofString source)⟩, hlocated.onLine,
    _, _, hlocated.clears⟩

/-- A statement over two lines is removed with its lines, and two on one line by themselves. -/
theorem find_sites_placed_lines :
    let text := Bytes.ofString "\tlog ('é',\r\n (1)) ; \r\nif (a) {log(2) ;log(3)  }"
    let sites := (find (.ofString "log") [] text).sites
    Rules.isDottedName "log".toList = true ∧
    sites.map (·.span) = [⟨1, 20⟩, ⟨31, 39⟩, ⟨39, 45⟩] ∧
    sites.map (·.removal) = [⟨0, 23⟩, ⟨31, 39⟩, ⟨39, 45⟩] ∧
    (∀ site ∈ sites, (∃ blanks gap, Spelled (.ofString "log") text site blanks gap) ∧
      OnLine text site ∧ ∃ gap brk, Clears text site gap brk) ∧
    sites.Pairwise fun a b => a.removal.stop ≤ b.removal.start := by
  intro text sites
  have hname : Rules.isDottedName "log".toList = true := by decide
  obtain ⟨hplaced, hpairs⟩ := find_sites_placed "log" hname []
    "\tlog ('é',\r\n (1)) ; \r\nif (a) {log(2) ;log(3)  }"
  refine ⟨hname, by decide +kernel, by decide +kernel, fun site hsite => ?_, hpairs⟩
  obtain ⟨⟨blanks, gap, hspelled, -⟩, hline, hclears⟩ := hplaced site hsite
  exact ⟨⟨blanks, gap, hspelled⟩, hline, hclears⟩

end LogSweep
