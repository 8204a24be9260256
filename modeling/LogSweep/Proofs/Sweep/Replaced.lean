import LogSweep.Proofs.Edit.Ordered
import LogSweep.Proofs.Sweep.Weave
import LogSweep.Proofs.Text.Names

/-!
# The swept text

The edits of the sites of a text come one behind the other and split no character, so they are
always accepted (`Weave.apply`). The swept text is the text with every site replaced and nothing
else touched (`Replaced`): a call outside of error handlers disappears with the blanks that its
removal takes, and a call inside one is written anew for the replacement function.
-/

namespace LogSweep

open Lexical Block Call

/-- The call statements that a sweep by the rules takes out of a text. -/
def Rules.sites (rules : Rules) (text : Bytes) : List Site :=
  (find (.ofString rules.target) (.ofString rules.keyword) text).sites

/-- The calls that a sweep by the rules leaves alone. -/
def Rules.refused (rules : Rules) (text : Bytes) : List Refused :=
  (find (.ofString rules.target) (.ofString rules.keyword) text).refused

/-- The edits by which a sweep by the rules changes a text. -/
def Rules.edits (rules : Rules) (text : Bytes) : List Edit :=
  (rules.sites text).map (siteEdit (.ofString rules.replacement))

/-! ## The edits of a weave -/

section
variable {target keyword replacement : Bytes} {pre kept indent extra src out : List Cell}
  {accepted : Option Span} {s : Statement} {site : Site} {sites : List Site}

/-- The text of a call with the arguments of a site. -/
theorem callText_eq (hsite : site = s.site target keyword pre src) :
    callText replacement site = (s.tidy.cells replacement).map (·.byte) := by
  subst hsite
  cases htail : s.tail <;>
    simp [callText, Statement.site, Statement.cells, Statement.tidy, Statement.tailCells, htail]

/-- A deleted site is replaced by nothing, with the blanks that go with it. -/
theorem siteEdit_deleted (hred : site.redirection = none) :
    siteEdit replacement site = ⟨site.removal.start, site.removal.stop, []⟩ := by
  rw [siteEdit, hred]

/-- A redirected site is replaced by the other call, behind its lead. -/
theorem siteEdit_redirected {r : Redirection} (hsite : site = s.site target keyword pre src)
    (hred : site.redirection = some r) :
    siteEdit replacement site = ⟨pre.length, (pre ++ s.cells target).length,
      (codeCells r.lead ++ s.tidy.cells replacement).map (·.byte)⟩ := by
  rw [siteEdit, hred, callText_eq hsite, List.map_append, map_byte_codeCells, List.length_append,
    hsite]
  rfl

/-- The edits of the sites write the woven cells. -/
theorem Weave.splice (h : Weave target keyword replacement pre accepted sites src out) :
    Edit.splice pre.length (src.map (·.byte)) (sites.map (siteEdit replacement)) =
      out.map (·.byte) := by
  -- what is in front of an edit is kept, and what it spans is skipped
  have hcut : ∀ (pre kept taken src : List Cell) (put : Bytes) (edits : List Edit),
      Edit.splice pre.length ((kept ++ taken ++ src).map (·.byte))
        (⟨(pre ++ kept).length, (pre ++ kept ++ taken).length, put⟩ :: edits) =
      kept.map (·.byte) ++ (put ++ Edit.splice (pre ++ kept ++ taken).length (src.map (·.byte))
        edits) := by
    intro pre kept taken src put edits
    have hstart : (pre ++ kept).length - pre.length = (kept.map (·.byte)).length := by
      simp
    have hstop : (pre ++ kept ++ taken).length - pre.length =
        ((kept ++ taken).map (·.byte)).length := by
      simp only [List.length_append, List.length_map]
      omega
    have hsplit : (kept ++ taken ++ src).map (·.byte) =
        (kept ++ taken).map (·.byte) ++ src.map (·.byte) := List.map_append
    rw [Edit.splice, hstart, hstop, hsplit, List.drop_left, List.map_append, List.append_assoc,
      List.take_left]
  induction h with
  | done => rfl
  | @deleted pre kept indent gap brk src out accepted s sites site _ _ hred hrem _ ih =>
    have := hcut pre kept (indent ++ s.cells target ++ (gap ++ brk)) src []
      (sites.map (siteEdit replacement))
    rw [List.map_cons, siteEdit_deleted hred, hrem]
    simp only [List.append_assoc] at this ih ⊢
    rw [this, ih, List.map_append]
    rfl
  | redirected _ hsite hred _ ih =>
    rw [List.map_cons, siteEdit_redirected hsite hred, hcut, ih]
    simp

/-- The edits of the sites come one behind the other. -/
theorem Weave.ordered (h : Weave target keyword replacement pre accepted sites src out) :
    Edit.Ordered (sites.map (siteEdit replacement)) ∧
      ∀ e ∈ sites.map (siteEdit replacement), pre.length ≤ e.start := by
  have hcons : ∀ (e : Edit) (edits : List Edit) (n : Nat), n ≤ e.start → e.start ≤ e.stop →
      Edit.Ordered edits ∧ (∀ e' ∈ edits, e.stop ≤ e'.start) →
      Edit.Ordered (e :: edits) ∧ ∀ e' ∈ e :: edits, n ≤ e'.start := by
    rintro e edits n hn hle ⟨hordered, hstop⟩
    refine ⟨List.pairwise_cons.2 ⟨hstop, hordered⟩, fun e' he' => ?_⟩
    rcases List.mem_cons.1 he' with rfl | he'
    · exact hn
    · exact Nat.le_trans (Nat.le_trans hn hle) (hstop e' he')
  induction h with
  | done => exact ⟨.nil, by simp⟩
  | deleted _ _ hred hrem _ ih =>
    rw [List.map_cons, siteEdit_deleted hred, hrem]
    exact hcons _ _ _ (by simp) (by simp only [List.length_append]; omega) ih
  | redirected _ hsite hred _ ih =>
    rw [List.map_cons, siteEdit_redirected hsite hred]
    exact hcons _ _ _ (by simp) (by simp) ih

/-- The last byte of cells that no name goes on behind is in ASCII. -/
theorem Ended.lt {cells : List Cell} (h : Ended cells) :
    ∀ x, (cells.map (·.byte)).getLast? = some x → x < 128 := by
  intro x hx
  rw [List.getLast?_map] at hx
  obtain ⟨c, hc, rfl⟩ := Option.map_eq_some_iff.1 hx
  have := h c hc
  simp only [isDottedByte, Byte.isName, Bool.or_eq_false_iff, decide_eq_false_iff_not] at this
  exact UInt8.not_le.1 this.1.2

/-- A cut between places that no name goes on behind splits no character. -/
theorem fits_of_ended {a b c : List Cell} (htext : Aligned ((a ++ b ++ c).map (·.byte)))
    (ha : Ended a) (hb : Ended b) (put : Bytes) :
    Edit.Fits ((a ++ b ++ c).map (·.byte)) ⟨a.length, (a ++ b).length, put⟩ := by
  refine ⟨by simp, by simp, ?_, ?_⟩
  · have := Aligned.isBoundary (a := a.map (·.byte)) (b := (b ++ c).map (·.byte))
      (by simpa using htext) ha.lt
    simpa using this
  · have := Aligned.isBoundary (a := (a ++ b).map (·.byte)) (b := c.map (·.byte))
      (by simpa using htext) (ha.append hb).lt
    simpa using this

/-- No name goes on behind what is cut out. -/
theorem Cut.ended_taken (h : Cut target keyword accepted pre kept indent s extra src) :
    Ended (indent ++ s.cells target ++ extra) :=
  (h.indent_blanks.ended.append (s.ended target)).append h.extra_blanks.ended

/-- The edits of the sites are right by themselves. -/
theorem Weave.fits (h : Weave target keyword replacement pre accepted sites src out)
    (htext : Aligned ((pre ++ src).map (·.byte))) (hpre : Ended pre) :
    ∀ e ∈ sites.map (siteEdit replacement), Edit.Fits ((pre ++ src).map (·.byte)) e := by
  induction h with
  | done => simp
  | @deleted pre kept indent gap brk src out accepted s sites site hcut _ hred hrem _ ih =>
    have hsplit : pre ++ (kept ++ (indent ++ s.cells target ++ (gap ++ brk)) ++ src) =
        pre ++ kept ++ (indent ++ s.cells target ++ (gap ++ brk)) ++ src := by
      simp
    have hnext : pre ++ kept ++ (indent ++ s.cells target ++ (gap ++ brk)) =
        pre ++ kept ++ indent ++ s.cells target ++ gap ++ brk := by
      simp
    have hkept := hpre.append hcut.ended
    rw [hsplit] at htext ⊢
    rw [List.map_cons, siteEdit_deleted hred, hrem, List.forall_mem_cons, ← hnext]
    refine ⟨fits_of_ended htext hkept hcut.ended_taken [], ?_⟩
    rw [← hnext] at ih
    exact ih htext (hkept.append hcut.ended_taken)
  | @redirected pre kept src out accepted s sites site r hcut hsite hred _ ih =>
    have hsplit : pre ++ (kept ++ s.cells target ++ src) =
        pre ++ kept ++ s.cells target ++ src := by
      simp
    have hkept := hpre.append hcut.ended
    rw [hsplit] at htext ⊢
    rw [List.map_cons, siteEdit_redirected hsite hred, List.forall_mem_cons]
    exact ⟨fits_of_ended htext hkept (s.ended target) _, ih htext (hkept.append (s.ended target))⟩

/-- White space is aligned. -/
theorem aligned_of_blank {text : Bytes} (h : ∀ b ∈ text, Byte.isBlank b) : Aligned text := by
  refine aligned_of_lt fun b hb => ?_
  have hb := h b hb
  simp only [Byte.isBlank, Bool.or_eq_true, beq_iff_eq] at hb
  rcases hb with (((rfl | rfl) | rfl) | rfl) | rfl <;> decide

/-- The woven text splits no character. -/
theorem Weave.aligned_out (hr : Aligned replacement)
    (h : Weave target keyword replacement pre accepted sites src out)
    (hsrc : Aligned (src.map (·.byte))) : Aligned (out.map (·.byte)) := by
  induction h with
  | done => exact hsrc
  | deleted hcut _ _ _ _ ih =>
    rw [List.map_append] at hsrc
    have hfront := hsrc.left
    have hrest := hsrc.right (hcut.ended.append hcut.ended_taken).lt
    rw [List.map_append] at hfront ⊢
    exact hfront.left.append (ih hrest)
  | @redirected pre kept src out accepted s sites site r hcut hsite hred _ ih =>
    rw [List.map_append] at hsrc
    have hfront := hsrc.left
    have hrest := hsrc.right (hcut.ended.append (s.ended target)).lt
    have hlead : Aligned r.lead := aligned_of_blank (Statement.lead_isBlank hsite hred)
    -- the arguments stand behind a parenthesis, and behind them stand ASCII bytes only
    have harguments : Aligned (s.arguments.map (·.byte)) := by
      have hopen : Ended (kept ++ codeCells (target ++ s.blanks) ++ codeCells [Byte.openParen]) :=
        ended_snoc.2 rfl
      have hsplit : (kept ++ s.cells target).map (·.byte) =
          (kept ++ codeCells (target ++ s.blanks) ++ codeCells [Byte.openParen]).map (·.byte) ++
            (s.arguments.map (·.byte) ++
              Byte.closeParen :: (Statement.tailCells s.tail).map (·.byte)) := by
        simp [Statement.cells]
      rw [hsplit] at hfront
      exact (hfront.right hopen.lt).left
    have hcall : Aligned ((s.tidy.cells replacement).map (·.byte)) := by
      have hend : Aligned (Byte.closeParen :: if s.tail.isSome then [Byte.semicolon] else []) := by
        refine aligned_of_lt (List.forall_mem_cons.2 ⟨by decide, ?_⟩)
        split
        · exact List.forall_mem_singleton.2 (by decide)
        · simp
      have hparen : Aligned [Byte.openParen] :=
        aligned_of_lt (List.forall_mem_singleton.2 (by decide))
      have hall := hr.append (hparen.append (harguments.append hend))
      cases htail : s.tail <;>
        simpa [Statement.cells, Statement.tidy, Statement.tailCells, htail] using hall
    rw [List.map_append] at hfront
    rw [List.map_append, List.map_append, List.map_append, map_byte_codeCells]
    exact (hfront.left.append (hlead.append hcall)).append (ih hrest)

/-- The edits of the sites of a text are accepted, and they write the woven cells. -/
theorem Weave.apply {text : Bytes}
    (h : Weave target keyword replacement [] none sites (scan text) out) (htext : Aligned text) :
    Edit.apply text (sites.map (siteEdit replacement)) = .ok (out.map (·.byte)) := by
  have hfits := h.fits (by simpa using htext) .nil
  rw [List.nil_append, map_byte_scan] at hfits
  rw [Edit.apply_of_ordered hfits h.ordered.1]
  have := h.splice
  rw [map_byte_scan] at this
  rw [← this]
  rfl

end

/-! ## What is replaced by what -/

/-- The bytes before an offset on its line. -/
def rowBefore (text : Bytes) (offset : Nat) : Bytes :=
  ((text.take offset).reverse.takeWhile (· != Byte.newline)).reverse

/-- What the redirected call of a site is put behind: nothing when the call starts its line, and
otherwise a line break, the indentation of its line and one space. -/
def Lead (text : Bytes) (site : Site) (lead : Bytes) : Prop :=
  if site.startsLine then lead = []
  else ∃ brk, (brk = [Byte.newline] ∨ brk = [Byte.carriageReturn, Byte.newline]) ∧
    lead = brk ++ (rowBefore text site.start).takeWhile Byte.isHorizontal ++ [Byte.space]

/-- The text from `offset` on and what a sweep makes of it: between the kept parts the sites are
deleted or redirected in turn, each as the innermost handler around it says, and each change is
reported with its line. -/
inductive Replaced (keyword replacement text : Bytes) :
    Nat → List Site → Bytes → Bytes → List Change → Prop
  | done {offset : Nat} {kept : Bytes} : Replaced keyword replacement text offset [] kept kept []
  | deleted {offset : Nat} {kept taken rest out : Bytes} {site : Site} {sites : List Site}
      {changes : List Change}
      (hhandler : handlerAt? keyword text site.start = none)
      (hspan : site.removal = ⟨offset + kept.length, offset + kept.length + taken.length⟩)
      (hrest : Replaced keyword replacement text site.removal.stop sites rest out changes) :
      Replaced keyword replacement text offset (site :: sites) (kept ++ taken ++ rest)
        (kept ++ out) (⟨lineNumber text site.start, .deleted, none⟩ :: changes)
  | redirected {offset : Nat} {kept taken rest out lead : Bytes} {site : Site} {sites : List Site}
      {changes : List Change} {handler : Handler}
      (hhandler : handlerAt? keyword text site.start = some handler)
      (hspan : site.span = ⟨offset + kept.length, offset + kept.length + taken.length⟩)
      (hlead : Lead text site lead)
      (hrest : Replaced keyword replacement text site.span.stop sites rest out changes) :
      Replaced keyword replacement text offset (site :: sites) (kept ++ taken ++ rest)
        (kept ++ (lead ++ replacement ++ [Byte.openParen] ++ site.arguments ++ [Byte.closeParen] ++
          if site.semicolon then [Byte.semicolon] else []) ++ out)
        (⟨lineNumber text site.start, .redirected, handler.parameter⟩ :: changes)

section
variable {target keyword replacement text : Bytes} {pre src out : List Cell}
  {accepted : Option Span} {s : Statement} {site : Site} {sites : List Site}

/-- The row before a place is what stands on its line before it. -/
theorem rowBefore_eq {up row rest : List Cell} (hup : Cursor.LineBegins up)
    (hrow : ∀ c ∈ row, c.byte ≠ Byte.newline) :
    rowBefore ((up ++ row ++ rest).map (·.byte)) (up ++ row).length = row.map (·.byte) := by
  have htake : ((up ++ row ++ rest).map (·.byte)).take (up ++ row).length =
      up.map (·.byte) ++ row.map (·.byte) := by
    rw [List.map_append, ← List.length_map (f := (·.byte)), List.take_left, List.map_append]
  have hall : ∀ b ∈ (row.map (·.byte)).reverse, (b != Byte.newline) = true := by
    simpa using hrow
  rw [rowBefore, htake, List.reverse_append, List.takeWhile_append_of_pos hall]
  rcases List.eq_nil_or_concat up with rfl | ⟨u, c, rfl⟩
  · simp
  · have hc : c.byte = Byte.newline := hup c (by simp)
    simp [hc]

/-- The handler around a site is the one that its redirection names. -/
theorem Call.Statement.handlerAt?_site (ht : Dotted target)
    (htext : scan text = pre ++ s.cells target ++ src)
    (hsite : site = s.site target keyword pre src) :
    handlerAt? keyword text site.start = site.redirection.map (·.handler) := by
  obtain ⟨x, tl, hx, hcode, -⟩ := s.cells_eq_cons ht
  have hinside : x.isInside = false := by simp [Cell.isInside, hcode]
  rw [hx, List.append_assoc, List.cons_append] at htext
  obtain ⟨up, row, rfl, hup, hrow⟩ := Cursor.line_split pre
  rw [hsite]
  show handlerAt? keyword text (up ++ row).length = (redirection? _ _).map _
  rw [handlerAt?_eq htext hinside, redirection?_eq keyword _ hup hrow, Option.map_map]
  exact Option.map_id'.symm

/-- The text that a site is redirected behind. -/
theorem Call.Statement.lead_site {behind : List Cell} {r : Redirection}
    (htext : text = (pre ++ src).map (·.byte))
    (hsite : site = s.site target keyword pre behind) (hred : site.redirection = some r) :
    Lead text site r.lead := by
  obtain ⟨up, row, rfl, hup, hrow⟩ := Cursor.line_split pre
  have hstarts : site.startsLine = row.all (Byte.isHorizontal ·.byte) := by
    rw [hsite]
    exact Cursor.startsLine_past keyword hup hrow
  have hstart : site.start = (up ++ row).length := by
    rw [hsite]
    rfl
  rw [hsite] at hred
  have hlead : redirection? _ _ = some r := hred
  rw [redirection?_eq keyword _ hup hrow] at hlead
  obtain ⟨handler, -, rfl⟩ := Option.map_eq_some_iff.1 hlead
  rw [Lead, hstart, htext, rowBefore_eq hup hrow, hstarts]
  by_cases hall : row.all (Byte.isHorizontal ·.byte) = true
  · simp [hall]
  · rw [if_neg hall]
    refine ⟨_, ?_, by simp only [hall]; rfl⟩
    unfold lineBreak
    split
    · exact .inr rfl
    · exact .inl rfl

/-- A site names the line that it starts on. -/
theorem Call.Statement.line_site {behind : List Cell} (htext : text = (pre ++ src).map (·.byte))
    (hsite : site = s.site target keyword pre behind) :
    site.line = lineNumber text site.start := by
  rw [hsite]
  show (Cursor.past keyword pre).line = lineNumber text pre.length
  rw [Cursor.line_past, lineNumber, htext, List.map_append, ← List.length_map (f := (·.byte)),
    List.take_left]

/-- A woven text is the text with its sites replaced. -/
theorem Weave.replaced (ht : Dotted target)
    (h : Weave target keyword replacement pre accepted sites src out)
    (htext : scan text = pre ++ src) :
    Replaced keyword replacement text pre.length sites (src.map (·.byte)) (out.map (·.byte))
      (sites.map siteChange) := by
  induction h with
  | done => exact .done
  | @deleted pre kept indent gap brk src out accepted s sites site _ hsite hred hrem _ ih =>
    have hplace : scan text = pre ++ kept ++ indent ++ s.cells target ++ (gap ++ brk ++ src) := by
      rw [htext]
      simp
    have hbytes : text = (pre ++ kept ++ indent ++ (s.cells target ++ (gap ++ brk ++ src))).map
        (·.byte) := by
      rw [← List.append_assoc, ← hplace, map_byte_scan]
    have hhandler : handlerAt? keyword text site.start = none := by
      rw [Statement.handlerAt?_site ht hplace hsite, hred]
      rfl
    have hchange : siteChange site = ⟨lineNumber text site.start, .deleted, none⟩ := by
      rw [siteChange, hred, Statement.line_site hbytes hsite]
    have hrest := ih (by rw [hplace]; simp)
    have hstop : (pre ++ kept ++ indent ++ s.cells target ++ gap ++ brk).length =
        site.removal.stop := by rw [hrem]
    rw [hstop] at hrest
    rw [List.map_cons, hchange]
    simp only [List.map_append]
    refine .deleted hhandler ?_ hrest
    rw [hrem]
    simp [Nat.add_assoc]
  | @redirected pre kept src out accepted s sites site r _ hsite hred _ ih =>
    have hplace : scan text = pre ++ kept ++ s.cells target ++ src := by
      rw [htext]
      simp
    have hbytes : text = (pre ++ kept ++ (s.cells target ++ src)).map (·.byte) := by
      rw [← List.append_assoc, ← hplace, map_byte_scan]
    have hhandler : handlerAt? keyword text site.start = some r.handler := by
      rw [Statement.handlerAt?_site ht hplace hsite, hred]
      rfl
    have hchange : siteChange site =
        ⟨lineNumber text site.start, .redirected, r.handler.parameter⟩ := by
      rw [siteChange, hred, Statement.line_site hbytes hsite]
    have hput : (codeCells r.lead ++ s.tidy.cells replacement).map (·.byte) =
        r.lead ++ replacement ++ [Byte.openParen] ++ site.arguments ++ [Byte.closeParen] ++
          if site.semicolon then [Byte.semicolon] else [] := by
      rw [List.map_append, map_byte_codeCells, ← callText_eq hsite, callText]
      cases site.semicolon <;> simp
    have hspan : site.span = ⟨(pre ++ kept).length, (pre ++ kept ++ s.cells target).length⟩ := by
      rw [hsite]
      simp [Site.span, Statement.site, Nat.add_assoc]
    have hrest := ih hplace
    have hstop : (pre ++ kept ++ s.cells target).length = site.span.stop := by rw [hspan]
    rw [hstop] at hrest
    generalize codeCells r.lead ++ s.tidy.cells replacement = put at hput ⊢
    rw [List.map_cons, hchange]
    simp only [List.map_append, hput]
    refine .redirected hhandler ?_ (Statement.lead_site hbytes hsite hred) hrest
    rw [hspan]
    simp [Nat.add_assoc]

end

/-- A sweep of an aligned text goes through, and its text is woven. -/
theorem sweepScript_weave {rules : Rules} (h : rules.fault? = none) {text : Bytes}
    (htext : Aligned text) :
    ∃ out, Weave (.ofString rules.target) (.ofString rules.keyword) (.ofString rules.replacement)
      [] none (rules.sites text) (scan text) out ∧
      Edit.apply text ((rules.sites text).map (siteEdit (.ofString rules.replacement))) =
        .ok (out.map (·.byte)) ∧
      (sweepScript rules text).text = out.map (·.byte) ∧
      (sweepScript rules text).changes = (rules.sites text).map siteChange ∧
      (sweepScript rules text).deleted + (sweepScript rules text).redirected =
        (rules.sites text).length := by
  obtain ⟨out, hweave⟩ := exists_weave (Rules.dotted_target h) (.ofString rules.keyword)
    (.ofString rules.replacement) text
  have happly : Edit.apply text
      ((rules.sites text).map (siteEdit (.ofString rules.replacement))) = .ok (out.map (·.byte)) :=
    hweave.apply htext
  refine ⟨out, hweave, happly, ?_⟩
  have hfind : (find (.ofString rules.target) (.ofString rules.keyword) text).sites =
      rules.sites text := rfl
  simp only [sweepScript, hfind, happly, true_and]
  rw [Nat.sub_add_cancel List.countP_le_length, List.length_map]

/-- The swept text is the text with the edits of its sites written into it. -/
theorem text_sweepScript {rules : Rules} (h : rules.fault? = none) {text : Bytes}
    (htext : Aligned text) :
    (sweepScript rules text).text = Edit.splice 0 text (rules.edits text) := by
  obtain ⟨out, hweave, -, hout, -, -⟩ := sweepScript_weave h htext
  have hsplice := hweave.splice
  rw [map_byte_scan] at hsplice
  rw [hout, ← hsplice]
  rfl

/-- The edits of a sweep come one behind the other and lie in the text. -/
theorem Rules.ordered_edits {rules : Rules} (h : rules.fault? = none) {text : Bytes}
    (htext : Aligned text) : Edit.Ordered (rules.edits text) ∧
      ∀ e ∈ rules.edits text, e.start ≤ e.stop ∧ e.stop ≤ text.length := by
  obtain ⟨out, hweave, -⟩ := sweepScript_weave h htext
  refine ⟨hweave.ordered.1, fun e he => ?_⟩
  have hfits := hweave.fits (by simpa using htext) .nil e he
  rw [List.nil_append, map_byte_scan] at hfits
  exact ⟨hfits.start_le, hfits.stop_le⟩

/-- Sweeping a script by checked rules goes through: the text is kept byte for byte, except that
every call statement found in it is deleted or redirected as its handler says, with one change
reported for each. -/
theorem sweepScript_replaces (rules : Rules) (h : rules.fault? = none) (source : String) :
    Edit.apply (.ofString source) ((rules.sites (.ofString source)).map
        (siteEdit (.ofString rules.replacement))) =
      .ok (sweepScript rules (.ofString source)).text ∧
    Replaced (.ofString rules.keyword) (.ofString rules.replacement) (.ofString source) 0
      (rules.sites (.ofString source)) (.ofString source)
      (sweepScript rules (.ofString source)).text (sweepScript rules (.ofString source)).changes ∧
    (sweepScript rules (.ofString source)).deleted +
      (sweepScript rules (.ofString source)).redirected =
        (rules.sites (.ofString source)).length := by
  obtain ⟨out, hweave, happly, htext, hchanges, hcount⟩ :=
    sweepScript_weave h (aligned_ofString source)
  have hreplaced := hweave.replaced (Rules.dotted_target h) rfl
  rw [map_byte_scan] at hreplaced
  rw [htext, hchanges]
  exact ⟨happly, hreplaced, hcount⟩

/-- A call in a handler is redirected, to a line of its own. -/
theorem sweepScript_replaces_handler :
    ({} : Rules).fault? = none ∧
    (({} : Rules).sites (.ofString "catch{console.log(1)}")).map
      (fun site => (site.span, site.redirection.map (·.lead))) =
        [(⟨6, 20⟩, some [Byte.newline, Byte.space])] ∧
    Replaced (.ofString "catch") (.ofString "console.error") (.ofString "catch{console.log(1)}") 0
      (({} : Rules).sites (.ofString "catch{console.log(1)}")) (.ofString "catch{console.log(1)}")
      (sweepScript {} (.ofString "catch{console.log(1)}")).text
      (sweepScript {} (.ofString "catch{console.log(1)}")).changes :=
  ⟨by decide +kernel, by decide +kernel,
    (sweepScript_replaces {} (by decide +kernel) "catch{console.log(1)}").2.1⟩

end LogSweep
