import LogSweep.Proofs.Sweep.Stable

/-!
# Where calls were deleted

What follows a call statement without a semicolon of its own does not continue an expression
(`Run.not_continuesExpression`), and a sweep does not bring anything there that does: what comes
next in the swept text is what came next before, or a redirected call, as long as nothing else is
deleted in front of it (`Weave.not_continuesExpression`). A semicolon that goes with its call is
another matter: what comes next may then continue what stands before the call.
-/

namespace LogSweep

open Lexical Block Call

/-! ## Behind a call statement -/

/-- Blanks are gaps. -/
theorem Blanks.isGap {cells : List Cell} (h : Blanks cells) : ∀ c ∈ cells, c.isGap = true := by
  intro c hc
  obtain ⟨hcode, hblank⟩ := h c hc
  simp [Cell.isGap, Cell.kind?, hcode, hblank]

/-- A code cell with a byte that continues no expression. -/
theorem not_continuesExpression_cons {c : Cell} (hcode : c.mark = .code)
    (hblank : Byte.isBlank c.byte = false) (hbyte : continuations.contains c.byte = false)
    (rest : List Cell) : continuesExpression (c :: rest) = false := by
  have hgap : c.isGap = false := by simp [Cell.isGap, Cell.kind?, hcode, hblank]
  have hdrop : (c :: rest).dropWhile (·.isGap) = c :: rest :=
    List.dropWhile_cons_of_neg (by simp [hgap])
  have hkind : (c.kind? == some .template) = false := by
    rw [Cell.kind?, hcode]
    rfl
  rw [continuesExpression, hdrop]
  simp only [hkind, hbyte, Bool.and_false, Bool.or_false]

/-- No name begins with a byte that continues an expression. -/
theorem not_continuation_of_isName {b : UInt8} (h : Byte.isName b = true) :
    continuations.contains b = false := by
  have hall : continuations.all (fun b => !Byte.isName b) = true := by decide +kernel
  rw [Bool.eq_false_iff]
  intro hmem
  have hb := List.all_eq_true.1 hall b (List.contains_iff_mem.1 hmem)
  rw [h] at hb
  cases hb

/-- Behind a statement that ends without a semicolon no expression is continued. -/
theorem not_continuesExpression_of_ending {offset : Nat} {cells : List Cell} {e : Ending}
    (hlex : Lexed cells) (h : ending? offset cells = some e) (hsemi : e.semicolon = false) :
    continuesExpression cells = false := by
  obtain ⟨gap, rest, rfl, hgap, hstop⟩ := skip_split Byte.isHorizontal cells
  obtain ⟨hcells, hrest⟩ := hlex.of_plain fun c hc =>
    isPlain_of_isBlank (isBlank_of_isHorizontal (hgap c hc))
  have hblanks : Blanks gap := by
    intro c hc
    refine ⟨?_, isBlank_of_isHorizontal (hgap c hc)⟩
    rw [hcells] at hc
    exact (mem_codeCells.1 hc).2
  rw [continuesExpression_of_gaps hblanks.isGap]
  rw [ending?, skipWhile_append hgap hstop] at h
  cases rest with
  | nil => rfl
  | cons c ahead =>
    simp only at h
    split at h
    · cases h
      cases hsemi
    · split at h
      · next hbrace =>
        have hc : [c] = codeCells [c.byte] := (Lexed.of_plain (a := [c]) hrest (by
          rw [List.forall_mem_singleton, beq_iff_eq.1 hbrace]; rfl)).1
        have hcode : c.mark = .code := by rw [(List.cons.inj hc).1]
        exact not_continuesExpression_cons hcode (by rw [beq_iff_eq.1 hbrace]; rfl)
          (by rw [beq_iff_eq.1 hbrace]; rfl) ahead
      · split at h
        · split at h
          · cases h
          · split at h
            · cases h
            · next hexpr => exact Bool.eq_false_iff.2 hexpr
        · cases h

section
variable {target keyword replacement : Bytes} {pre ahead src out : List Cell}
  {accepted : Option Span} {sites : List Site} {refused : List Refused}

/-- Behind a site without a semicolon no expression is continued. -/
theorem Call.Run.not_continuesExpression (h : Run target keyword pre accepted ahead sites refused)
    (hlex : Lexed (pre ++ ahead)) : ∀ site ∈ sites, site.semicolon = false →
      continuesExpression ((pre ++ ahead).drop site.stop) = false := by
  induction h with
  | done => simp
  | pass _ _ ih | refuse _ _ _ ih => simpa using ih (by simpa using hlex)
  | @accept pre behind accepted s sites refused hat cl _ hbehind _ _ ih =>
    refine List.forall_mem_cons.2 ⟨fun hsemi => ?_, ?_⟩
    · have htail : Statement.tailCells s.tail = [] := by
        cases htail : s.tail with
        | none => rfl
        | some bytes => simp [Statement.site, htail] at hsemi
      have hstop : (s.site target keyword pre behind).stop = (pre ++ s.cells target).length := by
        rw [List.length_append]
        rfl
      have hlex' : Lexed behind := by
        obtain ⟨init, z, hz, hcode, -⟩ := s.cells_eq_snoc target
        rw [hz] at hlex
        exact Lexed.of_code (a := pre ++ init) (by simpa using hlex) hcode
      rw [hstop, ← List.append_assoc, List.drop_left]
      have hending := hat.ending
      rw [htail] at hending
      exact not_continuesExpression_of_ending hlex' hending hsemi
    · have hcells : pre ++ (s.cells target ++ behind) =
          pre ++ s.cells target ++ cl.gap ++ cl.brk ++ cl.rest := by
        rw [hbehind]
        simp
      rw [hcells] at hlex ⊢
      exact ih hlex

/-! ## Behind a place where a call was deleted -/

/-- In front of the next thing behind the place of `site` in `out`, to which the edits bring it,
none of the sites `after` it is deleted. -/
def LastDeleted (offset : Nat) (edits : List Edit) (out : List Cell) (site : Site)
    (after : List Site) : Prop :=
  ∀ later ∈ after, later.redirection = none →
    Edit.moved offset site.removal.start edits +
        ((out.drop (Edit.moved offset site.removal.start edits)).takeWhile (·.isGap)).length <
      Edit.moved offset later.removal.start edits

/-- Cells of which only some are a gap. -/
theorem exists_not_gap {kept out : List Cell}
    (h : ((kept ++ out).takeWhile (·.isGap)).length < kept.length) :
    ∃ x ∈ kept, x.isGap = false := by
  by_contra hnone
  have hall : ∀ x ∈ kept, x.isGap = true := by simpa using hnone
  rw [List.takeWhile_append_of_pos hall, List.length_append] at h
  omega

/-- What is put in the place of a redirected call continues no expression. -/
theorem not_continuesExpression_put (hr : Dotted replacement) {s : Statement} {site : Site}
    {r : Redirection} {behind : List Cell} (hsite : site = s.site target keyword pre behind)
    (hred : site.redirection = some r) (rest : List Cell) :
    continuesExpression (codeCells r.lead ++ s.tidy.cells replacement ++ rest) = false := by
  obtain ⟨x, tl, hx, hcode, hname⟩ := s.tidy.cells_eq_cons hr
  have hblank : Byte.isBlank x.byte = false := by
    rw [Bool.eq_false_iff]
    intro hblank
    have hdotted := not_isDottedByte_of_isBlank hblank
    rw [isDottedByte, hname] at hdotted
    cases hdotted
  rw [List.append_assoc, continuesExpression_of_gaps (Statement.lead_blanks hsite hred).isGap, hx]
  exact not_continuesExpression_cons hcode hblank (not_continuation_of_isName hname) _

/-- Where a deleted site was, in the swept text behind `pre`. -/
theorem moved_removal (ht : Dotted target) {kept indent gap brk : List Cell} {s : Statement}
    {site : Site} (hred : site.redirection = none)
    (hrem : site.removal = ⟨(pre ++ kept).length,
      (pre ++ kept ++ indent ++ s.cells target ++ gap ++ brk).length⟩) :
    Edit.moved pre.length site.removal.start ((site :: sites).map (siteEdit replacement)) =
      kept.length := by
  have hpos := s.length_cells_pos ht
  have hlt : site.removal.start < site.removal.stop := by
    rw [hrem]
    simp only [List.length_append]
    omega
  rw [List.map_cons, siteEdit_deleted hred, Edit.moved_cons_of_lt hlt, hrem]
  simp

/-- What comes first in a swept text continues no expression when what came first before did not. -/
theorem Weave.not_continuesExpression_out (ht : Dotted target) (hr : Dotted replacement)
    (h : Weave target keyword replacement pre accepted sites src out)
    (hfirst : ∀ site ∈ sites, site.redirection = none → (out.takeWhile (·.isGap)).length <
      Edit.moved pre.length site.removal.start (sites.map (siteEdit replacement)))
    (hsrc : continuesExpression src = false) : continuesExpression out = false := by
  -- a kept part that is no gap comes first before and after the sweep
  have hkept : ∀ kept rest rest' : List Cell, (∃ x ∈ kept, x.isGap = false) →
      continuesExpression (kept ++ rest) = false → continuesExpression (kept ++ rest') = false := by
    intro kept rest rest' hx hrest
    rw [continuesExpression_of_not_gap hx] at hrest ⊢
    exact hrest
  cases h with
  | done => exact hsrc
  | @deleted _ kept _ _ _ src out _ s sites site _ _ hred hrem _ =>
    have hplace := hfirst site List.mem_cons_self hred
    rw [moved_removal ht hred hrem] at hplace
    rw [List.append_assoc] at hsrc
    exact hkept kept _ out (exists_not_gap hplace) hsrc
  | @redirected _ kept src out _ s sites site r _ hsite hred _ =>
    rw [List.append_assoc] at hsrc ⊢
    by_cases hx : ∃ x ∈ kept, x.isGap = false
    · exact hkept kept _ _ hx hsrc
    · rw [continuesExpression_of_gaps (by simpa using hx)]
      exact not_continuesExpression_put hr hsite hred out

/-- What edits in front of it do to the place of a site that is deleted. -/
theorem Weave.moved_removal_behind {kept taken put : List Cell} {first later : Site}
    (hedit : siteEdit replacement first =
      ⟨(pre ++ kept).length, (pre ++ kept ++ taken).length, put.map (·.byte)⟩)
    (hrest : Weave target keyword replacement (pre ++ kept ++ taken) accepted sites src out)
    (hlater : later ∈ sites) (hred : later.redirection = none) :
    Edit.moved pre.length later.removal.start ((first :: sites).map (siteEdit replacement)) =
      (kept ++ put).length + Edit.moved (pre ++ kept ++ taken).length later.removal.start
        (sites.map (siteEdit replacement)) := by
  have hge := hrest.ordered.2 _ (List.mem_map_of_mem hlater)
  rw [siteEdit_deleted hred] at hge
  simpa using moved_behind [] hedit hge

/-- Behind the first of its sites a swept text goes on as the text behind that site does. -/
theorem LastDeleted.behind {kept taken put : List Cell} {first site : Site}
    {before after : List Site}
    (hedit : siteEdit replacement first =
      ⟨(pre ++ kept).length, (pre ++ kept ++ taken).length, put.map (·.byte)⟩)
    (hrest : Weave target keyword replacement (pre ++ kept ++ taken) accepted sites src out)
    (hsites : sites = before ++ site :: after) (hred : site.redirection = none)
    (h : LastDeleted pre.length ((first :: sites).map (siteEdit replacement)) (kept ++ put ++ out)
      site after) :
    (kept ++ put ++ out).drop (Edit.moved pre.length site.removal.start
        ((first :: sites).map (siteEdit replacement))) =
      out.drop (Edit.moved (pre ++ kept ++ taken).length site.removal.start
        (sites.map (siteEdit replacement))) ∧
    LastDeleted (pre ++ kept ++ taken).length (sites.map (siteEdit replacement)) out site
      after := by
  have hplace := hrest.moved_removal_behind hedit (by rw [hsites]; simp) hred
  have hdrop : (kept ++ put ++ out).drop (Edit.moved pre.length site.removal.start
        ((first :: sites).map (siteEdit replacement))) =
      out.drop (Edit.moved (pre ++ kept ++ taken).length site.removal.start
        (sites.map (siteEdit replacement))) := by
    rw [hplace, ← List.drop_drop, List.drop_left]
  refine ⟨hdrop, fun later hlater hnone => ?_⟩
  have hbefore := h later hlater hnone
  have hmem : later ∈ sites := by
    rw [hsites]
    exact List.mem_append_right _ (List.mem_cons_of_mem _ hlater)
  rw [hdrop, hplace, hrest.moved_removal_behind hedit hmem hnone] at hbefore
  omega

/-- Where the last of the calls deleted at a place had no semicolon, what comes next continues no
expression. -/
theorem Weave.not_continuesExpression (ht : Dotted target) (hr : Dotted replacement)
    (h : Weave target keyword replacement pre accepted sites src out)
    (hends : ∀ site ∈ sites, site.semicolon = false →
      continuesExpression ((pre ++ src).drop site.stop) = false)
    {before after : List Site} {site : Site} (hsites : sites = before ++ site :: after)
    (hred : site.redirection = none) (hsemi : site.semicolon = false)
    (hlast : LastDeleted pre.length (sites.map (siteEdit replacement)) out site after) :
    continuesExpression (out.drop (Edit.moved pre.length site.removal.start
      (sites.map (siteEdit replacement)))) = false := by
  induction h generalizing before with
  | done => simp at hsites
  | @deleted pre kept indent gap brk src out accepted s sites first hcut hsite hfirst hrem hrest
      ih =>
    have hbehind : pre ++ kept ++ (indent ++ s.cells target ++ (gap ++ brk)) =
        pre ++ kept ++ indent ++ s.cells target ++ gap ++ brk := by simp
    have hedit : siteEdit replacement first = ⟨(pre ++ kept).length, _, [].map Cell.byte⟩ :=
      siteEdit_removal hfirst hrem
    rw [← hbehind] at hrest ih
    cases before with
    | nil =>
      obtain ⟨rfl, rfl⟩ := List.cons.inj hsites
      have hplace : Edit.moved pre.length first.removal.start
          ((first :: sites).map (siteEdit replacement)) = kept.length :=
        moved_removal ht hfirst hrem
      rw [hplace, List.drop_left]
      refine hrest.not_continuesExpression_out ht hr (fun later hlater hnone => ?_) ?_
      · have hbefore := hlast later hlater hnone
        rw [hplace, List.drop_left, hrest.moved_removal_behind hedit hlater hnone,
          List.append_nil] at hbefore
        omega
      · have hstop : first.stop = (pre ++ kept ++ indent ++ s.cells target).length := by
          rw [hsite, List.length_append]
          rfl
        have hcells : pre ++ (kept ++ (indent ++ s.cells target ++ (gap ++ brk)) ++ src) =
            pre ++ kept ++ indent ++ s.cells target ++ (gap ++ brk ++ src) := by simp
        have hcontinues := hends first List.mem_cons_self hsemi
        rwa [hstop, hcells, List.drop_left, continuesExpression_of_gaps hcut.extra_blanks.isGap]
          at hcontinues
    | cons first' before =>
      obtain ⟨rfl, hothers⟩ := List.cons.inj hsites
      obtain ⟨hdrop, hlast⟩ := LastDeleted.behind hedit hrest hothers hred (by simpa using hlast)
      rw [List.append_nil] at hdrop
      rw [hdrop]
      refine ih (fun site' hsite' => ?_) hothers hlast
      simpa using hends site' (List.mem_cons_of_mem _ hsite')
  | @redirected pre kept src out accepted s sites first r hcut hsite hfirst hrest ih =>
    cases before with
    | nil =>
      obtain ⟨rfl, -⟩ := List.cons.inj hsites
      rw [hfirst] at hred
      cases hred
    | cons first' before =>
      obtain ⟨rfl, hothers⟩ := List.cons.inj hsites
      obtain ⟨hdrop, hlast⟩ := LastDeleted.behind (siteEdit_redirected hsite hfirst) hrest hothers
        hred hlast
      rw [hdrop]
      refine ih (fun site' hsite' => ?_) hothers hlast
      simpa using hends site' (List.mem_cons_of_mem _ hsite')

end

/-- A deletion lets nothing come close that the call kept away, unless a semicolon goes with the
call: where the last of the calls deleted at a place of the swept text had no semicolon of its own,
the first thing behind that place, white space and comments apart, continues no expression. -/
theorem not_continuesExpression_sweepScript (rules : Rules) (h : rules.fault? = none)
    (source : String) {before after : List Site} {site : Site}
    (hsites : rules.sites (.ofString source) = before ++ site :: after)
    (hred : site.redirection = none) (hsemi : site.semicolon = false)
    (hlast : LastDeleted 0 (rules.edits (.ofString source))
      (scan (sweepScript rules (.ofString source)).text) site after) :
    continuesExpression ((scan (sweepScript rules (.ofString source)).text).drop
      (Edit.moved 0 site.removal.start (rules.edits (.ofString source)))) = false := by
  have ht := Rules.dotted_target h
  have hr := Rules.dotted_replacement h
  obtain ⟨out, hweave, -, hout, -, -⟩ := sweepScript_weave h (aligned_ofString source)
  have hscan : scan (out.map (·.byte)) = out := hweave.lexed_out ht hr
  have hends := (find_run ht (.ofString rules.keyword) (.ofString source)).not_continuesExpression
    (Lexed.scan _)
  rw [hout, hscan] at hlast ⊢
  exact hweave.not_continuesExpression ht hr hends hsites hred hsemi hlast

/-- Of two calls that are deleted one behind the other, the last has no semicolon; behind it there
are a comment and a statement that is kept. -/
theorem not_continuesExpression_sweepScript_comment :
    ∃ before site after, ({} : Rules).fault? = none ∧
      ({} : Rules).sites (.ofString "x={}\nconsole.log(0);console.log(1)\n// a\ny;console.log(2)") =
        before ++ site :: after ∧
      before ≠ [] ∧ after ≠ [] ∧ site.redirection = none ∧ site.semicolon = false ∧
      continuesExpression ((scan (sweepScript {} (.ofString
        "x={}\nconsole.log(0);console.log(1)\n// a\ny;console.log(2)")).text).drop 5) = false := by
  let sites := ({} : Rules).sites
    (.ofString "x={}\nconsole.log(0);console.log(1)\n// a\ny;console.log(2)")
  have hfault : ({} : Rules).fault? = none := by decide +kernel
  have hsites : sites = sites.take 1 ++ sites.getD 1 default :: sites.drop 2 := by decide +kernel
  have hred : (sites.getD 1 default).redirection = none := by decide +kernel
  have hsemi : (sites.getD 1 default).semicolon = false := by decide +kernel
  have hplace : Edit.moved 0 (sites.getD 1 default).removal.start (({} : Rules).edits
      (.ofString "x={}\nconsole.log(0);console.log(1)\n// a\ny;console.log(2)")) = 5 := by
    decide +kernel
  refine ⟨sites.take 1, sites.getD 1 default, sites.drop 2, hfault, hsites, by decide +kernel,
    by decide +kernel, hred, hsemi, ?_⟩
  rw [← hplace]
  refine not_continuesExpression_sweepScript {} hfault _ hsites hred hsemi ?_
  rw [LastDeleted, text_sweepScript hfault (aligned_ofString _)]
  decide +kernel

/-- A semicolon that goes with its call no longer ends the statement in front: behind a brace that
closes an object, a parenthesis continues the expression. -/
theorem continuesExpression_sweepScript_brace :
    ({} : Rules).fault? = none ∧
    (({} : Rules).sites (.ofString "x={}\nconsole.log(1);\n(y)")).map
      (fun site => (site.redirection, site.semicolon, site.removal)) = [(none, true, ⟨5, 21⟩)] ∧
    Edit.moved 0 5 (({} : Rules).edits (.ofString "x={}\nconsole.log(1);\n(y)")) = 5 ∧
    lastByte? ((scan (sweepScript {} (.ofString "x={}\nconsole.log(1);\n(y)")).text).take 5) =
      some Byte.closeBrace ∧
    continuesExpression
      ((scan (sweepScript {} (.ofString "x={}\nconsole.log(1);\n(y)")).text).drop 5) = true := by
  decide +kernel

end LogSweep
