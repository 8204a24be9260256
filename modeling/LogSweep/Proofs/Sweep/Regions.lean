import LogSweep.Proofs.Lexical.Regions
import LogSweep.Proofs.Sweep.Replaced

/-!
# Comments and literals in the swept text

A sweep takes whole statements out of a text, from a place that is at rest in code up to a place in
code, so the scanner reads what is kept as it read it before. The swept text has the comments and
literals of the text, in the same order, without those inside deleted statements.
-/

namespace LogSweep

open Lexical Block Call

/-- Whether a region lies inside a site that is deleted. -/
def insideDeleted (sites : List Site) (r : Region) : Bool :=
  sites.any fun site => (siteChange site).action == .deleted &&
    decide (site.start ≤ r.span.start) && decide (r.span.stop ≤ site.stop)

section
variable {target keyword replacement : Bytes} {pre kept indent extra src out cells : List Cell}
  {accepted : Option Span} {s : Statement} {site : Site} {sites : List Site}

/-- A site is deleted when it is not redirected. -/
theorem siteChange_action : (siteChange site).action = .deleted ↔ site.redirection = none := by
  cases hred : site.redirection <;> simp [siteChange, hred]

/-- The sites of a weave lie behind what stands in front of it. -/
theorem Weave.start_ge (h : Weave target keyword replacement pre accepted sites src out) :
    ∀ site ∈ sites, pre.length ≤ site.start := by
  induction h with
  | done => simp
  | deleted _ hsite _ _ _ ih =>
    refine List.forall_mem_cons.2 ⟨?_, fun site hmem => Nat.le_trans ?_ (ih site hmem)⟩
    · rw [hsite]
      simp [Statement.site]
    · simp
  | redirected _ hsite _ _ ih =>
    refine List.forall_mem_cons.2 ⟨?_, fun site hmem => Nat.le_trans ?_ (ih site hmem)⟩
    · rw [hsite]
      simp [Statement.site]
    · simp

/-- What the regions of `cells` hold, those inside deleted sites left out; the cells stand between
`pre` and `post`. -/
def survivors (sites : List Site) (pre cells post : List Cell) : List (Kind × Bytes) :=
  ((regionsFrom pre.length [] cells).filter (!insideDeleted sites ·)).map
    (Region.content ((pre ++ cells ++ post).map (·.byte)))

/-- What survives in two stretches survives in each of them. -/
theorem survivors_append {a b : List Cell} (ha : Parted a) (hb : Parted b) (sites : List Site)
    (pre post : List Cell) : survivors sites pre (a ++ b) post =
      survivors sites pre a (b ++ post) ++ survivors sites (pre ++ a) b post := by
  simp [survivors, ha.regionsFrom_append hb]

/-- In front of all sites every region survives. -/
theorem survivors_front (h : Parted cells) {pre : List Cell}
    (hsites : ∀ site ∈ sites, (pre ++ cells).length ≤ site.start) (post : List Cell) :
    survivors sites pre cells post = pieces cells := by
  have hall : (regionsFrom pre.length [] cells).filter (!insideDeleted sites ·) =
      regionsFrom pre.length [] cells := by
    refine List.filter_eq_self.2 fun r hr => ?_
    have hspan := h.span_of_mem hr
    simp only [insideDeleted, Bool.not_eq_true', List.any_eq_false, Bool.and_eq_true,
      decide_eq_true_eq]
    rintro site hmem ⟨⟨-, hstart⟩, -⟩
    have := hsites site hmem
    simp only [List.length_append] at this
    omega
  rw [survivors, hall, h.map_content]

/-- Behind a site regions do not lie in it. -/
theorem survivors_behind (h : Parted cells) {pre : List Cell} (hstop : site.stop ≤ pre.length)
    (post : List Cell) :
    survivors (site :: sites) pre cells post = survivors sites pre cells post := by
  have hsame : ∀ r ∈ regionsFrom pre.length [] cells,
      (!insideDeleted (site :: sites) r) = !insideDeleted sites r := by
    intro r hr
    have hspan := h.span_of_mem hr
    have hout : ¬ r.span.stop ≤ site.stop := by omega
    simp [insideDeleted, hout]
  rw [survivors, List.filter_congr hsame, survivors]

/-- A redirected site takes nothing away. -/
theorem survivors_redirected (hred : site.redirection ≠ none) (pre cells post : List Cell) :
    survivors (site :: sites) pre cells post = survivors sites pre cells post := by
  have hkept : ((siteChange site).action == .deleted) = false := by
    simpa using mt siteChange_action.1 hred
  simp [survivors, insideDeleted, hkept]

/-- In a deleted site no region survives. -/
theorem survivors_deleted (h : Parted cells) (hred : site.redirection = none) {pre : List Cell}
    (hstart : site.start = pre.length) (hstop : site.stop = (pre ++ cells).length)
    (post : List Cell) : survivors (site :: sites) pre cells post = [] := by
  have hnone :
      (regionsFrom pre.length [] cells).filter (!insideDeleted (site :: sites) ·) = [] := by
    refine List.filter_eq_nil_iff.2 fun r hr => ?_
    have hspan := h.span_of_mem hr
    have hin : site.start ≤ r.span.start ∧ r.span.stop ≤ site.stop := by
      rw [hstart, hstop, List.length_append]
      omega
    simp [insideDeleted, siteChange_action.2 hred, hin]
  rw [survivors, hnone, List.map_nil]

/-- Blanks are code. -/
theorem Blanks.eq_codeCells (h : Blanks cells) : cells = codeCells (cells.map (·.byte)) := by
  rw [codeCells, List.map_map]
  refine (List.map_id cells).symm.trans (List.map_congr_left fun c hc => ?_)
  simp [← (h c hc).1]

/-- The comments and literals of a statement are those of its arguments. -/
theorem Call.Statement.parted_cells (h : Parted s.group) (function : Bytes) :
    Parted (s.cells function) ∧ pieces (s.cells function) = pieces s.group := by
  obtain ⟨tail, htail⟩ := Statement.tailCells_eq s.tail
  have hname := (parted_codeCells function).append (parted_codeCells s.blanks)
  rw [s.cells_eq, htail]
  refine ⟨(hname.append h).append (parted_codeCells tail), ?_⟩
  rw [(hname.append h).pieces_append (parted_codeCells tail), hname.pieces_append h,
    (parted_codeCells _).pieces_append (parted_codeCells _)]
  simp

/-- Blanks belong to no region. -/
theorem Blanks.parted (h : Blanks cells) : Parted cells := by
  rw [h.eq_codeCells]
  exact parted_codeCells _

/-- There are no regions in blanks. -/
theorem Blanks.survivors_eq_nil (h : Blanks cells) (sites : List Site) (pre post : List Cell) :
    survivors sites pre cells post = [] := by
  rw [survivors, h.eq_codeCells, regionsFrom_codeCells]
  rfl

/-- The regions of a text that survive hold what the regions of the woven text hold. -/
theorem Weave.survivors_eq (ht : Dotted target) (hr : Dotted replacement)
    (h : Weave target keyword replacement pre accepted sites src out) :
    survivors sites pre src [] = pieces out := by
  induction h with
  | done hlex => exact survivors_front hlex.parted (by simp) []
  | @deleted pre kept indent gap brk src out accepted s sites site hcut hsite hred _ hrest ih =>
    have hkept := (hcut.whole_kept ht).lexed.parted
    have hcells := (Statement.parted_cells hcut.whole_group.lexed.parted target).1
    have htaken := (hcut.indent_blanks.parted.append hcells).append hcut.extra_blanks.parted
    have hsrc := hrest.lexed_src.parted
    have hstart : site.start = (pre ++ kept ++ indent).length := by rw [hsite]; rfl
    have hstop : site.stop = (pre ++ kept ++ indent ++ s.cells target).length := by
      rw [hsite, List.length_append]
      rfl
    rw [survivors_append (hkept.append htaken) hsrc, survivors_append hkept htaken,
      survivors_front hkept, survivors_append (hcut.indent_blanks.parted.append hcells)
        hcut.extra_blanks.parted, survivors_append hcut.indent_blanks.parted hcells,
      hcut.indent_blanks.survivors_eq_nil, hcut.extra_blanks.survivors_eq_nil,
      survivors_deleted hcells hred hstart hstop, survivors_behind hsrc]
    · have hpre : pre ++ (kept ++ (indent ++ s.cells target ++ (gap ++ brk))) =
          pre ++ kept ++ indent ++ s.cells target ++ gap ++ brk := by
        simp
      rw [hpre, ih, hkept.pieces_append (hrest.lexed_out ht hr).parted]
      simp
    · rw [hstop]
      simp
    · refine List.forall_mem_cons.2 ⟨?_, fun site' hmem => ?_⟩
      · rw [hstart]
        simp
      · exact Nat.le_trans (by simp) (hrest.start_ge site' hmem)
  | @redirected pre kept src out accepted s sites site r hcut hsite hred hrest ih =>
    have hkept := (hcut.whole_kept ht).lexed.parted
    have hparted := hcut.whole_group.lexed.parted
    obtain ⟨hcells, hpieces⟩ := Statement.parted_cells hparted target
    obtain ⟨htidy, hpieces'⟩ := Statement.parted_cells (s := s.tidy) hparted replacement
    have hlead := parted_codeCells r.lead
    have hsrc := hrest.lexed_src.parted
    have hlater : ∀ site' ∈ sites, (pre ++ kept ++ s.cells target).length ≤ site'.start :=
      hrest.start_ge
    rw [survivors_redirected (by simp [hred]),
      survivors_append (hkept.append hcells) hsrc, survivors_append hkept hcells,
      survivors_front hkept, survivors_front hcells hlater, ← List.append_assoc, ih,
      (hkept.append (hlead.append htidy)).pieces_append (hrest.lexed_out ht hr).parted,
      hkept.pieces_append (hlead.append htidy), hlead.pieces_append htidy, pieces_codeCells,
      hpieces, hpieces', List.nil_append]
    · rfl
    · exact fun site' hmem => Nat.le_trans (by simp) (hlater site' hmem)

end

/-- The swept text has the comments and literals of the text, with the same contents and in the same
order, without those inside deleted statements. -/
theorem sweepScript_regions (rules : Rules) (h : rules.fault? = none) (source : String) :
    (regions (sweepScript rules (.ofString source)).text).map
      (Region.content (sweepScript rules (.ofString source)).text) =
    ((regions (.ofString source)).filter (!insideDeleted (rules.sites (.ofString source)) ·)).map
      (Region.content (.ofString source)) := by
  obtain ⟨out, hweave, -, htext, -, -⟩ := sweepScript_weave h (aligned_ofString source)
  have hsurvivors :=
    hweave.survivors_eq (Rules.dotted_target h) (Rules.dotted_replacement h)
  have hscan := hweave.lexed_out (Rules.dotted_target h) (Rules.dotted_replacement h)
  rw [htext, map_content_regions, hscan, ← hsurvivors, survivors, List.nil_append, List.append_nil,
    map_byte_scan]
  rfl

/-- A comment in the arguments of a deleted call goes with it, one behind it stays. -/
theorem sweepScript_regions_comment :
    ({} : Rules).fault? = none ∧
    (regions (.ofString "console.log(/*a*/'b')/*c*/")).length = 3 ∧
    (regions (sweepScript {} (.ofString "console.log(/*a*/'b')/*c*/")).text).map
      (Region.content (sweepScript {} (.ofString "console.log(/*a*/'b')/*c*/")).text) =
        [(.blockComment, .ofString "/*c*/")] :=
  ⟨by decide +kernel, by decide +kernel,
    (sweepScript_regions {} (by decide +kernel) "console.log(/*a*/'b')/*c*/").trans
      (by decide +kernel)⟩

end LogSweep
