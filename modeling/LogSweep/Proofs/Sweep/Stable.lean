import LogSweep.Proofs.Edit.Moved
import LogSweep.Proofs.Sweep.Stretches

/-!
# Calls that stay refused

A call that a sweep leaves alone is left alone by a second sweep, as long as the brackets in the
arguments of the call statements are well nested. The second search is followed along the weave of
the first sweep (`Weave.refused_again`): a kept part is quiet and every call in it is refused again;
in what is put in the place of a redirected call, statements are accepted in the arguments only, and
the parenthesis behind these keeps them from having a say in what comes next (`Spent`).
-/

namespace LogSweep

open Lexical Block Call

/-- Where the arguments of a redirected site stand, when what is put in its place begins at
`start`. -/
def putArguments (replacement : Bytes) (start : Nat) (site : Site) : Span :=
  let front := start + (site.redirection.elim 0 (·.lead.length)) + replacement.length + 1
  ⟨front, front + site.arguments.length⟩

/-! ## The statement accepted last -/

/-- A significant cell follows the statement accepted last. -/
def Spent (accepted : Option Span) (pre : List Cell) : Prop :=
  ∀ span ∈ accepted, ∃ a x g, pre = a ++ x :: g ∧ x.isSignificant = true ∧ span.stop ≤ a.length

section
variable {target keyword : Bytes} {accepted : Option Span} {pre kept rest : List Cell}

/-- More cells do not bring the accepted statement back. -/
theorem Spent.append (h : Spent accepted pre) (more : List Cell) :
    Spent accepted (pre ++ more) := by
  intro span hspan
  obtain ⟨a, x, g, rfl, hx, hstop⟩ := h span hspan
  exact ⟨a, x, g ++ more, by simp, hx, hstop⟩

/-- Then it makes no difference to what follows. -/
theorem Spent.ready (h : Spent accepted pre) {a : List Cell} (hready : Ready accepted (pre ++ a)) :
    Ready none (pre ++ a) := by
  intro b y d heq hy hd
  rcases hready b y d heq hy hd with ⟨span, hspan, hcontains⟩ | hbyte
  · exfalso
    obtain ⟨a', x, g, rfl, hx, hstop⟩ := h span hspan
    have hlt : b.length < a'.length := Nat.lt_of_lt_of_le (Span.contains_iff.1 hcontains).2 hstop
    -- the significant cell behind the statement comes behind the last significant cell
    rw [List.append_assoc] at heq
    rcases List.append_eq_append_iff.1 heq with ⟨e, rfl, -⟩ | ⟨e, rfl, he⟩
    · rw [List.length_append] at hlt
      omega
    · cases e with
      | nil => simp at hlt
      | cons z e =>
        obtain ⟨rfl, rfl⟩ := List.cons.inj he
        have := hd x (by simp)
        rw [hx] at this
        cases this
  · exact .inr hbyte

/-- Behind a significant cell it does not matter which statement was accepted last. -/
theorem Spent.quiet (h : Spent accepted pre) (hquiet : Quiet target keyword none pre kept rest) :
    Quiet target keyword accepted pre kept rest := by
  rintro a c b rfl ⟨s, behind, hs, hat⟩
  refine hquiet a c b rfl ⟨s, behind, hs, hat.boundary, ?_, hat.ending⟩
  have hpos := hat.position
  rw [atStatement_past_iff] at hpos ⊢
  exact ⟨hpos.1, h.ready hpos.2⟩

end

/-! ## What is put in the place of a redirected call -/

section
variable {target keyword replacement : Bytes} {pre out : List Cell} {accepted : Option Span}
  {s : Statement} {site : Site} {r : Redirection} {sites : List Site} {refused : List Refused}

/-- A run over what is put in the place of a redirected call accepts statements in its arguments
only, and what it has accepted last behind it is spent. -/
theorem Call.Run.over_put (ht : Dotted target) (hr : Dotted replacement)
    (hne : target ≠ replacement) {front src : List Cell}
    (hsite : site = s.site target keyword front src) (hred : site.redirection = some r)
    (hpre : Ended pre) (hspent : Spent accepted pre)
    (hlex : Lexed (codeCells r.lead ++ s.tidy.cells replacement ++ out))
    (h : Run target keyword pre accepted (codeCells r.lead ++ s.tidy.cells replacement ++ out) sites
      refused) :
    ∃ inner outer later last, sites = inner ++ outer ∧ (∀ r ∈ later, r ∈ refused) ∧
      Run target keyword (pre ++ (codeCells r.lead ++ s.tidy.cells replacement)) last out outer
        later ∧
      (∀ site' ∈ inner, (putArguments replacement pre.length site).contains site'.start = true) ∧
      Spent last (pre ++ (codeCells r.lead ++ s.tidy.cells replacement)) := by
  have hlead := Statement.lead_blanks hsite hred
  let opening := codeCells r.lead ++ (codeCells replacement ++ [⟨Byte.openParen, .code⟩])
  let closing := s.arguments ++ [⟨Byte.closeParen, .code⟩]
  let tail := Statement.tailCells s.tidy.tail
  have hput : codeCells r.lead ++ s.tidy.cells replacement = opening ++ closing ++ tail := by
    simp [opening, closing, tail, Statement.cells, Statement.tidy]
  have hopening : Quiet target keyword accepted pre opening (closing ++ (tail ++ out)) := by
    refine .append (.of_blanks ht hlead) (.append ?_ (.of_undotted ht ?_))
    · have hname : Quiet target keyword accepted (pre ++ codeCells r.lead) (codeCells replacement)
          (codeCells [] ++ ⟨Byte.openParen, .code⟩ :: (closing ++ (tail ++ out))) :=
        .of_name ht hr hne (by simp) (hpre.append hlead.ended)
      simpa using hname
    · exact List.forall_mem_singleton.2 rfl
  have hcells : codeCells r.lead ++ s.tidy.cells replacement ++ out =
      opening ++ (closing ++ (tail ++ out)) := by
    rw [hput]
    simp
  rw [hcells] at h hlex
  obtain ⟨_, refused', rfl, hrun, -⟩ := h.over_quiet hopening
  obtain ⟨inner, outer, later, last, rfl, hlater, hrun, hinner, hlast⟩ :=
    hrun.over_falling ht s.falling hlex
  obtain ⟨_, later, rfl, hrun, -⟩ := hrun.over_quiet (.of_undotted ht s.tidy.undotted_tail)
  have hlength : (pre ++ opening).length = pre.length + r.lead.length + replacement.length + 1 := by
    simp [opening, Nat.add_assoc]
  refine ⟨inner, outer, later, last, rfl, fun r hr => ?_, ?_, ?_, ?_⟩
  · exact List.mem_append_right _ (hlater r (List.mem_append_right _ hr))
  · rw [hput, ← List.append_assoc, ← List.append_assoc]
    exact hrun
  · intro site' hsite'
    obtain ⟨hstart, hstop, hend⟩ := hinner site' hsite'
    have harguments : site.arguments.length = s.arguments.length := by
      rw [hsite]
      simp [Statement.site]
    rw [List.length_append, hlength] at hend
    rw [hlength] at hstart
    simp only [List.length_append, List.length_singleton] at hend
    simp only [Span.contains_iff, putArguments, hred, Option.elim_some, harguments]
    omega
  · rw [hput]
    rcases hlast with rfl | ⟨span, rfl, hstop⟩
    · exact hspent.append _
    · -- the parenthesis stands behind all that is accepted in the arguments
      rintro _ ⟨⟩
      refine ⟨pre ++ opening ++ s.arguments, ⟨Byte.closeParen, .code⟩, tail, by simp [closing], rfl,
        ?_⟩
      simp only [List.length_append, List.length_singleton] at hstop ⊢
      omega

end

/-! ## The second search -/

/-- A cell of two stretches is one of the first or of the second. -/
theorem split_append {a b k m : List Cell} {c : Cell} (h : k ++ m = a ++ c :: b) :
    (∃ d, k = a ++ c :: d ∧ b = d ++ m) ∨ ∃ d, a = k ++ d ∧ m = d ++ c :: b := by
  rcases List.append_eq_append_iff.1 h with ⟨d, hd, hm⟩ | ⟨d, hk, hd⟩
  · exact .inr ⟨d, hd, hm⟩
  · cases d with
    | nil => exact .inr ⟨[], by simpa using hk.symm, by simpa using hd.symm⟩
    | cons x d =>
      obtain ⟨rfl, rfl⟩ := List.cons.inj hd
      exact .inl ⟨d, hk, rfl⟩

/-- A text from `pre` on with its sites, and what a search finds in the swept text from `pre'` on:
every call outside of the sites is untouched and refused where it now stands, and statements are
accepted in the arguments of redirected sites only. -/
structure Stays (target replacement : Bytes) (pre pre' : List Cell) (sites : List Site)
    (src : List Cell) (sites' : List Site) (refused' : List Refused) : Prop where
  refused : ∀ a c b, src = a ++ c :: b → Called target (pre ++ a) (c :: b) →
    (∀ site ∈ sites, site.span.contains (pre ++ a).length = false) →
    (∀ e ∈ sites.map (siteEdit replacement),
      (pre ++ a).length < e.start ∨ e.stop ≤ (pre ++ a).length) ∧
    ∃ r ∈ refused', r.start = pre'.length +
      Edit.moved pre.length (pre ++ a).length (sites.map (siteEdit replacement))
  accepted : ∀ site' ∈ sites', ∃ site ∈ sites, site.redirection ≠ none ∧
    (putArguments replacement (pre'.length +
      Edit.moved pre.length site.start (sites.map (siteEdit replacement))) site).contains
        site'.start = true

section
variable {target keyword replacement : Bytes} {pre pre' kept taken put src : List Cell}
  {site : Site} {sites inner outer : List Site} {later refused' : List Refused}

/-- Behind the first edit a place moves as the others move it. -/
theorem moved_behind (pre' : List Cell) {place : Nat}
    (hedit : siteEdit replacement site =
      ⟨(pre ++ kept).length, (pre ++ kept ++ taken).length, put.map (·.byte)⟩)
    (hplace : (pre ++ kept ++ taken).length ≤ place) :
    pre'.length + Edit.moved pre.length place ((site :: sites).map (siteEdit replacement)) =
      (pre' ++ kept ++ put).length + Edit.moved (pre ++ kept ++ taken).length place
        (sites.map (siteEdit replacement)) := by
  rw [List.map_cons, hedit, Edit.moved_cons_of_le hplace]
  simp only [List.length_append, List.length_map]
  omega

/-- The edit of a deleted site, in the form of the others. -/
theorem siteEdit_removal {indent gap brk : List Cell} {s : Statement}
    (hred : site.redirection = none)
    (hrem : site.removal = ⟨(pre ++ kept).length,
      (pre ++ kept ++ indent ++ s.cells target ++ gap ++ brk).length⟩) :
    siteEdit replacement site = ⟨(pre ++ kept).length,
      (pre ++ kept ++ (indent ++ s.cells target ++ (gap ++ brk))).length, [].map Cell.byte⟩ := by
  rw [siteEdit_deleted hred, hrem]
  simp

/-- One site more in front: the calls in the kept part are refused again, and in the part taken out
there are none but that of the site. -/
theorem Stays.cons
    (hedit : siteEdit replacement site =
      ⟨(pre ++ kept).length, (pre ++ kept ++ taken).length, put.map (·.byte)⟩)
    (hstart : site.start < (pre ++ kept ++ taken).length)
    (hkept : ∀ a c b, kept = a ++ c :: b → Called target (pre ++ a) (c :: b ++ (taken ++ src)) →
      ∃ r ∈ refused', r.start = (pre' ++ a).length)
    (htaken : ∀ a c b, taken = a ++ c :: b → Called target (pre ++ kept ++ a) (c :: b ++ src) →
      site.span.contains (pre ++ kept ++ a).length = true)
    (hinner : ∀ site' ∈ inner, site.redirection ≠ none ∧
      (putArguments replacement (pre'.length + (site.start - pre.length)) site).contains
        site'.start = true)
    (hlater : ∀ r ∈ later, r ∈ refused')
    (hge : ∀ site' ∈ sites, (pre ++ kept ++ taken).length ≤ site'.start)
    (hedits : ∀ e ∈ sites.map (siteEdit replacement), (pre ++ kept ++ taken).length ≤ e.start)
    (h : Stays target replacement (pre ++ kept ++ taken) (pre' ++ kept ++ put) sites src outer
      later) :
    Stays target replacement pre pre' (site :: sites) (kept ++ taken ++ src) (inner ++ outer)
      refused' := by
  constructor
  · intro a c b heq hcall hout
    obtain ⟨hsite, hsites⟩ := List.forall_mem_cons.1 hout
    rw [List.append_assoc] at heq
    rcases split_append heq with ⟨d, hk, rfl⟩ | ⟨d, rfl, hbehind⟩
    · obtain ⟨r, hr, hplace⟩ := hkept a c d hk (by simpa using hcall)
      have hfront : (pre ++ a).length < (pre ++ kept).length := by
        simp [hk]
      have hlt : (pre ++ a).length < (pre ++ kept ++ taken).length :=
        Nat.lt_of_lt_of_le hfront (by simp)
      rw [List.map_cons, hedit]
      refine ⟨List.forall_mem_cons.2 ⟨.inl hfront, fun e he => .inl ?_⟩, r, hr, ?_⟩
      · exact Nat.lt_of_lt_of_le hlt (hedits e he)
      · rw [hplace, Edit.moved_cons_of_lt hlt]
        simp
    · rw [← List.append_assoc] at hcall hsite hsites ⊢
      rcases split_append hbehind with ⟨e, ht, rfl⟩ | ⟨e, rfl, hsrc⟩
      · rw [htaken d c e ht (by simpa using hcall)] at hsite
        cases hsite
      · rw [← List.append_assoc] at hcall hsites ⊢
        obtain ⟨hapart, r, hr, hplace⟩ := h.refused e c b hsrc hcall hsites
        refine ⟨?_, r, hlater r hr, by rw [hplace, moved_behind _ hedit (by simp)]⟩
        rw [List.map_cons, hedit]
        exact List.forall_mem_cons.2 ⟨.inr (by simp), hapart⟩
  · intro site' hsite'
    rcases List.mem_append.1 hsite' with hsite' | hsite'
    · obtain ⟨hred, hcontains⟩ := hinner site' hsite'
      refine ⟨site, List.mem_cons_self, hred, ?_⟩
      rwa [List.map_cons, hedit, Edit.moved_cons_of_lt hstart]
    · obtain ⟨site₀, hmem, hred, hcontains⟩ := h.accepted site' hsite'
      refine ⟨site₀, List.mem_cons_of_mem _ hmem, hred, ?_⟩
      rwa [moved_behind _ hedit (hge site₀ hmem)]

end

section
variable {target keyword replacement : Bytes} {accepted last : Option Span}
  {pre pre' kept indent extra src out : List Cell} {s : Statement} {site : Site}
  {sites sites' : List Site} {refused' : List Refused}

/-- A call that begins in a kept part is one whatever stands around that part. -/
theorem Cut.called_kept (ht : Dotted target)
    (hcut : Cut target keyword accepted pre kept indent s extra src) (hpre : Ended pre')
    {a b rest rest' : List Cell} {c : Cell} (hkept : kept = a ++ c :: b)
    (h : Called target (pre ++ a) (c :: b ++ rest)) :
    Called target (pre' ++ a) (c :: b ++ rest') := by
  have hsealed : Sealed (c :: b) := by
    have := hcut.rests.sealed
    rw [hkept] at this
    exact this.of_append
  obtain ⟨blanks, more, hcall⟩ := (called_append ht hsealed).1 h
  exact (called_append ht hsealed).2
    ⟨blanks, more, hpre.append hcall.boundary.of_append, hcall.blank, hcall.ahead_eq⟩

/-- No call begins with what is no part of a name. -/
theorem not_called_of_undotted (ht : Dotted target) {ahead : List Cell} {c : Cell}
    (hc : isDottedByte c.byte = false) : ¬ Called target pre (c :: ahead) := by
  rintro ⟨blanks, rest, hcall⟩
  obtain ⟨b, name, rfl, hb⟩ := ht.head
  have heq := hcall.ahead_eq
  rw [codeCells_cons, List.cons_append, List.cons_append] at heq
  rw [(List.cons.inj heq).1, isDottedByte, hb] at hc
  cases hc

/-- In what is cut out calls begin in the statement only. -/
theorem Cut.contains_of_called (ht : Dotted target)
    (hcut : Cut target keyword accepted pre kept indent s extra src) {behind : List Cell}
    (hsite : site = s.site target keyword (pre ++ kept ++ indent) behind) {a b rest : List Cell}
    {c : Cell} (heq : indent ++ s.cells target ++ extra = a ++ c :: b)
    (hcall : Called target (pre ++ kept ++ a) (c :: b ++ rest)) :
    site.span.contains (pre ++ kept ++ a).length = true := by
  have hblank : ∀ cells, Blanks cells → c ∉ cells := by
    intro cells hcells hc
    exact not_called_of_undotted ht (not_isDottedByte_of_isBlank (hcells c hc).2) hcall
  rw [List.append_assoc] at heq
  rcases split_append heq with ⟨d, hd, -⟩ | ⟨d, rfl, hbehind⟩
  · exact absurd (by rw [hd]; simp) (hblank _ hcut.indent_blanks)
  · rcases split_append hbehind with ⟨e, he, -⟩ | ⟨e, -, he⟩
    · rw [hsite, Span.contains_iff]
      have hlength := congrArg List.length he
      simp only [List.length_append, List.length_cons] at hlength
      simp only [Site.span, Statement.site, List.length_append]
      omega
    · exact absurd (by rw [he]; simp) (hblank _ hcut.extra_blanks)

/-- There is no statement in no cells. -/
theorem Call.Run.sites_eq_nil (ht : Dotted target)
    (h : Run target keyword pre accepted [] sites refused') : sites = [] := by
  generalize hnil : ([] : List Cell) = ahead at h
  cases h with
  | done => rfl
  | pass | refuse => cases hnil
  | @accept _ _ _ s =>
    obtain ⟨x, tl, hx, -⟩ := s.cells_eq_cons ht
    rw [hx] at hnil
    cases hnil

/-- In the part behind the last site every call is refused again. -/
theorem Stays.of_quiet (ht : Dotted target) (hpre : Ended pre')
    (hquiet : Quiet target keyword last pre' kept [])
    (hrun : Run target keyword pre' last kept sites' refused') :
    Stays target replacement pre pre' [] kept sites' refused' := by
  rw [← List.append_nil kept] at hrun
  obtain ⟨refused₁, _, rfl, hend, hcalls⟩ := hrun.over_quiet hquiet
  rw [hend.sites_eq_nil ht]
  refine ⟨?_, by simp⟩
  rintro a c b rfl ⟨blanks, rest, hcall⟩ -
  have hcalled : Called target (pre' ++ a) (c :: b ++ []) :=
    ⟨blanks, rest, hpre.append hcall.boundary.of_append, hcall.blank, by
      rw [List.append_nil]
      exact hcall.ahead_eq⟩
  obtain ⟨r, hr, hplace⟩ := hcalls a c b rfl hcalled
  exact ⟨by simp, r, List.mem_append_left _ hr, by simp [hplace, Edit.moved]⟩

/-- The second search refuses again what the first one refused. -/
theorem Weave.refused_again (ht : Dotted target) (hr : Dotted replacement)
    (hne : target ≠ replacement)
    (h : Weave target keyword replacement pre accepted sites src out)
    (hnest : ∀ site ∈ sites, WellNested site.enclosed) (hfronts : Fronts accepted pre pre')
    (hspent : Spent last pre') (hrun : Run target keyword pre' last out sites' refused') :
    Stays target replacement pre pre' sites src sites' refused' := by
  induction h generalizing pre' last sites' refused' with
  | @done pre kept accepted hlex hquiet =>
    have hkept : Quiet target keyword last pre' kept [] :=
      hspent.quiet (.of_fronts hfronts hlex hquiet)
    exact .of_quiet ht hfronts.ended' hkept hrun
  | @deleted pre kept indent gap brk src out accepted s sites site hcut hsite hred hrem hrest ih =>
    obtain ⟨hfirst, hothers⟩ := List.forall_mem_cons.1 hnest
    rw [WellNested, hcut.scan_enclosed hsite] at hfirst
    have hgone := hcut.steady ht hfirst
    have hlex : Lexed (kept ++ ([] ++ out)) :=
      (hcut.whole_kept ht).lexed_append (hrest.lexed_out ht hr)
    have hkept : Quiet target keyword last pre' kept out := hspent.quiet <|
      .of_parallel ht hfronts hcut.rests hgone.level Steady.nil.level
        (hrest.parallel ht hr hothers) (by simpa using hcut.lexed) hlex hcut.quiet
    have hbehind : pre ++ kept ++ (indent ++ s.cells target ++ (gap ++ brk)) =
        pre ++ kept ++ indent ++ s.cells target ++ gap ++ brk := by simp
    have hnext : Fronts (some site.span) (pre ++ kept ++ indent ++ s.cells target ++ gap ++ brk)
        (pre' ++ kept) := by
      simpa using hfronts.cut ht hcut hsite hfirst .nil .nil
    obtain ⟨refused₁, later, rfl, hlater, hcalls⟩ := hrun.over_quiet hkept
    have hstays := ih hothers hnext (hspent.append kept) hlater
    have hge := hrest.start_ge
    have hedits := hrest.ordered.2
    rw [← hbehind] at hstays hge hedits
    have hedit : siteEdit replacement site = ⟨(pre ++ kept).length, _, [].map Cell.byte⟩ :=
      siteEdit_removal hred hrem
    show Stays _ _ _ _ _ _ ([] ++ sites') _
    refine Stays.cons hedit ?_ ?_ ?_ (by simp) (fun r hr => List.mem_append_right _ hr) hge hedits
      (by simpa using hstays)
    · have hpos := s.length_cells_pos ht
      rw [hsite]
      simp only [Statement.site, List.length_append]
      omega
    · intro a c b hk hcall
      obtain ⟨r, hr, hplace⟩ := hcalls a c b hk (hcut.called_kept ht hfronts.ended' hk hcall)
      exact ⟨r, List.mem_append_left _ hr, hplace⟩
    · intro a c b heq hcall
      exact hcut.contains_of_called ht hsite heq hcall
  | @redirected pre kept src out accepted s sites site r hcut hsite hred hrest ih =>
    obtain ⟨hfirst, hothers⟩ := List.forall_mem_cons.1 hnest
    rw [WellNested, hcut.scan_enclosed hsite] at hfirst
    have hput := Cut.steady_put hr hfirst hsite hred
    have hlex' := (hcut.whole_put hr hsite hred).lexed_append (hrest.lexed_out ht hr)
    have hkept : Quiet target keyword last pre' kept
        (codeCells r.lead ++ s.tidy.cells replacement ++ out) := hspent.quiet <|
      .of_parallel ht hfronts hcut.rests (s.steady ht hfirst).level hput.level
        (hrest.parallel ht hr hothers) (by simpa using hcut.lexed)
        ((hcut.whole_kept ht).lexed_append hlex') (by simpa using hcut.quiet)
    have hnext : Fronts (some site.span) (pre ++ kept ++ s.cells target)
        (pre' ++ kept ++ (codeCells r.lead ++ s.tidy.cells replacement)) := by
      have hended := (Statement.lead_blanks hsite hred).ended.append (s.tidy.ended replacement)
      simpa using hfronts.cut ht hcut (by simpa using hsite) hfirst hput hended
    rw [List.append_assoc] at hrun
    obtain ⟨refused₁, later, rfl, hafter, hcalls⟩ := hrun.over_quiet hkept
    obtain ⟨inner, outer, later', last', rfl, hlater, hafter, hinner, hspent'⟩ :=
      hafter.over_put ht hr hne hsite hred (hfronts.ended'.append hcut.ended) (hspent.append kept)
        hlex'
    have hstart : site.start = (pre ++ kept).length := by
      rw [hsite]
      rfl
    refine Stays.cons (siteEdit_redirected hsite hred) ?_ ?_ ?_ ?_
      (fun r hr => List.mem_append_right _ (hlater r hr)) hrest.start_ge hrest.ordered.2
      (ih hothers hnext hspent' hafter)
    · have hpos := s.length_cells_pos ht
      simp only [hstart, List.length_append]
      omega
    · intro a c b hk hcall
      obtain ⟨r, hr, hplace⟩ := hcalls a c b hk (hcut.called_kept ht hfronts.ended' hk hcall)
      exact ⟨r, List.mem_append_left _ hr, hplace⟩
    · intro a c b heq hcall
      exact hcut.contains_of_called ht (by simpa using hsite) (by simpa using heq) hcall
    · intro site' hsite'
      refine ⟨by simp [hred], ?_⟩
      have := hinner site' hsite'
      rwa [List.length_append, ← Nat.add_sub_cancel_left (n := pre.length) (m := kept.length),
        ← List.length_append, ← hstart] at this

/-- The arguments of a redirected call stand in the swept text as they stood in the source. -/
theorem Weave.slice_putArguments (ht : Dotted target)
    (h : Weave target keyword replacement pre accepted sites src out) (pre' : List Cell) :
    ∀ site ∈ sites, site.redirection ≠ none →
      Bytes.slice ((pre' ++ out).map (·.byte)) (putArguments replacement (pre'.length +
        Edit.moved pre.length site.start (sites.map (siteEdit replacement))) site) =
          site.arguments := by
  induction h generalizing pre' with
  | done => simp
  | @deleted pre kept indent gap brk src out accepted s sites site _ _ hred hrem hrest ih =>
    have hedit : siteEdit replacement site = ⟨(pre ++ kept).length, _, [].map Cell.byte⟩ :=
      siteEdit_removal hred hrem
    have hbehind : pre ++ kept ++ (indent ++ s.cells target ++ (gap ++ brk)) =
        pre ++ kept ++ indent ++ s.cells target ++ gap ++ brk := by simp
    refine List.forall_mem_cons.2 ⟨fun hne => absurd hred hne, fun site' hmem hne => ?_⟩
    have hge := hrest.start_ge site' hmem
    have hsame := ih (pre' ++ kept ++ []) site' hmem hne
    rw [← hbehind] at hge hsame
    rw [moved_behind _ hedit hge]
    simpa using hsame
  | @redirected pre kept src out accepted s sites site r _ hsite hred hrest ih =>
    have hedit : siteEdit replacement site = _ := siteEdit_redirected hsite hred
    refine List.forall_mem_cons.2 ⟨fun _ => ?_, fun site' hmem hne => ?_⟩
    · have hstart : site.start = (pre ++ kept).length := by
        rw [hsite]
        rfl
      have hlt : site.start < (pre ++ kept ++ s.cells target).length := by
        have hpos := s.length_cells_pos ht
        simp only [hstart, List.length_append]
        omega
      have harguments : site.arguments = s.arguments.map (·.byte) := by
        rw [hsite]
        rfl
      let front := pre' ++ kept ++
        (codeCells r.lead ++ (codeCells replacement ++ [⟨Byte.openParen, .code⟩]))
      let back := ⟨Byte.closeParen, .code⟩ :: (Statement.tailCells s.tidy.tail ++ out)
      have hcells : (pre' ++ (kept ++ (codeCells r.lead ++ s.tidy.cells replacement) ++ out)).map
          (·.byte) = front.map (·.byte) ++ site.arguments ++ back.map (·.byte) := by
        simp [front, back, harguments, Statement.cells, Statement.tidy]
      have hspan : putArguments replacement (pre'.length + (site.start - pre.length)) site =
          ⟨(front.map (·.byte)).length, (front.map (·.byte)).length + site.arguments.length⟩ := by
        have hfront : pre'.length + (site.start - pre.length) + r.lead.length +
            replacement.length + 1 = (front.map (·.byte)).length := by
          simp only [front, hstart, List.length_append, List.length_map, length_codeCells,
            List.length_singleton]
          omega
        simp only [putArguments, hred, Option.elim_some, hfront]
      rw [List.map_cons, hedit, Edit.moved_cons_of_lt hlt, hcells, hspan, slice_middle]
    · rw [moved_behind _ hedit (hrest.start_ge site' hmem)]
      simpa using ih (pre' ++ kept ++ (codeCells r.lead ++ s.tidy.cells replacement)) site' hmem hne

end

/-! ## Well nested arguments -/

section
variable {target keyword replacement : Bytes} {accepted : Option Span}
  {pre front kept indent extra src out behind : List Cell} {s : Statement} {site : Site}
  {sites : List Site}

/-- Arguments with well nested brackets are so in their parentheses. -/
theorem Cut.wellNested_enclosed (hcut : Cut target keyword accepted pre kept indent s extra src)
    (hsite : site = s.site target keyword front behind) (h : WellNested site.arguments) :
    WellNested site.enclosed := by
  have hlex : Lexed s.arguments := by
    have hbehind : Lexed (s.arguments ++ [⟨Byte.closeParen, .code⟩]) :=
      Lexed.of_code (a := []) (c := ⟨Byte.openParen, .code⟩) hcut.whole_group.lexed rfl
    exact hbehind.in_front (by decide) (by decide)
  have harguments : scan site.arguments = s.arguments := by
    rw [hsite]
    exact hlex
  rw [WellNested, harguments] at h
  have hopen : nest [] [⟨Byte.openParen, .code⟩] = some [.paren] := rfl
  have hclose : nest [.paren] [⟨Byte.closeParen, .code⟩] = some [] := rfl
  have hinside : nest [.paren] s.arguments = some [.paren] := nest_below h [.paren]
  have hgroup : s.group =
      [⟨Byte.openParen, .code⟩] ++ s.arguments ++ [⟨Byte.closeParen, .code⟩] := rfl
  rw [WellNested, hcut.scan_enclosed hsite, hgroup, nest_append, nest_append, hopen]
  simp only [Option.bind_some, hinside, hclose]

/-- Arguments that are well nested are so in their parentheses. -/
theorem Weave.wellNested_enclosed (h : Weave target keyword replacement pre accepted sites src out)
    (hnest : ∀ site ∈ sites, WellNested site.arguments) :
    ∀ site ∈ sites, WellNested site.enclosed := by
  induction h with
  | done => simp
  | deleted hcut hsite _ _ _ ih | redirected hcut hsite _ _ ih =>
    obtain ⟨hfirst, hothers⟩ := List.forall_mem_cons.1 hnest
    exact List.forall_mem_cons.2 ⟨hcut.wellNested_enclosed hsite hfirst, ih hothers⟩

end

/-- What a sweep leaves alone a second sweep leaves alone: as long as the brackets in the arguments
of the call statements are well nested, every call that is refused stands untouched in the swept
text and is refused again, and whatever call statement is found there begins in the arguments of a
call that was redirected. -/
theorem refused_sweepScript (rules : Rules) (h : rules.fault? = none) (source : String)
    (hnest : ∀ site ∈ rules.sites (.ofString source), WellNested site.arguments) :
    (∀ r ∈ rules.refused (.ofString source),
      ∃ r' ∈ rules.refused (sweepScript rules (.ofString source)).text,
        r'.start = Edit.moved 0 r.start (rules.edits (.ofString source)) ∧
        (sweepScript rules (.ofString source)).text[r'.start]? =
          (Bytes.ofString source)[r.start]?) ∧
    ∀ site' ∈ rules.sites (sweepScript rules (.ofString source)).text,
      ∃ site ∈ rules.sites (.ofString source), site.redirection ≠ none ∧
        ∃ span, span = putArguments (.ofString rules.replacement)
            (Edit.moved 0 site.start (rules.edits (.ofString source))) site ∧
          Bytes.slice (sweepScript rules (.ofString source)).text span = site.arguments ∧
          span.contains site'.start = true := by
  have ht := Rules.dotted_target h
  have hr := Rules.dotted_replacement h
  obtain ⟨out, hweave, happly, hout, -, -⟩ := sweepScript_weave h (aligned_ofString source)
  have hscan : scan (out.map (·.byte)) = out := hweave.lexed_out ht hr
  have hrun := find_run ht (.ofString rules.keyword) (out.map (·.byte))
  rw [hscan] at hrun
  have hstays := hweave.refused_again ht hr (Rules.target_ne_replacement h)
    (hweave.wellNested_enclosed hnest) ⟨rfl, .nil, .nil, .nil⟩ (by simp [Spent]) hrun
  rw [hout]
  constructor
  · intro r hr
    obtain ⟨a, c, b, hcells, hstart, -, hcall, hapart⟩ :=
      (find_run ht (.ofString rules.keyword) (.ofString source)).called_of_refused r hr
    rw [hstart] at hapart ⊢
    obtain ⟨hedits, r', hr', hplace⟩ := hstays.refused a c b hcells hcall hapart
    have hmoved : r'.start = Edit.moved 0 ([] ++ a).length (rules.edits (.ofString source)) := by
      rw [hplace, List.length_nil, Nat.zero_add]
      rfl
    refine ⟨r', hr', hmoved, ?_⟩
    rw [hmoved, ← hout, text_sweepScript h (aligned_ofString source)]
    obtain ⟨hordered, hfits⟩ := Rules.ordered_edits h (aligned_ofString source)
    refine (Edit.getElem?_splice_moved hordered (fun e he => ?_) (by simp) hedits).trans ?_
    · exact ⟨Nat.zero_le _, (hfits e he).1, by simpa using (hfits e he).2⟩
    · rfl
  · intro site' hsite'
    obtain ⟨site, hsite, hred, hcontains⟩ := hstays.accepted site' hsite'
    have hslice := hweave.slice_putArguments ht [] site hsite hred
    simp only [List.length_nil, Nat.zero_add, List.nil_append] at hcontains hslice
    exact ⟨site, hsite, hred, _, rfl, hslice, hcontains⟩

/-- A call whose result is used stays where the calls around it go or change, and the call found
next stands in the arguments of the redirected one. -/
theorem refused_sweepScript_nested :
    ∃ source, ({} : Rules).fault? = none ∧
      (({} : Rules).refused (.ofString source)).map (·.start) = [17] ∧
      (∃ r' ∈ ({} : Rules).refused (sweepScript {} (.ofString source)).text, r'.start = 2) ∧
      (({} : Rules).sites (sweepScript {} (.ofString source)).text).map (·.start) = [44] ∧
      ∀ site' ∈ ({} : Rules).sites (sweepScript {} (.ofString source)).text,
        ∃ site ∈ ({} : Rules).sites (.ofString source), site.redirection ≠ none ∧
          (putArguments (.ofString "console.error")
            (Edit.moved 0 site.start (({} : Rules).edits (.ofString source))) site).contains
              site'.start = true := by
  refine ⟨"console.log(0);y=console.log(1);catch{console.log(()=>{console.log(2)})}", ?_⟩
  have h := refused_sweepScript {} (by decide +kernel)
    "console.log(0);y=console.log(1);catch{console.log(()=>{console.log(2)})}" (by decide +kernel)
  refine ⟨by decide +kernel, by decide +kernel, ?_, ?_, fun site' hsite' => ?_⟩
  · obtain ⟨r', hr', hstart, -⟩ := h.1 ⟨17, 1, .notStatement⟩ (by decide +kernel)
    exact ⟨r', hr', hstart.trans (by decide +kernel)⟩
  · rw [text_sweepScript (by decide +kernel) (aligned_ofString _)]
    decide +kernel
  · obtain ⟨site, hsite, hred, _, rfl, -, hcontains⟩ := h.2 site' hsite'
    exact ⟨site, hsite, hred, hcontains⟩

end LogSweep
