import LogSweep.Proofs.Call.Position
import LogSweep.Proofs.Sweep.Convergence
import LogSweep.Proofs.Sweep.Regions

/-!
# Sweeping a script twice

A second sweep finds nothing among the parts that the first one kept: what went from between them
and what came instead are steady, so a place in a kept part that is one for a statement now was one
before (`Quiet.of_parallel`). The arguments of redirected calls are another matter, since the search
passes over them. As long as their brackets are well nested they read the same wherever they stand
(`quiet_group_iff`), so the swept text is at rest exactly when they are, each on its own
(`Weave.quiet_out_iff`).
-/

namespace LogSweep

open Lexical Block Call

/-! ## Places where a statement begins -/

section
variable {target keyword : Bytes} {accepted : Option Span} {pre pre' ahead : List Cell}

/-- A statement begins where the target is called, the parenthesis closes, and the place is one for
a statement. -/
theorem begins_iff {front : List Cell} (hlex : Lexed (front ++ ahead)) :
    Begins target keyword accepted pre ahead ↔
      ∃ blanks rest, CallAt target pre ahead blanks rest ∧ Closes 1 rest ∧
        atStatement (.past keyword pre) accepted = true := by
  constructor
  · rintro ⟨s, behind, rfl, hat⟩
    refine ⟨s.blanks, _, hat.callAt, ⟨s.arguments, _, rfl, s.balanced, ?_⟩, hat.position⟩
    rw [← ending?_isSome_iff (s.closed target pre.length), hat.ending]
    rfl
  · rintro ⟨blanks, _, hcall, ⟨args, more, rfl, hargs, hends⟩, hpos⟩
    have hmore : Lexed more := by
      rw [hcall.ahead_eq] at hlex
      exact Lexed.of_code (a := front ++ (codeCells target ++ codeCells blanks ++
        ⟨Byte.openParen, .code⟩ :: args)) (c := ⟨Byte.closeParen, .code⟩) (by simpa using hlex) rfl
    obtain ⟨e, he⟩ := Option.isSome_iff_exists.1 ((ending?_isSome_iff
      (pre.length + target.length + blanks.length + args.length + 2) more).2 hends)
    obtain ⟨tail, htail, hcells, hending⟩ := ending?_tail hmore he
    let s : Statement := ⟨blanks, args, tail, hcall.blank, hargs, htail⟩
    have hlen := s.length_cells target pre.length
    refine ⟨s, e.ahead, ?_, hcall.boundary, hpos, ?_⟩
    · rw [hcall.ahead_eq, hcells]
      simp [s, Statement.cells]
    · rw [← hcells]
      refine he.trans (congrArg some (hending.trans ?_))
      rw [Statement.ending, hlen]
      rfl

/-- A search finds nothing exactly where no statement begins. -/
theorem sites_eq_nil_iff (ht : Dotted target) (keyword text : Bytes) :
    (find target keyword text).sites = [] ↔ Quiet target keyword none [] (scan text) [] := by
  have hrun := find_run ht keyword text
  constructor
  · intro h
    rw [h] at hrun
    exact hrun.quiet ht
  · intro hquiet
    cases hsites : (find target keyword text).sites with
    | nil => rfl
    | cons site sites =>
      exfalso
      rw [hsites] at hrun
      obtain ⟨between, s, cl, _, hplace, hahead, -, -, hat, -⟩ := hrun.split ht
      obtain ⟨x, tl, hx, -⟩ := s.cells_eq_cons ht
      refine hquiet between x (tl ++ (cl.gap ++ cl.brk ++ cl.rest)) (by rw [hahead, hx]; simp) ?_
      rw [hplace]
      exact ⟨s, _, by rw [hx]; simp, hat⟩

/-- No statement begins in the name of another function. -/
theorem Quiet.of_name (ht : Dotted target) {name blanks : Bytes} {rest : List Cell}
    (hname : Dotted name) (hne : target ≠ name) (hblank : ∀ b ∈ blanks, Byte.isBlank b)
    (hpre : Ended pre) : Quiet target keyword accepted pre (codeCells name)
      (codeCells blanks ++ ⟨Byte.openParen, .code⟩ :: rest) := by
  rintro a c b heq ⟨s, behind, hs, hat⟩
  have hcall := hat.callAt
  rw [← hs] at hcall
  rcases List.eq_nil_or_concat a with rfl | ⟨init, x, rfl⟩
  · rw [List.nil_append] at heq
    rw [← heq, List.append_nil] at hcall
    exact hne ((called_name_iff ht hname hpre hblank).1 ⟨_, _, hcall⟩).symm
  · have hx : x ∈ codeCells name := by rw [heq]; simp
    rw [List.concat_eq_append, ← List.append_assoc] at hcall
    exact not_callAt_of_dotted (hname.isDottedByte (mem_codeCells.1 hx).1) hcall

end

/-! ## The kept parts -/

/-- Two runs with the same parts, between which level stretches differ. -/
inductive Parallel : List Cell → List Cell → Prop
  | same (cells : List Cell) : Parallel cells cells
  | swap {kept gone put src out : List Cell} (hkept : Rests kept) (hgone : Level gone)
      (hput : Level put) (hrest : Parallel src out) :
      Parallel (kept ++ (gone ++ src)) (kept ++ (put ++ out))

/-- Behind a parenthesis in cells at rest there is a significant cell. -/
theorem Rests.significant {args k : List Cell}
    (h : Rests (args ++ ⟨Byte.closeParen, .code⟩ :: k)) : ∃ x ∈ k, x.isSignificant = true := by
  rcases Cursor.last_split Cell.isSignificant k with hnone | ⟨a, x, g, rfl, hx, -⟩
  · rcases h args _ k rfl rfl hnone with hb | hb | hb <;> cases hb
  · exact ⟨x, by simp, hx⟩

/-- A call that closes in one of two parallel runs closes in the other. -/
theorem Parallel.closes {src out : List Cell} (h : Parallel src out) {depth : Int} (hd : 1 ≤ depth)
    (hout : Closes depth out) : Closes depth src := by
  induction h generalizing depth with
  | same => exact hout
  | swap hkept hgone hput _ ih =>
    rcases closes_append.1 hout with ⟨args, k, rfl, hargs, hends⟩ | ⟨hstays, hclose⟩
    · have hk := hkept.significant
      refine closes_append.2 (.inl ⟨args, k, rfl, hargs, ?_⟩)
      exact (ends_append hk _).2 ((ends_append hk _).1 hends)
    · have hd := hstays _ List.prefix_rfl
      refine closes_append.2 (.inr ⟨hstays, ?_⟩)
      exact (hgone.closes_append hd).2 (ih hd ((hput.closes_append hd).1 hclose))

section
variable {target keyword replacement : Bytes} {accepted : Option Span}
  {pre pre' a kept gone put src out : List Cell}

/-- What stands in front of a text before and after a sweep: the same brackets are open, and a
statement can begin behind it before the sweep. -/
structure Fronts (accepted : Option Span) (pre pre' : List Cell) : Prop where
  stack : stack pre' = stack pre
  ready : Ready accepted pre
  ended : Ended pre
  ended' : Ended pre'

/-- Where a statement can begin after the sweep, one could begin before. -/
theorem Fronts.atStatement (h : Fronts accepted pre pre')
    (hpos : atStatement (.past keyword (pre' ++ a)) none = true) :
    atStatement (.past keyword (pre ++ a)) accepted = true := by
  rw [atStatement_past_iff, stack_append] at hpos ⊢
  rw [← h.stack]
  exact ⟨hpos.1, hpos.2.of_append.append (.inr h.ready)⟩

/-- At the end of a text a second sweep finds nothing new. -/
theorem Quiet.of_fronts (hfronts : Fronts accepted pre pre') (hlex : Lexed kept)
    (h : Quiet target keyword accepted pre kept []) : Quiet target keyword none pre' kept [] := by
  rintro a c b rfl hbegins
  have hahead : Lexed (a ++ (c :: b ++ [])) := by simpa using hlex
  obtain ⟨blanks, rest, hcall, hclose, hpos⟩ := (begins_iff hahead).1 hbegins
  exact h a c b rfl ((begins_iff hahead).2 ⟨blanks, rest, ⟨hfronts.ended.append
    hcall.boundary.of_append, hcall.blank, hcall.ahead_eq⟩, hclose, hfronts.atStatement hpos⟩)

/-- In a kept part a second sweep finds nothing new. -/
theorem Quiet.of_parallel (ht : Dotted target) (hfronts : Fronts accepted pre pre')
    (hkept : Rests kept) (hgone : Level gone) (hput : Level put) (hrest : Parallel src out)
    (hsrc : Lexed (kept ++ (gone ++ src))) (hout : Lexed (kept ++ (put ++ out)))
    (h : Quiet target keyword accepted pre kept (gone ++ src)) :
    Quiet target keyword none pre' kept (put ++ out) := by
  rintro a c b rfl hbegins
  have hsealed : Sealed (c :: b) := hkept.sealed.of_append
  have hsrc : Lexed (a ++ (c :: b ++ (gone ++ src))) := by simpa using hsrc
  have hout : Lexed (a ++ (c :: b ++ (put ++ out))) := by simpa using hout
  obtain ⟨blanks, _, hahead, hclose, hpos⟩ := (begins_iff hout).1 hbegins
  obtain ⟨d, rfl, hcall⟩ := (callAt_append_iff ht hsealed).1 hahead
  have hd : Rests d := by
    rw [hcall.ahead_eq] at hkept
    exact Rests.of_append (a := a ++ (codeCells target ++ codeCells blanks) ++
      [⟨Byte.openParen, .code⟩]) (by simpa using hkept)
  refine h a c b rfl ((begins_iff hsrc).2
    ⟨blanks, d ++ (gone ++ src), ?_, ?_, hfronts.atStatement hpos⟩)
  · exact (callAt_append_iff ht hsealed).2 ⟨d, rfl, hfronts.ended.append hcall.boundary.of_append,
      hcall.blank, hcall.ahead_eq⟩
  · exact (Parallel.swap hd hgone hput hrest).closes (by decide) hclose

end

/-! ## The arguments of a redirected call -/

/-- Cells that are not significant count for nothing. -/
theorem excess_of_not_significant {k : List Cell} (h : ∀ x ∈ k, x.isSignificant = false) :
    excess k = 0 := by
  induction k with
  | nil => rfl
  | cons c k ih =>
    have hturn : turn c = 0 := by
      have hc := h c (by simp)
      cases hcode : c.isCode with
      | false => simp [turn, hcode]
      | true =>
        have hinert : isInert c.byte :=
          isInert_of_isBlank (by simpa [Cell.isSignificant, hcode] using hc)
        simp only [isInert, Bool.and_eq_true, Option.isNone_iff_eq_none] at hinert
        rw [turn_eq hcode, hinert.1, hinert.2]
        rfl
    rw [excess_cons, hturn, ih fun x hx => h x (List.mem_cons_of_mem _ hx), Int.zero_add]

/-- Where two parentheses are closed, what follows does not matter to a call that the first of them
closes. -/
theorem closes_append_of_low {d : List Cell} (hd : excess d ≤ -2) (rest : List Cell) :
    Closes 1 (d ++ rest) ↔ Closes 1 d := by
  have hk : ∀ args k, d = args ++ ⟨Byte.closeParen, .code⟩ :: k → Settles 1 args →
      ∃ x ∈ k, x.isSignificant = true := by
    rintro args k rfl hargs
    by_contra hnone
    have hexcess := excess_of_not_significant (k := k) (by simpa using hnone)
    have hends := hargs.ends
    simp only [excess_append, excess_cons, turn_close, hexcess] at hd
    omega
  constructor
  · intro h
    rcases closes_append.1 h with ⟨args, k, heq, hargs, hends⟩ | ⟨hstays, -⟩
    · exact ⟨args, k, heq, hargs, (ends_append (hk args k heq hargs) rest).1 hends⟩
    · have := hstays d List.prefix_rfl
      omega
  · rintro ⟨args, k, heq, hargs, hends⟩
    exact closes_append.2
      (.inl ⟨args, k, heq, hargs, (ends_append (hk args k heq hargs) rest).2 hends⟩)

section
variable {target keyword : Bytes} {s : Statement} {a b pre rest : List Cell} {c : Cell}

/-- Inside its parentheses a group is open. -/
theorem Call.Statement.excess_inside (h : s.group = ⟨Byte.openParen, .code⟩ :: a ++ c :: b) :
    1 ≤ excess (⟨Byte.openParen, .code⟩ :: a) := by
  have hcells : s.arguments ++ [⟨Byte.closeParen, .code⟩] = a ++ c :: b := by
    simpa [Statement.group] using h
  have hprefix : a <+: s.arguments := by
    have ha : a <+: s.arguments ++ [⟨Byte.closeParen, .code⟩] := ⟨c :: b, hcells.symm⟩
    rcases List.prefix_concat_iff.1 ha with rfl | ha
    · simp at hcells
    · exact ha
  have hstays := s.balanced.stays a hprefix
  have hopen : turn ⟨Byte.openParen, .code⟩ = 1 := rfl
  rw [excess_cons]
  omega

/-- A place inside a well nested group is one for a statement or not whatever stands before it. -/
theorem atStatement_inside (h : s.group = ⟨Byte.openParen, .code⟩ :: a ++ c :: b)
    (hnest : nest [] s.group = some []) :
    atStatement (.past keyword (pre ++ ⟨Byte.openParen, .code⟩ :: a)) none = true ↔
      atStatement (.past keyword (⟨Byte.openParen, .code⟩ :: a)) none = true := by
  rw [h, nest_append] at hnest
  obtain ⟨opened, hopened, -⟩ := Option.bind_eq_some_iff.1 hnest
  have hcount := count_paren_of_nest hopened
  have hexcess := Statement.excess_inside h
  have hfold := foldl_shift_of_nest hopened
  have hhead : (stack (pre ++ ⟨Byte.openParen, .code⟩ :: a)).head? =
      (stack (⟨Byte.openParen, .code⟩ :: a)).head? := by
    have hpre := hfold (stack pre)
    have hnil := hfold []
    rw [List.nil_append] at hpre hnil
    have hgroup : stack (⟨Byte.openParen, .code⟩ :: a) = opened := by simpa [stack] using hnil
    rw [stack_append, hpre, hgroup]
    cases opened with
    | nil =>
      rw [List.count_nil] at hcount
      omega
    | cons bracket opened => rfl
  rw [atStatement_past_iff, atStatement_past_iff, hhead]
  exact and_congr_right fun _ =>
    ⟨Ready.of_append, fun h => h.append (.inl ⟨_, List.mem_cons_self, rfl⟩)⟩

/-- So is a place where a statement begins. -/
theorem begins_inside_iff (ht : Dotted target)
    (h : s.group = ⟨Byte.openParen, .code⟩ :: a ++ c :: b) (hnest : nest [] s.group = some [])
    (hlex : Lexed (s.group ++ rest)) :
    Begins target keyword none (pre ++ ⟨Byte.openParen, .code⟩ :: a) (c :: b ++ rest) ↔
      ∃ blanks d, CallAt target (⟨Byte.openParen, .code⟩ :: a) (c :: b) blanks d ∧ Closes 1 d ∧
        atStatement (.past keyword (⟨Byte.openParen, .code⟩ :: a)) none = true := by
  have hsealed : Sealed (c :: b) := by
    have hgroup : Sealed s.group := sealed_snoc rfl rfl
    rw [h] at hgroup
    exact hgroup.of_append
  have hended : Ended (pre ++ ⟨Byte.openParen, .code⟩ :: a) ↔
      Ended (⟨Byte.openParen, .code⟩ :: a) := by
    simp [Ended, List.getLast?_append]
  have hlow : ∀ blanks d, CallAt target (⟨Byte.openParen, .code⟩ :: a) (c :: b) blanks d →
      excess d ≤ -2 := by
    intro blanks d hcall
    have hname := (steady_codeCells fun x hx => isInert_of_isDottedByte (ht.isDottedByte hx)).level
    have hblanks := (steady_codeCells fun x hx => isInert_of_isBlank (hcall.blank x hx)).level
    have hopen : turn ⟨Byte.openParen, .code⟩ = 1 := rfl
    have hinside := Statement.excess_inside h
    have htotal := s.level_group.ends
    rw [h, hcall.ahead_eq, excess_append, excess_append, excess_append, hname.ends, hblanks.ends,
      excess_cons _ d, hopen] at htotal
    omega
  rw [h, List.append_assoc] at hlex
  rw [begins_iff hlex, atStatement_inside h hnest]
  constructor
  · rintro ⟨blanks, _, hahead, hclose, hpos⟩
    obtain ⟨d, rfl, hcall⟩ := (callAt_append_iff ht hsealed).1 hahead
    have hcall' : CallAt target _ (c :: b) blanks d :=
      ⟨hended.1 hcall.boundary, hcall.blank, hcall.ahead_eq⟩
    exact ⟨blanks, d, hcall', (closes_append_of_low (hlow blanks d hcall') rest).1 hclose, hpos⟩
  · rintro ⟨blanks, d, hcall, hclose, hpos⟩
    exact ⟨blanks, d ++ rest, (callAt_append_iff ht hsealed).2
      ⟨d, rfl, hended.2 hcall.boundary, hcall.blank, hcall.ahead_eq⟩,
      (closes_append_of_low (hlow blanks d hcall) rest).2 hclose, hpos⟩

/-- Arguments whose brackets are well nested read the same wherever they stand. -/
theorem quiet_group_iff (ht : Dotted target) (hnest : nest [] s.group = some [])
    (hlex : Lexed (s.group ++ rest)) (hgroup : Lexed s.group) :
    Quiet target keyword none pre s.group rest ↔ Quiet target keyword none [] s.group [] := by
  have hplace : ∀ a c b, s.group = a ++ c :: b →
      (Begins target keyword none (pre ++ a) (c :: b ++ rest) ↔
        Begins target keyword none ([] ++ a) (c :: b ++ [])) := by
    intro a c b h
    cases a with
    | nil =>
      obtain ⟨rfl, -⟩ := List.cons.inj h
      exact iff_of_false (not_begins_of_undotted ht rfl) (not_begins_of_undotted ht rfl)
    | cons x a =>
      obtain ⟨rfl, -⟩ := List.cons.inj h
      rw [begins_inside_iff ht h hnest hlex, begins_inside_iff ht h hnest (by simpa using hgroup)]
  exact forall_congr' fun a => forall_congr' fun c => forall_congr' fun b =>
    forall_congr' fun h => not_congr (hplace a c b h)

/-- In a call of another function statements begin in its arguments only. -/
theorem quiet_statement_iff (ht : Dotted target) {function : Bytes} (hf : Dotted function)
    (hne : target ≠ function) (hnest : nest [] s.group = some []) (hgroup : Lexed s.group)
    (hlex : Lexed (s.cells function ++ rest)) (hpre : Ended pre) :
    Quiet target keyword none pre (s.cells function) rest ↔
      Quiet target keyword none [] s.group [] := by
  have hlex' : Lexed (s.group ++ (Statement.tailCells s.tail ++ rest)) := by
    rw [s.cells_eq] at hlex
    exact Lexed.from_code (a := codeCells function ++ codeCells s.blanks)
      (c := ⟨Byte.openParen, .code⟩) (by simpa [Statement.group] using hlex) rfl
  rw [s.cells_eq, List.append_assoc, List.append_assoc, quiet_append_iff, quiet_append_iff,
    quiet_append_iff, quiet_group_iff ht hnest hlex' hgroup]
  constructor
  · rintro ⟨-, -, h, -⟩
    exact h
  · intro h
    refine ⟨?_, .of_undotted ht fun c hc => ?_, h, .of_undotted ht fun c hc => ?_⟩
    · simpa [Statement.group] using Quiet.of_name ht hf hne s.isBlank hpre
    · exact not_isDottedByte_of_isBlank (s.isBlank _ (mem_codeCells.1 hc).1)
    · exact s.undotted_tail c hc

end

/-! ## Two sweeps -/

/-- The arguments of a site in their parentheses. -/
def Call.Site.enclosed (site : Site) : Bytes :=
  Byte.openParen :: site.arguments ++ [Byte.closeParen]

/-- Blanks leave the stack as it is. -/
theorem Blanks.steady {cells : List Cell} (h : Blanks cells) : Steady cells := by
  rw [h.eq_codeCells]
  refine steady_codeCells fun b hb => ?_
  obtain ⟨c, hc, rfl⟩ := List.mem_map.1 hb
  exact isInert_of_isBlank (h c hc).2

section
variable {target keyword replacement : Bytes} {accepted : Option Span}
  {pre pre' kept indent extra src out behind : List Cell} {s : Statement} {sites : List Site}
  {site : Site}

/-- The arguments of a site in their parentheses scan as they do in the text. -/
theorem Cut.scan_enclosed (h : Cut target keyword accepted pre kept indent s extra src)
    (hsite : site = s.site target keyword pre' behind) : scan site.enclosed = s.group := by
  have hbytes : site.enclosed = s.group.map (·.byte) := by
    rw [hsite]
    simp [Site.enclosed, Statement.site, Statement.group]
  rw [hbytes]
  exact h.whole_group.lexed

/-- A statement whose arguments are well nested leaves the stack as it is. -/
theorem Cut.steady (ht : Dotted target)
    (h : Cut target keyword accepted pre kept indent s extra src)
    (hnest : nest [] s.group = some []) : Steady (indent ++ s.cells target ++ extra) :=
  (h.indent_blanks.steady.append (s.steady ht hnest)).append h.extra_blanks.steady

/-- Behind an accepted statement and blanks a statement can begin. -/
theorem Call.Statement.ready (hsite : site = s.site target keyword pre behind)
    (hextra : Blanks extra) : Ready (some site.span) (pre ++ s.cells target ++ extra) := by
  obtain ⟨init, z, hz, hcode, hbyte⟩ := s.cells_eq_snoc target
  have hsig : z.isSignificant = true := by
    rcases hbyte with hb | hb <;> simp [Cell.isSignificant, Cell.isCode, hcode, hb] <;> rfl
  have hspan : site.span.contains (pre ++ init).length = true := by
    rw [hsite, Statement.site, Site.span, hz]
    simp [Span.contains]
  rw [hz]
  simpa using Ready.of_span hsig hspan hextra.not_significant

/-- What stands in front of the rest of a text, behind a statement and what is put in its place. -/
theorem Fronts.cut (ht : Dotted target) (h : Fronts accepted pre pre')
    (hcut : Cut target keyword accepted pre kept indent s extra src)
    (hsite : site = s.site target keyword (pre ++ kept ++ indent) behind)
    (hnest : nest [] s.group = some []) {put : List Cell} (hput : Steady put) (hended : Ended put) :
    Fronts (some site.span) (pre ++ kept ++ indent ++ s.cells target ++ extra)
      (pre' ++ kept ++ put) where
  stack := by
    have hgone := (hcut.steady ht hnest).stack_append (a := pre ++ kept)
    rw [hput.stack_append, stack_append, h.stack, ← stack_append, ← hgone]
    simp
  ready := Statement.ready hsite hcut.extra_blanks
  ended := (((h.ended.append hcut.ended).append hcut.indent_blanks.ended).append
    (s.ended target)).append hcut.extra_blanks.ended
  ended' := (h.ended'.append hcut.ended).append hended

/-- So does what is put in its place. -/
theorem Cut.steady_put (hr : Dotted replacement) (hnest : nest [] s.group = some [])
    {r : Redirection} (hsite : site = s.site target keyword pre behind)
    (hred : site.redirection = some r) :
    Steady (codeCells r.lead ++ s.tidy.cells replacement) :=
  (Statement.lead_blanks hsite hred).steady.append (s.tidy.steady hr hnest)

/-- In what is put in the place of a statement, statements begin in the arguments only. -/
theorem Cut.quiet_put_iff (ht : Dotted target) (hr : Dotted replacement)
    (hne : target ≠ replacement) (hcut : Cut target keyword accepted pre kept indent s extra src)
    (hnest : nest [] s.group = some []) {r : Redirection} {front : List Cell}
    (hsite : site = s.site target keyword front behind) (hred : site.redirection = some r)
    (hout : Lexed out) (hpre : Ended pre') :
    Quiet target keyword none pre' (codeCells r.lead ++ s.tidy.cells replacement) out ↔
      Quiet target keyword none [] s.group [] := by
  have hlead := Statement.lead_blanks hsite hred
  have hlex : Lexed (s.tidy.cells replacement ++ out) := (hcut.whole_tidy hr).lexed_append hout
  rw [quiet_append_iff, and_iff_right (.of_blanks ht hlead)]
  exact quiet_statement_iff (s := s.tidy) ht hr hne hnest hcut.whole_group.lexed hlex
    (hpre.append hlead.ended)

/-- Source and swept text run in parallel. -/
theorem Weave.parallel (ht : Dotted target) (hr : Dotted replacement)
    (h : Weave target keyword replacement pre accepted sites src out)
    (hnest : ∀ site ∈ sites, WellNested site.enclosed) : Parallel src out := by
  induction h with
  | done => exact .same _
  | deleted hcut hsite _ _ _ ih =>
    obtain ⟨hfirst, hothers⟩ := List.forall_mem_cons.1 hnest
    rw [WellNested, hcut.scan_enclosed hsite] at hfirst
    rw [List.append_assoc]
    exact .swap hcut.rests (hcut.steady ht hfirst).level Steady.nil.level (ih hothers)
  | redirected hcut hsite hred _ ih =>
    obtain ⟨hfirst, hothers⟩ := List.forall_mem_cons.1 hnest
    rw [WellNested, hcut.scan_enclosed hsite] at hfirst
    rw [List.append_assoc, List.append_assoc]
    exact .swap hcut.rests (Statement.steady ht _ hfirst).level
      (Cut.steady_put hr hfirst hsite hred).level (ih hothers)

/-- A second sweep finds what it finds in the arguments of redirected calls. -/
theorem Weave.quiet_out_iff (ht : Dotted target) (hr : Dotted replacement)
    (hne : target ≠ replacement)
    (h : Weave target keyword replacement pre accepted sites src out)
    (hnest : ∀ site ∈ sites, WellNested site.enclosed) (hfronts : Fronts accepted pre pre') :
    Quiet target keyword none pre' out [] ↔
      ∀ site ∈ sites, site.redirection ≠ none →
        Quiet target keyword none [] (scan site.enclosed) [] := by
  induction h generalizing pre' with
  | done hlex hquiet => exact iff_of_true (.of_fronts hfronts hlex hquiet) (by simp)
  | @deleted pre kept indent gap brk src out accepted s sites site hcut hsite hred _ hrest ih =>
    obtain ⟨hfirst, hothers⟩ := List.forall_mem_cons.1 hnest
    rw [WellNested, hcut.scan_enclosed hsite] at hfirst
    have hgone := hcut.steady ht hfirst
    have hlex : Lexed (kept ++ ([] ++ out)) :=
      (hcut.whole_kept ht).lexed_append (hrest.lexed_out ht hr)
    have hkept : Quiet target keyword none pre' kept (out ++ []) := by
      rw [List.append_nil]
      exact .of_parallel ht hfronts hcut.rests hgone.level Steady.nil.level
        (hrest.parallel ht hr hothers) (by simpa using hcut.lexed) hlex hcut.quiet
    have hnext : Fronts (some site.span) (pre ++ kept ++ indent ++ s.cells target ++ gap ++ brk)
        (pre' ++ kept) := by
      simpa using hfronts.cut ht hcut hsite hfirst .nil .nil
    rw [quiet_append_iff, and_iff_right hkept, ih hothers hnext, List.forall_mem_cons, hred]
    simp
  | @redirected pre kept src out accepted s sites site r hcut hsite hred hrest ih =>
    obtain ⟨hfirst, hothers⟩ := List.forall_mem_cons.1 hnest
    rw [List.forall_mem_cons, hcut.scan_enclosed hsite]
    rw [WellNested, hcut.scan_enclosed hsite] at hfirst
    have hput := Cut.steady_put hr hfirst hsite hred
    have hout := hrest.lexed_out ht hr
    have hlex := (hcut.whole_kept ht).lexed_append
      ((hcut.whole_put hr hsite hred).lexed_append hout)
    have hkept : Quiet target keyword none pre' kept
        (codeCells r.lead ++ s.tidy.cells replacement ++ out) :=
      .of_parallel ht hfronts hcut.rests (s.steady ht hfirst).level hput.level
        (hrest.parallel ht hr hothers) (by simpa using hcut.lexed) hlex (by simpa using hcut.quiet)
    have hnext : Fronts (some site.span) (pre ++ kept ++ s.cells target)
        (pre' ++ kept ++ (codeCells r.lead ++ s.tidy.cells replacement)) := by
      have hended := (Statement.lead_blanks hsite hred).ended.append (s.tidy.ended replacement)
      simpa using hfronts.cut ht hcut (by simpa using hsite) hfirst hput hended
    rw [List.append_assoc, quiet_append_iff, quiet_append_iff, List.append_nil, and_iff_right hkept,
      List.append_nil,
      hcut.quiet_put_iff ht hr hne hfirst hsite hred hout (hfronts.ended'.append hcut.ended),
      ih hothers hnext, hred]
    simp

/-- With arguments that are well nested, a second sweep finds no statement exactly when the
arguments of the redirected calls hold none. -/
theorem sites_sweepScript_eq_nil_iff {rules : Rules} (h : rules.fault? = none) {text : Bytes}
    (htext : Aligned text) (hnest : ∀ site ∈ rules.sites text, WellNested site.enclosed) :
    rules.sites (sweepScript rules text).text = [] ↔
      ∀ site ∈ rules.sites text, site.redirection ≠ none → rules.sites site.enclosed = [] := by
  have ht := Rules.dotted_target h
  have hr := Rules.dotted_replacement h
  obtain ⟨out, hweave, -, hout, -, -⟩ := sweepScript_weave h htext
  have hfronts : Fronts none [] [] := ⟨rfl, .nil, .nil, .nil⟩
  have hiff := hweave.quiet_out_iff ht hr (Rules.target_ne_replacement h) hnest hfronts
  simp only [Rules.sites, sites_eq_nil_iff ht] at hiff ⊢
  rw [hout, hweave.lexed_out ht hr]
  exact hiff

end

end LogSweep
