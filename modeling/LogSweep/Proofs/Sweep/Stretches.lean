import LogSweep.Proofs.Sweep.Repeat

/-!
# The search over stretches of a text

A run of the search can be followed stretch by stretch. Over a quiet stretch it accepts nothing, and
every call in it is refused (`Run.over_quiet`). Over a stretch that closes more parentheses than it
opens, however much of it is left, it accepts statements that end before the stretch does
(`Run.over_falling`); the arguments of a call with their closing parenthesis are such a stretch
(`Statement.falling`). What is refused is called in the text, outside of what is accepted
(`Run.called_of_refused`).
-/

namespace LogSweep

open Lexical Block Call

/-! ## What a run refuses -/

section
variable {target keyword : Bytes} {pre ahead : List Cell} {accepted : Option Span}
  {sites : List Site} {refused : List Refused}

/-- The sites of a run lie behind what stands in front of it. -/
theorem Call.Run.start_ge (h : Run target keyword pre accepted ahead sites refused) :
    ∀ site ∈ sites, pre.length ≤ site.start := by
  induction h with
  | done => simp
  | pass _ _ ih | refuse _ _ _ ih =>
    intro site hsite
    have := ih site hsite
    rw [List.length_append] at this
    omega
  | accept hat cl _ _ _ _ ih =>
    refine List.forall_mem_cons.2 ⟨Nat.le_refl _, fun site hsite => ?_⟩
    have := ih site hsite
    simp only [List.length_append] at this
    omega

/-- What a run refuses is called among its cells, and lies outside of what it accepts. -/
theorem Call.Run.called_of_refused (h : Run target keyword pre accepted ahead sites refused) :
    ∀ r ∈ refused, ∃ a c b, ahead = a ++ c :: b ∧ r.start = (pre ++ a).length ∧
      r.line = (Cursor.past keyword (pre ++ a)).line ∧ Called target (pre ++ a) (c :: b) ∧
      ∀ site ∈ sites, site.span.contains r.start = false := by
  induction h with
  | done => simp
  | @pass pre ahead c accepted sites refused _ _ ih =>
    intro r hr
    obtain ⟨a, x, b, rfl, hstart, hline, hcall, hout⟩ := ih r hr
    exact ⟨c :: a, x, b, rfl, by simpa using hstart, by simpa using hline, by simpa using hcall,
      hout⟩
  | @refuse pre ahead rest c blanks accepted reason sites refused hcall _ hrun ih =>
    refine List.forall_mem_cons.2 ⟨?_, fun r hr => ?_⟩
    · refine ⟨[], c, ahead, rfl, by simp, by simp, ⟨blanks, rest, by simpa using hcall⟩, ?_⟩
      intro site hsite
      have hlt := hrun.start_ge site hsite
      rw [List.length_append, List.length_singleton] at hlt
      exact Span.not_contains_iff.2 (.inl hlt)
    · obtain ⟨a, x, b, rfl, hstart, hline, hcall, hout⟩ := ih r hr
      exact ⟨c :: a, x, b, rfl, by simpa using hstart, by simpa using hline, by simpa using hcall,
        hout⟩
  | @accept pre behind accepted s sites refused hat cl hpre hbehind hcl hrun ih =>
    intro r hr
    obtain ⟨a, x, b, hrest, hstart, hline, hcall, hout⟩ := ih r hr
    have hplace : pre ++ s.cells target ++ cl.gap ++ cl.brk ++ a =
        pre ++ (s.cells target ++ cl.gap ++ cl.brk ++ a) := by simp
    rw [hplace] at hstart hline hcall
    refine ⟨_, x, b, by rw [hbehind, hrest]; simp, hstart, hline, hcall, ?_⟩
    refine List.forall_mem_cons.2 ⟨Span.not_contains_iff.2 (.inr ?_), hout⟩
    simp only [Site.span, Statement.site, hstart, List.length_append]
    omega

/-! ## Over a quiet stretch -/

/-- Over a quiet stretch a run accepts nothing and refuses every call. -/
theorem Call.Run.over_quiet {a rest : List Cell} (hquiet : Quiet target keyword accepted pre a rest)
    (h : Run target keyword pre accepted (a ++ rest) sites refused) :
    ∃ refused₁ refused₂, refused = refused₁ ++ refused₂ ∧
      Run target keyword (pre ++ a) accepted rest sites refused₂ ∧
      ∀ a₁ c a₂, a = a₁ ++ c :: a₂ → Called target (pre ++ a₁) (c :: a₂ ++ rest) →
        ∃ r ∈ refused₁, r.start = (pre ++ a₁).length := by
  induction a generalizing pre refused with
  | nil =>
    refine ⟨[], refused, rfl, by simpa using h, fun a₁ c a₂ heq => ?_⟩
    simp at heq
  | cons x a ih =>
    have hrest : Quiet target keyword accepted (pre ++ [x]) a rest :=
      Quiet.right (a := [x]) hquiet
    generalize hahead : x :: a ++ rest = ahead at h
    cases h with
    | done => cases hahead
    | @pass _ ahead c _ _ _ hcall hrun =>
      obtain ⟨rfl, rfl⟩ := List.cons.inj hahead
      obtain ⟨refused₁, refused₂, rfl, hlater, hcalls⟩ := ih hrest hrun
      refine ⟨refused₁, refused₂, rfl, by simpa using hlater, fun a₁ c a₂ heq hc => ?_⟩
      cases a₁ with
      | nil =>
        obtain ⟨rfl, rfl⟩ := List.cons.inj heq
        obtain ⟨blanks, more, hc⟩ := hc
        exact absurd (by simpa using hc) (hcall blanks more)
      | cons y a₁ =>
        obtain ⟨rfl, rfl⟩ := List.cons.inj heq
        simpa using hcalls a₁ c a₂ rfl (by simpa using hc)
    | @refuse _ ahead more c blanks _ reason _ refused hcall hjudge hrun =>
      obtain ⟨rfl, rfl⟩ := List.cons.inj hahead
      obtain ⟨refused₁, refused₂, rfl, hlater, hcalls⟩ := ih hrest hrun
      refine ⟨_ :: refused₁, refused₂, rfl, by simpa using hlater, fun a₁ c a₂ heq hc => ?_⟩
      cases a₁ with
      | nil => exact ⟨_, List.mem_cons_self, by simp⟩
      | cons y a₁ =>
        obtain ⟨rfl, rfl⟩ := List.cons.inj heq
        obtain ⟨r, hr, hstart⟩ := hcalls a₁ c a₂ rfl (by simpa using hc)
        exact ⟨r, List.mem_cons_of_mem _ hr, by simpa using hstart⟩
    | @accept _ behind _ s _ _ hat =>
      refine absurd ⟨s, behind, ?_, by simpa using hat⟩ (hquiet [] x a rfl)
      exact hahead

end

/-! ## Over a stretch that closes parentheses -/

/-- However much of the cells is left, it closes more parentheses than it opens. -/
def Falling (cells : List Cell) : Prop :=
  ∀ a c b, cells = a ++ c :: b → excess (c :: b) < 0

/-- The end of a falling stretch is falling. -/
theorem Falling.of_append {a b : List Cell} (h : Falling (a ++ b)) : Falling b := by
  rintro a' c b' rfl
  exact h (a ++ a') c b' (by simp)

/-- A statement is not empty. -/
theorem Call.Statement.length_cells_pos {target : Bytes} (ht : Dotted target) (s : Statement) :
    0 < (s.cells target).length := by
  obtain ⟨x, tl, hx, -⟩ := s.cells_eq_cons ht
  rw [hx]
  exact Nat.succ_pos _

/-- The arguments of a statement with their closing parenthesis. -/
theorem Call.Statement.falling (s : Statement) :
    Falling (s.arguments ++ [⟨Byte.closeParen, .code⟩]) := by
  intro a c b h
  have hgroup : s.group = ⟨Byte.openParen, .code⟩ :: a ++ c :: b := by
    rw [Statement.group, List.cons_append, h]
    rfl
  have hinside := Statement.excess_inside hgroup
  have htotal := s.level_group.ends
  rw [hgroup, excess_append] at htotal
  omega

/-- A level stretch that begins with a falling one ends before it does. -/
theorem Level.of_falling {a b c d : List Cell} (ha : Level a) (hc : Falling c) (hne : c ≠ [])
    (h : a ++ b = c ++ d) : ∃ e, c = a ++ e ∧ b = e ++ d ∧ e ≠ [] := by
  obtain ⟨x, c', rfl⟩ := List.exists_cons_of_ne_nil hne
  have hlow := hc [] x c' rfl
  rcases List.append_eq_append_iff.1 h with ⟨e, he, hb⟩ | ⟨e, rfl, -⟩
  · refine ⟨e, he, hb, ?_⟩
    rintro rfl
    rw [he, List.append_nil, ha.ends] at hlow
    exact Int.lt_irrefl 0 hlow
  · have := ha.stays (x :: c') (List.prefix_append _ e)
    omega

/-- A run over a stretch `g` and the rest: the first of its sites lie inside the stretch and end
before it does, and the others are those of a run over the rest. There the statement accepted last
is one of the first, or the one that was accepted before. -/
def Call.Run.Leaves (target keyword : Bytes) (pre : List Cell) (accepted : Option Span)
    (g rest : List Cell) (sites : List Site) (refused : List Refused) : Prop :=
  ∃ inner outer later last, sites = inner ++ outer ∧ (∀ r ∈ later, r ∈ refused) ∧
    Run target keyword (pre ++ g) last rest outer later ∧
    (∀ site ∈ inner, pre.length ≤ site.start ∧ site.start < site.stop ∧
      site.stop < (pre ++ g).length) ∧
    (last = accepted ∨ ∃ span, last = some span ∧ span.stop < (pre ++ g).length)

section
variable {target keyword : Bytes} {front pre g rest : List Cell} {accepted : Option Span}
  {sites : List Site} {refused : List Refused} {x : Cell}

/-- A run that leaves a stretch leaves it with one more cell in front. -/
theorem Call.Run.Leaves.cons
    (h : Run.Leaves target keyword (pre ++ [x]) accepted g rest sites refused) :
    Run.Leaves target keyword pre accepted (x :: g) rest sites refused := by
  obtain ⟨inner, outer, later, last, hsites, hlater, hrun, hinner, hlast⟩ := h
  rw [List.append_assoc, List.singleton_append] at hrun hinner hlast
  refine ⟨inner, outer, later, last, hsites, hlater, hrun, fun site hsite => ?_, hlast⟩
  obtain ⟨hstart, hstop⟩ := hinner site hsite
  rw [List.length_append] at hstart
  exact ⟨by omega, hstop⟩

/-- Refusals do not matter to where a run leaves a stretch. -/
theorem Call.Run.Leaves.refuse {r : Refused}
    (h : Run.Leaves target keyword pre accepted g rest sites refused) :
    Run.Leaves target keyword pre accepted g rest sites (r :: refused) := by
  obtain ⟨inner, outer, later, last, hsites, hlater, hrest⟩ := h
  exact ⟨inner, outer, later, last, hsites, fun r hr => List.mem_cons_of_mem _ (hlater r hr), hrest⟩

/-- A site in front of a stretch that is left. -/
theorem Call.Run.Leaves.accept {taken : List Cell} {site : Site} (hg : g ≠ [])
    (hstart : site.start = pre.length) (hstop : site.start < site.stop)
    (htaken : site.stop ≤ (pre ++ taken).length)
    (h : Run.Leaves target keyword (pre ++ taken) (some site.span) g rest sites refused) :
    Run.Leaves target keyword pre accepted (taken ++ g) rest (site :: sites) refused := by
  obtain ⟨inner, outer, later, last, rfl, hlater, hrun, hinner, hlast⟩ := h
  have hlen : (pre ++ taken).length < (pre ++ (taken ++ g)).length := by
    have := List.length_pos_iff.2 hg
    simp only [List.length_append]
    omega
  rw [List.append_assoc] at hrun hinner hlast
  refine ⟨site :: inner, outer, later, last, rfl, hlater, hrun, ?_, .inr ?_⟩
  · refine List.forall_mem_cons.2 ⟨⟨by omega, hstop, by omega⟩, fun site' hsite' => ?_⟩
    obtain ⟨hstart', hstop'⟩ := hinner site' hsite'
    rw [List.length_append] at hstart'
    exact ⟨by omega, hstop'⟩
  · rcases hlast with rfl | hlast
    · exact ⟨site.span, rfl, Nat.lt_of_le_of_lt htaken hlen⟩
    · exact hlast

/-- Over a falling stretch a run accepts statements that end before the stretch does. The induction
is on the length of the stretch, since an accepted statement is passed over as a whole. -/
theorem Call.Run.over_falling (ht : Dotted target) (hfall : Falling g)
    (hlex : Lexed (front ++ (g ++ rest)))
    (h : Run target keyword pre accepted (g ++ rest) sites refused) :
    Run.Leaves target keyword pre accepted g rest sites refused := by
  induction hn : g.length using Nat.strongRecOn generalizing g front pre accepted sites refused with
  | ind n ih =>
  subst hn
  cases g with
  | nil =>
    exact ⟨[], sites, refused, accepted, rfl, fun _ hr => hr, by simpa using h, by simp, .inl rfl⟩
  | cons x g =>
    have hcell : Lexed (front ++ [x] ++ (g ++ rest)) := by simpa using hlex
    have hfall' : Falling g := Falling.of_append (a := [x]) hfall
    generalize hahead : x :: g ++ rest = ahead at h
    cases h with
    | done => cases hahead
    | pass _ hrun =>
      obtain ⟨rfl, rfl⟩ := List.cons.inj hahead
      exact .cons (ih g.length (by simp) hfall' hcell hrun rfl)
    | refuse _ _ hrun =>
      obtain ⟨rfl, rfl⟩ := List.cons.inj hahead
      exact .refuse (.cons (ih g.length (by simp) hfall' hcell hrun rfl))
    | @accept _ behind _ s sites _ hat cl _ hbehind _ hrun =>
      have hcells : s.cells target ++ cl.gap ++ cl.brk ++ cl.rest = x :: g ++ rest := by
        rw [hahead, hbehind]
        simp
      have hblanks : Blanks (cl.gap ++ cl.brk) := by
        obtain ⟨init, z, hz, hcode, -⟩ := s.cells_eq_snoc target
        rw [← hcells, hz] at hlex
        exact (cl.blanks (Lexed.of_code (a := front ++ init) (by simpa using hlex) hcode)).1
      have hlevel : Level (s.cells target ++ cl.gap ++ cl.brk) := by
        rw [List.append_assoc]
        exact (s.level_cells ht).append hblanks.steady.level
      obtain ⟨more, hmore, hrest, hne⟩ := hlevel.of_falling hfall (List.cons_ne_nil x g) hcells
      have hpos := s.length_cells_pos ht
      have hless : more.length < (x :: g).length := by
        rw [hmore]
        simp only [List.length_append]
        omega
      rw [hmore] at hfall hlex ⊢
      rw [List.append_assoc, ← List.append_assoc front] at hlex
      refine .accept hne rfl (Nat.lt_add_of_pos_right hpos) ?_
        (ih more.length hless hfall.of_append hlex ?_ rfl)
      · simp only [Statement.site, List.length_append]
        omega
      · rw [← hrest]
        simpa using hrun

end

end LogSweep
