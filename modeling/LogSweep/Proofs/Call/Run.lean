import LogSweep.Proofs.Call.Statement
import Mathlib.Data.List.TakeWhile

/-!
# The search as a run

The search for calls keeps an offset before which it does not look, so that it never judges a place
inside a name it has just judged or inside a statement it has accepted. `Run` describes the same
search without that offset: every cell is passed over, is the first of a call that is refused, or
begins a call statement, which is passed over as a whole with the blanks and the line break that its
removal takes (`Clearing`). `find_run` says that the search is such a run. A run passes over a cell
only where the target is not called, so nothing is missed.
-/

namespace LogSweep.Call

open Lexical Block

/-! ## What is removed with a statement -/

/-- A line break in front of `rest`, or the end of the text. -/
def IsBreak (brk rest : List Cell) : Prop :=
  brk.map (·.byte) = [Byte.newline] ∨ brk.map (·.byte) = [Byte.carriageReturn, Byte.newline] ∨
    brk = [] ∧ rest = []

/-- How the cells around a statement are cut when it is removed: the indentation goes only with the
line break, and blanks behind the statement only in front of one. -/
structure Clearing where
  up : List Cell
  indent : List Cell
  gap : List Cell
  brk : List Cell
  rest : List Cell
  indent_blank : ∀ c ∈ indent, Byte.isHorizontal c.byte
  gap_blank : ∀ c ∈ gap, Byte.isHorizontal c.byte
  shape : (Cursor.LineBegins up ∧ IsBreak brk rest) ∨
    (indent = [] ∧ brk = [] ∧ (gap = [] ∨ ∃ brk' rest', rest = brk' ++ rest' ∧ IsBreak brk' rest'))

/-- The offset behind a line break. -/
theorem lineEnd?_eq_some {offset n : Nat} {cells : List Cell} (h : lineEnd? offset cells = some n) :
    ∃ brk rest, cells = brk ++ rest ∧ IsBreak brk rest ∧ n = offset + brk.length := by
  cases cells with
  | nil =>
    cases h
    exact ⟨[], [], rfl, .inr (.inr ⟨rfl, rfl⟩), rfl⟩
  | cons c cells =>
    simp only [lineEnd?] at h
    split at h
    · next hc =>
      cases h
      exact ⟨[c], cells, rfl, .inl (by simpa using hc), rfl⟩
    · split at h
      · next hc =>
        cases h
        cases cells with
        | nil => simp at hc
        | cons d cells =>
          simp only [List.head?_cons, Option.map_some, Bool.and_eq_true, beq_iff_eq,
            Option.some.injEq] at hc
          exact ⟨[c, d], cells, rfl, .inr (.inl (by simp [hc.1, hc.2])), rfl⟩
      · cases h

/-- What is removed with a statement. -/
theorem removal_eq (keyword : Bytes) (pre behind : List Cell) (stop : Nat) (semicolon : Bool) :
    ∃ cl : Clearing, pre = cl.up ++ cl.indent ∧ behind = cl.gap ++ cl.brk ++ cl.rest ∧
      removal (.past keyword pre) ⟨stop, semicolon, behind⟩ =
        ⟨cl.up.length, stop + cl.gap.length + cl.brk.length⟩ := by
  obtain ⟨gap, more, rfl, hgap, hmore⟩ := skip_split Byte.isHorizontal behind
  obtain ⟨up, row, rfl, hup, hrow⟩ := Cursor.line_split pre
  rw [removal, skipWhile_append hgap hmore, Cursor.startsLine_past keyword hup hrow,
    Cursor.lineStart_past keyword hup hrow, Cursor.offset_past]
  simp only
  cases hline : lineEnd? (stop + gap.length) more with
  | none =>
    exact ⟨⟨up ++ row, [], [], [], gap ++ more, by simp, by simp, .inr ⟨rfl, rfl, .inl rfl⟩⟩,
      by simp, by simp, by simp⟩
  | some n =>
    obtain ⟨brk, rest, rfl, hbrk, rfl⟩ := lineEnd?_eq_some hline
    by_cases hall : row.all (Byte.isHorizontal ·.byte) = true
    · exact ⟨⟨up, row, gap, brk, rest, List.all_eq_true.1 hall, hgap, .inl ⟨hup, hbrk⟩⟩,
        rfl, by simp, by simp [hall]⟩
    · exact ⟨⟨up ++ row, [], gap, [], brk ++ rest, by simp, hgap,
        .inr ⟨rfl, rfl, .inr ⟨brk, rest, rfl, hbrk⟩⟩⟩, by simp, by simp, by simp [hall]⟩

/-! ## What a redirected call is put behind -/

/-- The blanks at the start of a row are found by walking back over it. -/
theorem leadingBlanks_eq (run : Bytes) {up row : List Cell} (hup : Cursor.LineBegins up)
    (hrow : ∀ c ∈ row, c.byte ≠ Byte.newline) :
    leadingBlanks run (row.reverse ++ up.reverse) =
      (row.map (·.byte)).takeWhile Byte.isHorizontal ++
        if row.all (Byte.isHorizontal ·.byte) then run else [] := by
  induction row using List.reverseRecOn generalizing run with
  | nil =>
    rcases List.eq_nil_or_concat up with rfl | ⟨u, c, rfl⟩
    · rfl
    · have hc : c.byte = Byte.newline := hup c (by simp)
      simp [leadingBlanks, hc]
  | append_singleton row c ih =>
    have hc : c.byte ≠ Byte.newline := hrow c (by simp)
    have hrow' : ∀ x ∈ row, x.byte ≠ Byte.newline := fun x hx => hrow x (List.mem_append_left _ hx)
    rw [List.reverse_append, List.reverse_singleton, List.append_assoc, List.singleton_append,
      leadingBlanks, if_neg (by simpa using hc), ih _ hrow', List.map_append, List.takeWhile_append]
    by_cases hall : row.all (Byte.isHorizontal ·.byte) = true
    · have htake : (row.map (·.byte)).takeWhile Byte.isHorizontal = row.map (·.byte) := by
        simpa [List.takeWhile_eq_self_iff] using hall
      by_cases hh : Byte.isHorizontal c.byte = true <;> simp [hall, htake, hh]
    · have htake : ¬ ((row.map (·.byte)).takeWhile Byte.isHorizontal).length = row.length := by
        intro hlen
        refine hall (List.all_eq_true.2 fun x hx => ?_)
        have hself := (List.takeWhile_prefix Byte.isHorizontal).eq_of_length
          (by rw [hlen, List.length_map])
        exact List.takeWhile_eq_self_iff.1 hself _ (List.mem_map_of_mem hx)
      simp [hall, htake]

/-- How a statement behind a row of cells is redirected. -/
theorem redirection?_eq (keyword : Bytes) {up row : List Cell} (e : Ending)
    (hup : Cursor.LineBegins up) (hrow : ∀ c ∈ row, c.byte ≠ Byte.newline) :
    redirection? (.past keyword (up ++ row)) e =
      (Cursor.past keyword (up ++ row)).handler?.map fun handler => ⟨handler,
        if row.all (Byte.isHorizontal ·.byte) then []
        else lineBreak (.past keyword (up ++ row)) e ++
          (row.map (·.byte)).takeWhile Byte.isHorizontal ++ [Byte.space]⟩ := by
  have hindent : indentation (.past keyword (up ++ row)) =
      (row.map (·.byte)).takeWhile Byte.isHorizontal := by
    rw [indentation, Cursor.before_past, List.reverse_append, leadingBlanks_eq [] hup hrow]
    simp
  rw [redirection?, Cursor.startsLine_past keyword hup hrow, hindent]
  cases (Cursor.past keyword (up ++ row)).handler? with
  | none => rfl
  | some handler =>
    simp only [Option.map_some]
    split <;> simp_all

/-- A redirected call is put behind white space. -/
theorem lead_isBlank {keyword : Bytes} {pre : List Cell} {e : Ending} {r : Redirection}
    (h : redirection? (.past keyword pre) e = some r) : ∀ b ∈ r.lead, Byte.isBlank b := by
  obtain ⟨up, row, rfl, hup, hrow⟩ := Cursor.line_split pre
  rw [redirection?_eq keyword e hup hrow] at h
  obtain ⟨handler, -, rfl⟩ := Option.map_eq_some_iff.1 h
  intro b hb
  simp only at hb
  split at hb
  · cases hb
  · rw [List.append_assoc, List.mem_append, List.mem_append, List.mem_singleton] at hb
    rcases hb with hb | hb | rfl
    · unfold lineBreak at hb
      split at hb
      · rcases List.mem_cons.1 hb with rfl | hb
        · rfl
        · rw [List.mem_singleton.1 hb]; rfl
      · rw [List.mem_singleton.1 hb]; rfl
    · exact isBlank_of_isHorizontal (List.all_eq_true.1 (List.all_takeWhile) b hb)
    · rfl

/-! ## Runs -/

/-- A search that has passed over `pre`, with the statement accepted last, goes over the cells ahead
and finds the given sites and refused calls. -/
inductive Run (target keyword : Bytes) :
    List Cell → Option Span → List Cell → List Site → List Refused → Prop
  | done {pre : List Cell} {accepted : Option Span} : Run target keyword pre accepted [] [] []
  | pass {pre ahead : List Cell} {c : Cell} {accepted : Option Span} {sites : List Site}
      {refused : List Refused} (hcall : ∀ blanks rest, ¬ CallAt target pre (c :: ahead) blanks rest)
      (hrun : Run target keyword (pre ++ [c]) accepted ahead sites refused) :
      Run target keyword pre accepted (c :: ahead) sites refused
  | refuse {pre ahead rest : List Cell} {c : Cell} {blanks : Bytes} {accepted : Option Span}
      {reason : Refusal} {sites : List Site} {refused : List Refused}
      (hcall : CallAt target pre (c :: ahead) blanks rest)
      (hjudge : judge target accepted (.past keyword pre) (c :: ahead) = .refused reason)
      (hrun : Run target keyword (pre ++ [c]) accepted ahead sites refused) :
      Run target keyword pre accepted (c :: ahead) sites
        (⟨pre.length, (Cursor.past keyword pre).line, reason⟩ :: refused)
  | accept {pre behind : List Cell} {accepted : Option Span} {s : Statement} {sites : List Site}
      {refused : List Refused} (hat : StatementAt target keyword accepted pre s behind)
      (cl : Clearing) (hpre : pre = cl.up ++ cl.indent)
      (hbehind : behind = cl.gap ++ cl.brk ++ cl.rest)
      (hcl : (s.site target keyword pre behind).removal = ⟨cl.up.length,
        pre.length + (s.cells target).length + cl.gap.length + cl.brk.length⟩)
      (hrun : Run target keyword (pre ++ s.cells target ++ cl.gap ++ cl.brk)
        (some (s.site target keyword pre behind).span) cl.rest sites refused) :
      Run target keyword pre accepted (s.cells target ++ behind)
        (s.site target keyword pre behind :: sites) refused

/-- No call of the target begins behind a byte of a dotted name. -/
theorem not_callAt_of_dotted {target : Bytes} {pre ahead rest : List Cell} {c : Cell}
    {blanks : Bytes} (hc : isDottedByte c.byte) :
    ¬ CallAt target (pre ++ [c]) ahead blanks rest := by
  intro h
  have := ended_snoc.1 h.boundary
  rw [hc] at this
  cases this

/-- A run goes on to the end of a name. -/
theorem Run.pass_name {target keyword : Bytes} {pre name ahead : List Cell} {c : Cell}
    {accepted : Option Span} {sites : List Site} {refused : List Refused}
    (hname : ∀ x ∈ c :: name, isDottedByte x.byte)
    (hrun : Run target keyword (pre ++ [c] ++ name) accepted ahead sites refused) :
    Run target keyword (pre ++ [c]) accepted (name ++ ahead) sites refused := by
  induction name generalizing pre c with
  | nil => simpa using hrun
  | cons x name ih =>
    refine .pass (fun _ _ => not_callAt_of_dotted (hname c (by simp))) (ih ?_ ?_)
    · exact fun y hy => hname y (List.mem_cons_of_mem _ hy)
    · simpa using hrun

/-- The search passes over everything before the offset where it goes on. -/
theorem search_skip (target keyword : Bytes) {s : Search} {pre a : List Cell} (rest : List Cell)
    (h : pre.length + a.length ≤ s.resume) :
    search target keyword s (.past keyword pre) (a ++ rest) =
      search target keyword s (.past keyword (pre ++ a)) rest := by
  induction a generalizing pre with
  | nil => simp
  | cons c a ih =>
    simp only [List.length_cons] at h
    have hlt : ¬ s.resume ≤ pre.length := by omega
    rw [List.cons_append, search, Cursor.offset_past, ← Cursor.past_snoc]
    simp only [hlt, decide_false, Bool.false_and, Bool.false_eq_true, if_false]
    rw [ih (by simp only [List.length_append, List.length_singleton]; omega)]
    simp

/-- A call spells its function. -/
theorem CallAt.spells {target : Bytes} {pre ahead rest : List Cell} {blanks : Bytes}
    (h : CallAt target pre ahead blanks rest) : spells target ahead = true := by
  refine spells_iff.2 ⟨codeCells target, codeCells blanks ++ ⟨Byte.openParen, .code⟩ :: rest, ?_,
    map_byte_codeCells target⟩
  rw [h.ahead_eq, List.append_assoc]

section
variable {target keyword : Bytes} (ht : Dotted target)
include ht

/-- A call of the target is not ignored. -/
theorem CallAt.judge_ne_ignored {pre ahead rest : List Cell} {blanks : Bytes}
    (h : CallAt target pre ahead blanks rest) (accepted : Option Span) :
    judge target accepted (.past keyword pre) ahead ≠ .ignored := by
  rw [judge_of_callAt ht keyword accepted h]
  split
  · exact Verdict.noConfusion
  · split
    · exact Verdict.noConfusion
    · split
      · exact Verdict.noConfusion
      · exact Verdict.noConfusion

/-- A statement begins with a byte of a name. -/
theorem Statement.cells_eq_cons (s : Statement) :
    ∃ x tl, s.cells target = x :: tl ∧ x.mark = .code ∧ Byte.isName x.byte := by
  obtain ⟨b, name, rfl, hb⟩ := ht.head
  exact ⟨_, _, rfl, rfl, hb⟩

/-- The name at a place where the target is spelled out. -/
theorem spelled_name {c : Cell} {ahead : List Cell} (h : Call.spells target (c :: ahead) = true) :
    ∃ name rest, ahead = name ++ rest ∧ (c :: name).length = target.length ∧
      ∀ x ∈ c :: name, isDottedByte x.byte := by
  obtain ⟨a, rest, hsplit, ha⟩ := spells_iff.1 h
  obtain ⟨b, bytes, hb, -⟩ := ht.head
  cases a with
  | nil =>
    rw [hb] at ha
    cases ha
  | cons x name =>
    obtain ⟨rfl, rfl⟩ := List.cons.inj hsplit
    refine ⟨name, rest, rfl, by rw [← ha, List.length_map], fun x hx => ht.isDottedByte ?_⟩
    rw [← ha]
    exact List.mem_map_of_mem hx

end

/-- What the search adds to what it has found is what a run over the cells ahead finds. -/
def Searched (target keyword : Bytes) (s : Search) (pre ahead : List Cell) : Prop :=
  ∃ sites refused,
    (search target keyword s (.past keyword pre) ahead).sites = sites.reverse ++ s.sites ∧
    (search target keyword s (.past keyword pre) ahead).refused = refused.reverse ++ s.refused ∧
    Run target keyword pre (s.sites.head?.map Site.span) ahead sites refused

section
variable {target keyword : Bytes} {s : Search} {pre ahead : List Cell} {c : Cell}

/-- The search looks at a cell where it is to resume, records what it sees there, and goes on with
the next one. -/
theorem search_cons (hresume : s.resume ≤ pre.length) :
    search target keyword s (.past keyword pre) (c :: ahead) =
      search target keyword
        (if spells target (c :: ahead) then s.record target (.past keyword pre)
          (judge target (s.sites.head?.map Site.span) (.past keyword pre) (c :: ahead)) else s)
        (.past keyword (pre ++ [c])) ahead := by
  rw [search, Cursor.offset_past, ← Cursor.past_snoc]
  simp only [hresume, decide_true, Bool.true_and]

/-- A place where the target is not spelled out is passed over. -/
theorem Searched.unspelled (hresume : s.resume ≤ pre.length)
    (hspell : spells target (c :: ahead) = false)
    (h : Searched target keyword s (pre ++ [c]) ahead) :
    Searched target keyword s pre (c :: ahead) := by
  obtain ⟨sites, refused, hsites, hrefused, hrun⟩ := h
  rw [Searched, search_cons hresume, hspell, if_neg Bool.false_ne_true]
  refine ⟨sites, refused, hsites, hrefused, .pass (fun blanks rest hcall => ?_) hrun⟩
  rw [hcall.spells] at hspell
  cases hspell

/-- Behind a name that is ignored or refused the search goes on. -/
theorem Searched.name {name rest : List Cell} (hresume : s.resume = pre.length + (c :: name).length)
    (hname : ∀ x ∈ c :: name, isDottedByte x.byte)
    (h : Searched target keyword s (pre ++ [c] ++ name) rest) :
    Searched target keyword s (pre ++ [c]) (name ++ rest) := by
  obtain ⟨sites, refused, hsites, hrefused, hrun⟩ := h
  have hskip : (pre ++ [c]).length + name.length ≤ s.resume := by
    simp only [hresume, List.length_append, List.length_cons, List.length_nil]
    omega
  rw [Searched, search_skip target keyword rest hskip]
  exact ⟨sites, refused, hsites, hrefused, hrun.pass_name hname⟩

variable (ht : Dotted target) (hresume : s.resume ≤ pre.length)
  (hspell : spells target (c :: ahead) = true)
include ht hresume hspell

/-- Where a place is ignored, what is searched from the next one on is searched from here. -/
theorem Searched.ignored
    (hjudge : judge target (s.sites.head?.map Site.span) (.past keyword pre) (c :: ahead) =
      .ignored)
    (h : Searched target keyword (s.record target (.past keyword pre) .ignored) (pre ++ [c])
      ahead) :
    Searched target keyword s pre (c :: ahead) := by
  obtain ⟨sites, refused, hsites, hrefused, hrun⟩ := h
  rw [Searched, search_cons hresume, if_pos hspell, hjudge]
  refine ⟨sites, refused, hsites, hrefused, .pass (fun blanks rest hcall => ?_) hrun⟩
  exact hcall.judge_ne_ignored ht _ hjudge

/-- So it is where a call is refused, with the refusal recorded. -/
theorem Searched.refused {reason : Refusal} (hlex : Lexed (pre ++ c :: ahead))
    (hjudge : judge target (s.sites.head?.map Site.span) (.past keyword pre) (c :: ahead) =
      .refused reason)
    (h : Searched target keyword (s.record target (.past keyword pre) (.refused reason))
      (pre ++ [c]) ahead) : Searched target keyword s pre (c :: ahead) := by
  obtain ⟨sites, refused, hsites, hrefused, hrun⟩ := h
  obtain ⟨blanks, rest, hcall⟩ := callAt_of_judge ht hlex hspell (by
    rw [hjudge]
    exact Verdict.noConfusion)
  rw [Searched, search_cons hresume, if_pos hspell, hjudge]
  refine ⟨sites, _, hsites, ?_, .refuse hcall hjudge hrun⟩
  rw [hrefused]
  simp [Search.record]

omit hspell

/-- Behind a statement the search goes on where its removal ends. -/
theorem Searched.accepted {st : Statement} {behind : List Cell}
    (hspell : spells target (st.cells target ++ behind) = true)
    (hat : StatementAt target keyword (s.sites.head?.map Site.span) pre st behind) (cl : Clearing)
    (hup : pre = cl.up ++ cl.indent) (hbehind : behind = cl.gap ++ cl.brk ++ cl.rest)
    (hcl : (st.site target keyword pre behind).removal = ⟨cl.up.length,
      pre.length + (st.cells target).length + cl.gap.length + cl.brk.length⟩)
    (h : Searched target keyword
      (s.record target (.past keyword pre) (.accepted (st.site target keyword pre behind)))
      (pre ++ st.cells target ++ cl.gap ++ cl.brk) cl.rest) :
    Searched target keyword s pre (st.cells target ++ behind) := by
  obtain ⟨sites, refused, hsites, hrefused, hrun⟩ := h
  obtain ⟨x, tl, htl, -, -⟩ := st.cells_eq_cons ht
  have hcells : st.cells target ++ behind = x :: (tl ++ cl.gap ++ cl.brk ++ cl.rest) := by
    rw [htl, hbehind]
    simp
  have hpre : pre ++ [x] ++ (tl ++ cl.gap ++ cl.brk) =
      pre ++ st.cells target ++ cl.gap ++ cl.brk := by
    rw [htl]
    simp
  have hskip : (pre ++ [x]).length + (tl ++ cl.gap ++ cl.brk).length ≤
      max (st.site target keyword pre behind).removal.stop
        (st.site target keyword pre behind).stop := by
    rw [← List.length_append, hpre, hcl]
    simp only [List.length_append]
    exact Nat.le_max_left _ _
  have hjudge := hat.judge_eq ht
  rw [hcells] at hspell hjudge
  rw [Searched, hcells, search_cons hresume, if_pos hspell, hjudge,
    search_skip target keyword cl.rest hskip, hpre, ← hcells]
  refine ⟨st.site target keyword pre behind :: sites, refused, ?_, ?_,
    .accept hat cl hup hbehind hcl hrun⟩
  · rw [hsites]
    simp [Search.record]
  · rw [hrefused]
    simp [Search.record]

end

section
variable {target keyword : Bytes} (ht : Dotted target)
include ht

/-- The search is a run. The induction is on the cells ahead; a place that is judged ends the part
that the search need not look at, and the search goes on behind it. -/
theorem search_run {s : Search} {pre ahead : List Cell} (hlex : Lexed (pre ++ ahead))
    (hresume : s.resume ≤ pre.length) : Searched target keyword s pre ahead := by
  induction hn : ahead.length using Nat.strongRecOn generalizing s pre ahead with
  | ind n ih =>
  subst hn
  cases ahead with
  | nil => exact ⟨[], [], rfl, rfl, .done⟩
  | cons c ahead =>
    cases hspell : Call.spells target (c :: ahead) with
    | false =>
      refine .unspelled hresume hspell (@ih ahead.length (by simp) s (pre ++ [c]) ahead
        (by simpa using hlex) ?_ rfl)
      rw [List.length_append]
      omega
    | true =>
      have hname : ∀ s' : Search, s'.resume = pre.length + target.length →
          Searched target keyword s' (pre ++ [c]) ahead := by
        intro s' hs'
        obtain ⟨name, rest, rfl, hlen, hdotted⟩ := spelled_name ht hspell
        rw [← hlen] at hs'
        refine .name hs' hdotted (@ih rest.length ?_ s' (pre ++ [c] ++ name) rest
          (by simpa using hlex) ?_ rfl)
        · simp only [List.length_cons, List.length_append]
          omega
        · simp only [hs', List.length_cons, List.length_append, List.length_nil]
          omega
      cases hjudge : judge target (s.sites.head?.map Site.span) (.past keyword pre)
          (c :: ahead) with
      | ignored => exact .ignored ht hresume hspell hjudge (hname _ (by simp [Search.record]))
      | refused reason =>
        exact .refused ht hresume hspell hlex hjudge (hname _ (by simp [Search.record]))
      | accepted site =>
        obtain ⟨st, behind, hcells, rfl, hat⟩ := judge_accepted ht hlex hspell hjudge
        obtain ⟨cl, hup, hbehind, hcl⟩ := removal_eq keyword pre behind
          (pre.length + (st.cells target).length) st.tail.isSome
        have hrest : Lexed (pre ++ st.cells target ++ cl.gap ++ cl.brk ++ cl.rest) := by
          rw [hcells, hbehind] at hlex
          simpa using hlex
        have hless : cl.rest.length < (c :: ahead).length := by
          obtain ⟨x, tl, htl, -, -⟩ := st.cells_eq_cons ht
          rw [hcells, hbehind, htl]
          simp only [List.length_cons, List.length_append]
          omega
        replace hcl : (st.site target keyword pre behind).removal = ⟨cl.up.length,
          pre.length + (st.cells target).length + cl.gap.length + cl.brk.length⟩ := hcl
        rw [hcells] at hspell ⊢
        refine .accepted ht hresume hspell hat cl hup hbehind hcl
          (@ih cl.rest.length hless _ _ cl.rest hrest ?_ rfl)
        rw [Search.record, hcl]
        simp only [Statement.site, List.length_append]
        omega

/-- The calls of the target in a text are those of a run over it. -/
theorem find_run (keyword text : Bytes) :
    Run target keyword [] none (scan text) (find target keyword text).sites
      (find target keyword text).refused := by
  obtain ⟨b, name, hname, -⟩ := ht.head
  have hne : target.isEmpty = false := by rw [hname]; rfl
  obtain ⟨sites, refused, hsites, hrefused, hrun⟩ :=
    @search_run target keyword ht {} [] (scan text) (Lexed.scan text) (Nat.le_refl 0)
  have hfind : find target keyword text = ⟨sites, refused⟩ := by
    rw [Cursor.past_nil] at hsites hrefused
    simp [find, hne, hsites, hrefused]
  rw [hfind]
  exact hrun

end

end LogSweep.Call
