import LogSweep.Proofs.Sweep.Stable
import Mathlib.Data.List.Lattice

/-!
# What the search covers

The search skips names that it has rejected and statements that it has accepted, and still misses no
call: its sites and the calls that it refuses begin at the candidates of the text that no accepted
statement hides (`Call.Run.judged_iff`), each once and in the order of the text. What lets it skip
is that no call begins inside a dotted name, nor among the blanks that go with a statement.
-/

namespace LogSweep

open Lexical Block Call

/-- The search does not look at a place strictly inside a statement that it has accepted. -/
def Call.Site.Hides (site : Site) (offset : Nat) : Prop :=
  site.start < offset ∧ offset < site.stop

theorem Call.start_site (target keyword : Bytes) (s : Statement) (pre behind : List Cell) :
    (s.site target keyword pre behind).start = pre.length := rfl

/-- A site hides what lies strictly inside of its statement. -/
theorem Call.hides_site_iff {target keyword : Bytes} {s : Statement} {pre behind : List Cell}
    {offset : Nat} : (s.site target keyword pre behind).Hides offset ↔
      pre.length < offset ∧ offset < pre.length + (s.cells target).length := Iff.rfl

section
variable {target keyword : Bytes} {pre ahead : List Cell} {accepted : Option Span}
  {sites : List Site} {refused : List Refused}

/-- What a run refuses lies behind what stands in front of it. -/
theorem Call.Run.refused_ge (h : Run target keyword pre accepted ahead sites refused) :
    ∀ r ∈ refused, pre.length ≤ r.start := by
  intro r hr
  obtain ⟨a, c, b, -, hstart, -⟩ := h.called_of_refused r hr
  rw [hstart, List.length_append]
  exact Nat.le_add_right _ _

/-- The sites of a run begin among its cells. -/
theorem Call.Run.start_lt (h : Run target keyword pre accepted ahead sites refused)
    (ht : Dotted target) : ∀ site ∈ sites, site.start < pre.length + ahead.length := by
  induction h with
  | done => simp
  | pass _ _ ih | refuse _ _ _ ih =>
    intro site hsite
    have hlt := ih site hsite
    simp only [List.length_append, List.length_cons, List.length_nil] at hlt ⊢
    omega
  | @accept pre behind accepted s sites refused hat cl _ hbehind _ _ ih =>
    have hlength := congrArg List.length hbehind
    have hpos := s.length_cells_pos ht
    simp only [List.length_append] at hlength
    refine List.forall_mem_cons.2 ⟨?_, fun site hsite => ?_⟩
    · rw [start_site, List.length_append]
      omega
    · have hlt := ih site hsite
      simp only [List.length_append] at hlt ⊢
      omega

/-! ## Order -/

/-- The sites of a run come in the order of the text. -/
theorem Call.Run.sites_ordered (h : Run target keyword pre accepted ahead sites refused)
    (ht : Dotted target) : (sites.map (·.start)).Pairwise (· < ·) := by
  induction h with
  | done => exact .nil
  | pass _ _ ih | refuse _ _ _ ih => exact ih
  | @accept pre behind accepted s sites refused hat cl _ _ _ hrun ih =>
    refine List.pairwise_cons.2 ⟨List.forall_mem_map.2 fun site hsite => ?_, ih⟩
    have hge := hrun.start_ge site hsite
    have hpos := s.length_cells_pos ht
    simp only [List.length_append] at hge
    show pre.length < site.start
    omega

/-- So do the calls that it refuses. -/
theorem Call.Run.refused_ordered (h : Run target keyword pre accepted ahead sites refused) :
    (refused.map (·.start)).Pairwise (· < ·) := by
  induction h with
  | done => exact .nil
  | pass _ _ ih | accept _ _ _ _ _ _ ih => exact ih
  | @refuse pre ahead rest c blanks accepted reason sites refused _ _ hrun ih =>
    refine List.pairwise_cons.2 ⟨List.forall_mem_map.2 fun r hr => ?_, ih⟩
    have hge := hrun.refused_ge r hr
    rw [List.length_append, List.length_singleton] at hge
    exact hge

/-- No call is both accepted and refused. -/
theorem Call.Run.disjoint (h : Run target keyword pre accepted ahead sites refused)
    (ht : Dotted target) : (sites.map (·.start)).Disjoint (refused.map (·.start)) := by
  induction h with
  | done => exact List.disjoint_nil_left _
  | pass _ _ ih => exact ih
  | @refuse pre ahead rest c blanks accepted reason sites refused _ _ hrun ih =>
    refine List.disjoint_cons_right.2 ⟨fun hmem => ?_, ih⟩
    obtain ⟨site, hsite, hstart⟩ := List.mem_map.1 hmem
    have hge := hrun.start_ge site hsite
    rw [List.length_append, List.length_singleton, hstart] at hge
    exact Nat.not_succ_le_self _ hge
  | @accept pre behind accepted s sites refused _ cl _ _ _ hrun ih =>
    refine List.disjoint_cons_left.2 ⟨fun hmem => ?_, ih⟩
    obtain ⟨r, hr, hstart⟩ := List.mem_map.1 hmem
    replace hstart : r.start = pre.length := hstart
    have hge := hrun.refused_ge r hr
    have hpos := s.length_cells_pos ht
    rw [hstart] at hge
    simp only [List.length_append] at hge
    omega

/-! ## Nothing is missed -/

/-- A run judges a place: it accepts or refuses a call there. -/
def Judged (sites : List Site) (refused : List Refused) (offset : Nat) : Prop :=
  offset ∈ sites.map (·.start) ∨ offset ∈ refused.map (·.start)

/-- One more site judges its own start. -/
theorem judged_cons {site : Site} {offset : Nat} : Judged (site :: sites) refused offset ↔
    offset = site.start ∨ Judged sites refused offset := by
  rw [Judged, List.map_cons, List.mem_cons, or_assoc]
  rfl

/-- A run judges nothing in front of its cells. -/
theorem Call.Run.not_judged (h : Run target keyword pre accepted ahead sites refused) {offset : Nat}
    (hlt : offset < pre.length) : ¬ Judged sites refused offset := by
  rintro (hmem | hmem)
  · obtain ⟨site, hsite, rfl⟩ := List.mem_map.1 hmem
    exact Nat.not_le_of_lt hlt (h.start_ge site hsite)
  · obtain ⟨r, hr, rfl⟩ := List.mem_map.1 hmem
    exact Nat.not_le_of_lt hlt (h.refused_ge r hr)

/-- Nor behind them. -/
theorem Call.Run.judged_lt (h : Run target keyword pre accepted ahead sites refused)
    (ht : Dotted target) {offset : Nat} (hjudged : Judged sites refused offset) :
    offset < pre.length + ahead.length := by
  rcases hjudged with hmem | hmem
  · obtain ⟨site, hsite, rfl⟩ := List.mem_map.1 hmem
    exact h.start_lt ht site hsite
  · obtain ⟨r, hr, rfl⟩ := List.mem_map.1 hmem
    obtain ⟨a, c, b, rfl, hstart, -⟩ := h.called_of_refused r hr
    rw [hstart]
    simp only [List.length_append, List.length_cons]
    omega

/-- Nor does it hide anything there. -/
theorem Call.Run.not_hides (h : Run target keyword pre accepted ahead sites refused) {offset : Nat}
    (hle : offset ≤ pre.length) : ∀ site ∈ sites, ¬ site.Hides offset := by
  intro site hsite hhides
  exact Nat.not_le_of_lt hhides.1 (Nat.le_trans hle (h.start_ge site hsite))

/-- A run judges a place exactly when the target is called there and no site hides it. The induction
is on the run; `a` is what it has passed over when it comes to the place. -/
theorem Call.Run.judged_iff (ht : Dotted target)
    (h : Run target keyword pre accepted ahead sites refused) {a b : List Cell} {c : Cell}
    (hahead : ahead = a ++ c :: b) :
    Judged sites refused (pre ++ a).length ↔
      Called target (pre ++ a) (c :: b) ∧ ∀ site ∈ sites, ¬ site.Hides (pre ++ a).length := by
  induction h generalizing a with
  | done => simp at hahead
  | @pass pre ahead x accepted sites refused hcall hrun ih =>
    cases a with
    | nil =>
      obtain ⟨rfl, rfl⟩ := List.cons.inj hahead
      have hfront : (pre ++ []).length < (pre ++ [x]).length := by simp
      refine iff_of_false (hrun.not_judged hfront) ?_
      rintro ⟨⟨blanks, rest, hcalled⟩, -⟩
      rw [List.append_nil] at hcalled
      exact hcall blanks rest hcalled
    | cons y a =>
      obtain ⟨rfl, hrest⟩ := List.cons.inj hahead
      have hlater := ih hrest
      rw [List.append_assoc, List.singleton_append] at hlater
      exact hlater
  | @refuse pre ahead rest x blanks accepted reason sites refused hcall hjudge hrun ih =>
    cases a with
    | nil =>
      obtain ⟨rfl, rfl⟩ := List.cons.inj hahead
      rw [List.append_nil]
      refine iff_of_true (.inr List.mem_cons_self) ⟨⟨blanks, rest, hcall⟩, ?_⟩
      exact hrun.not_hides (by simp)
    | cons y a =>
      obtain ⟨rfl, hrest⟩ := List.cons.inj hahead
      have hlater := ih hrest
      rw [List.append_assoc, List.singleton_append] at hlater
      rw [← hlater, Judged, Judged, List.map_cons, List.mem_cons]
      have hne : (pre ++ x :: a).length ≠ pre.length := by simp
      exact or_congr_right (or_iff_right hne)
  | @accept pre behind accepted s sites refused hat cl _ hbehind _ hrun ih =>
    have hfront : (pre ++ s.cells target ++ cl.gap ++ cl.brk).length =
        pre.length + (s.cells target).length + (cl.gap ++ cl.brk).length := by
      simp only [List.length_append]
      omega
    have hpos := s.length_cells_pos ht
    rw [judged_cons, List.forall_mem_cons]
    simp only [hides_site_iff, start_site]
    rcases split_append hahead with ⟨d, hcells, rfl⟩ | ⟨d, rfl, hd⟩
    · have hlength := congrArg List.length hcells
      simp only [List.length_append, List.length_cons] at hlength
      cases a with
      | nil =>
        have hcalled := hat.callAt
        rw [hcells] at hcalled
        rw [List.append_nil]
        refine iff_of_true (.inl rfl) ⟨⟨_, _, hcalled⟩, fun hhides => ?_, ?_⟩
        · exact Nat.lt_irrefl _ hhides.1
        · exact hrun.not_hides (by omega)
      | cons y a =>
        -- strictly inside the statement
        rw [List.length_cons] at hlength
        have hplace : (pre ++ y :: a).length = pre.length + (a.length + 1) := by simp
        rw [hplace]
        refine iff_of_false ?_ ?_
        · rintro (heq | hjudged)
          · omega
          · exact hrun.not_judged (by omega) hjudged
        · rintro ⟨-, hvisible, -⟩
          omega
    · have hplace : (pre ++ (s.cells target ++ d)).length =
          pre.length + (s.cells target).length + d.length := by
        simp only [List.length_append]
        omega
      have hother : (pre ++ (s.cells target ++ d)).length ≠ pre.length := by omega
      have hvisible : ¬ (pre.length < (pre ++ (s.cells target ++ d)).length ∧
          (pre ++ (s.cells target ++ d)).length < pre.length + (s.cells target).length) := by omega
      rw [or_iff_right hother, and_iff_right hvisible]
      rw [hbehind] at hd
      rcases split_append hd with ⟨e, hgap, -⟩ | ⟨e, rfl, hrest⟩
      · -- white space behind the statement
        have hlength := congrArg List.length hgap
        rw [@List.length_append _ d, List.length_cons] at hlength
        refine iff_of_false (hrun.not_judged ?_) ?_
        · omega
        · rintro ⟨hcalled, -⟩
          have hblank := cl.isBlank c (by rw [hgap]; simp)
          exact not_called_of_undotted ht (not_isDottedByte_of_isBlank hblank) hcalled
      · have hlater := ih hrest
        simp only [List.append_assoc] at hlater ⊢
        exact hlater

end

/-- Candidates lie in the text. -/
theorem isCandidate_lt {target text : Bytes} (ht : Dotted target) {offset : Nat}
    (h : isCandidate target text offset = true) : offset < (scan text).length := by
  obtain ⟨b, bytes, rfl, -⟩ := ht.head
  simp only [isCandidate, Bool.and_eq_true, List.isPrefixOf_iff_prefix] at h
  have hlength := h.1.1.2.length_le
  rw [List.length_cons, List.length_drop] at hlength
  rw [length_scan]
  omega

/-- A search for a dotted name misses no call and invents none. The sites that it finds and the
calls that it refuses begin, each once and in the order of the text, at the candidates that do not
lie strictly inside a site. -/
theorem find_covers (target : String) (h : Rules.isDottedName target.toList = true)
    (keyword text : Bytes) :
    ((find (.ofString target) keyword text).sites.map (·.start)).Pairwise (· < ·) ∧
    ((find (.ofString target) keyword text).refused.map (·.start)).Pairwise (· < ·) ∧
    ((find (.ofString target) keyword text).sites.map (·.start)).Disjoint
      ((find (.ofString target) keyword text).refused.map (·.start)) ∧
    ∀ offset,
      offset ∈ (find (.ofString target) keyword text).sites.map (·.start) ∨
          offset ∈ (find (.ofString target) keyword text).refused.map (·.start) ↔
        isCandidate (.ofString target) text offset = true ∧
          ∀ site ∈ (find (.ofString target) keyword text).sites,
            ¬ (site.start < offset ∧ offset < site.stop) := by
  have ht := Rules.dotted_of_isDottedName h
  have hrun := find_run ht keyword text
  refine ⟨hrun.sites_ordered ht, hrun.refused_ordered, hrun.disjoint ht, fun offset => ?_⟩
  by_cases hlt : offset < (scan text).length
  · have hsplit := List.take_append_drop offset (scan text)
    rw [List.drop_eq_getElem_cons hlt] at hsplit
    have hjudged := hrun.judged_iff ht hsplit.symm
    rw [← isCandidate_iff ht (by rw [List.nil_append, hsplit]), List.nil_append,
      List.length_take_of_le (Nat.le_of_lt hlt)] at hjudged
    exact hjudged
  · refine iff_of_false (fun hjudged => hlt ?_) (fun hcandidate => hlt ?_)
    · have := hrun.judged_lt ht hjudged
      rwa [List.length_nil, Nat.zero_add] at this
    · exact isCandidate_lt ht hcandidate.1

/-- The name overlaps itself, one call is hidden in a call statement, and two are refused. -/
theorem find_covers_overlapping :
    Rules.isDottedName "a.a".toList = true ∧
    (find (.ofString "a.a") [] (.ofString "a.a.a(1);a.a(a.a(2));x=a.a(a.a(3))")).sites.map
      (·.span) = [⟨9, 21⟩] ∧
    (find (.ofString "a.a") [] (.ofString "a.a.a(1);a.a(a.a(2));x=a.a(a.a(3))")).refused.map
      (·.start) = [23, 27] ∧
    isCandidate (.ofString "a.a") (.ofString "a.a.a(1);a.a(a.a(2));x=a.a(a.a(3))") 13 = true ∧
    ∀ offset, offset ∈ [9] ∨ offset ∈ [23, 27] ↔
      isCandidate (.ofString "a.a") (.ofString "a.a.a(1);a.a(a.a(2));x=a.a(a.a(3))") offset = true ∧
        ∀ site ∈ (find (.ofString "a.a") []
            (.ofString "a.a.a(1);a.a(a.a(2));x=a.a(a.a(3))")).sites,
          ¬ (site.start < offset ∧ offset < site.stop) := by
  have hname : Rules.isDottedName "a.a".toList = true := by decide
  obtain ⟨-, -, -, hcovers⟩ := find_covers "a.a" hname []
    (.ofString "a.a.a(1);a.a(a.a(2));x=a.a(a.a(3))")
  have hsites : (find (.ofString "a.a") []
      (.ofString "a.a.a(1);a.a(a.a(2));x=a.a(a.a(3))")).sites.map (·.start) = [9] := by
    decide +kernel
  have hrefused : (find (.ofString "a.a") []
      (.ofString "a.a.a(1);a.a(a.a(2));x=a.a(a.a(3))")).refused.map (·.start) = [23, 27] := by
    decide +kernel
  rw [hsites, hrefused] at hcovers
  exact ⟨hname, by decide +kernel, hrefused, by decide +kernel, hcovers⟩

end LogSweep
