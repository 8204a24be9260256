import LogSweep.Proofs.Checked.Search
import LogSweep.Proofs.Edit.Sequential
import LogSweep.Proofs.Sweep.LineBreaks

/-!
# Sweeping a script by checked reads

A second walk over the text settles how each call statement is redirected. It stops at the
statements in turn (`place?`), and what a redirected call is put behind is read around the statement
(`leadAt?`). Then the edits are written in one pass. No read fails, and the outcome is that of the
library (`sweepScript?_eq`).
-/

namespace LogSweep.Checked

open Lexical Block Call

/-- Whether the line that a statement ends on, or the line above on the last line, ends with a
carriage return and a newline. -/
def longBreakAt? (text : Bytes) (site : Site) : Option Bool := do
  let rest ← text.range? ⟨site.stop, text.length⟩
  match rest.findIdx? (· == Byte.newline) with
  | some n => text.precededBy? (· == Byte.carriageReturn) (site.stop + n)
  | none =>
    if 0 < site.lineStart then text.precededBy? (· == Byte.carriageReturn) (site.lineStart - 1)
    else some false

/-- The line break of that line. -/
def lineBreakAt? (text : Bytes) (site : Site) : Option Bytes := do
  let long ← longBreakAt? text site
  return if long then [Byte.carriageReturn, Byte.newline] else [Byte.newline]

/-- What a statement is put behind when it is redirected. -/
def leadAt? (text : Bytes) (site : Site) : Option Bytes :=
  if site.startsLine then some [] else do
    let row ← text.cut? ⟨site.lineStart, site.start⟩
    let lineBreak ← lineBreakAt? text site
    return lineBreak ++ row.takeWhile Byte.isHorizontal ++ [Byte.space]

/-- How a statement is redirected, given the innermost handler around it. -/
def redirectionAt? (text : Bytes) (site : Site) : Option Handler → Option (Option Redirection)
  | none => some none
  | some handler => do
    let lead ← leadAt? text site
    return some ⟨handler, lead⟩

/-- Settles how each statement is redirected. -/
def place? (keyword text : Bytes) (rs : List Region) (w : Walker) : List Site → Option (List Site)
  | [] => some []
  | site :: sites => do
    let w ← w.advanceTo? keyword text rs site.start
    let redirection ← redirectionAt? text site w.handler?
    let placed ← place? keyword text rs w sites
    return { site with redirection } :: placed

/-- Sweeps a script. -/
def sweepScript? (rules : Rules) (text : Bytes) : Option Outcome := do
  let rs ← regions? text
  let found ← find? (.ofString rules.target) text rs
  let sites ← place? (.ofString rules.keyword) text rs {} found.sites
  let edits := sites.map (siteEdit (.ofString rules.replacement))
  let skipped := found.refused.map fun r => ⟨r.line, r.reason⟩
  match Edit.firstFault? text edits with
  | some _ => return { text, skipped }
  | none => do
    let swept ← Edit.copyOut? text 0 (edits.mergeSort Edit.before)
    let changes := sites.map siteChange
    let redirected := changes.countP (·.action == .redirected)
    let deleted ← minus? changes.length redirected
    return { text := swept, deleted, redirected, changes, skipped }

/-! ## The line break -/

section
variable {a b : List Cell} {c : Cell}

/-- Without a newline there is no line break to see. -/
theorem longBreak?_of_forall_ne (h : ∀ x ∈ a, x.byte ≠ Byte.newline) (wasReturn : Bool) :
    longBreak? wasReturn a = none := by
  induction a generalizing wasReturn with
  | nil => rfl
  | cons x a ih =>
    obtain ⟨hx, ha⟩ := List.forall_mem_cons.1 h
    rw [longBreak?, if_neg (by simpa using hx), ih ha]

/-- The first newline counts, with the byte before it. -/
theorem longBreak?_append_cons (h : ∀ x ∈ a, x.byte ≠ Byte.newline) (hc : c.byte = Byte.newline)
    (wasReturn : Bool) :
    longBreak? wasReturn (a ++ c :: b) =
      some ((a.getLast?.map (·.byte == Byte.carriageReturn)).getD wasReturn) := by
  induction a generalizing wasReturn with
  | nil => rw [List.nil_append, longBreak?, if_pos (beq_iff_eq.2 hc)]; rfl
  | cons x a ih =>
    obtain ⟨hx, ha⟩ := List.forall_mem_cons.1 h
    rw [List.cons_append, longBreak?, if_neg (by simpa using hx), ih ha, List.getLast?_cons]
    cases a.getLast? <;> rfl

end

section
variable {text : Bytes} {up row s behind : List Cell}

/-- The line above ends with a carriage return when the byte before the last newline is one. -/
theorem longBreakAbove_eq (keyword : Bytes) (hup : Cursor.LineBegins up)
    (hrow : ∀ x ∈ row, x.byte ≠ Byte.newline) :
    longBreakAbove (.past keyword (up ++ row)) =
      up.dropLast.getLast?.any (·.byte == Byte.carriageReturn) := by
  rcases List.eq_nil_or_concat up with rfl | ⟨init, c, rfl⟩
  · exact longBreakAbove_past_none keyword hrow
  · rw [List.concat_eq_append] at hup ⊢
    have hc : c.byte = Byte.newline := hup c (by simp)
    rw [Bool.eq_iff_iff, longBreakAbove_past keyword hc hrow, List.dropLast_concat,
      List.getLast?_map]
    cases init.getLast? <;> simp

/-- The byte in front of the newline above a line can be read, if there is a line above. -/
theorem precededBy?_above (p : UInt8 → Bool) (h : scan text = up ++ row) :
    (if 0 < up.length then text.precededBy? p (up.length - 1) else some false) =
      some (up.dropLast.getLast?.any (p ·.byte)) := by
  rcases List.eq_nil_or_concat up with rfl | ⟨init, c, rfl⟩
  · rfl
  · rw [List.concat_eq_append] at h ⊢
    rw [if_pos (by simp), List.length_append, List.length_singleton, Nat.add_sub_cancel,
      List.dropLast_concat, precededBy?_of_scan p (h.trans (List.append_assoc ..))]

/-- The line break is the one that the library takes. A statement does not end with a carriage
return, so one before the newline behind it is no part of the statement. -/
theorem longBreakAt?_eq (keyword : Bytes) (h : scan text = up ++ row ++ s ++ behind)
    (hup : Cursor.LineBegins up) (hrow : ∀ x ∈ row, x.byte ≠ Byte.newline)
    (hs : ((up ++ row ++ s).map (·.byte)).getLast? ≠ some Byte.carriageReturn) {site : Site}
    (hstop : site.stop = (up ++ row ++ s).length) (hline : site.lineStart = up.length) :
    longBreakAt? text site =
      some ((longBreak? false behind).getD (longBreakAbove (.past keyword (up ++ row)))) := by
  have hread : text.range? ⟨site.stop, text.length⟩ = some (behind.map (·.byte)) := by
    have hle : (up ++ row ++ s).length ≤ text.length := by
      rw [length_of_scan h]
      exact Nat.le_add_right _ _
    rw [hstop, Bytes.range?_end hle, drop_of_scan h]
  rw [longBreakAt?, hread, hline, hstop]
  obtain ⟨g, m, rfl, hg, hm⟩ := skip_split (· != Byte.newline) behind
  have hg : ∀ x ∈ g, x.byte ≠ Byte.newline := fun x hx => by simpa using hg x hx
  have hfind : (g.map (·.byte)).findIdx? (· == Byte.newline) = none := by
    rw [List.findIdx?_eq_none_iff]
    exact List.forall_mem_map.2 fun x hx => beq_eq_false_iff_ne.2 (hg x hx)
  cases m with
  | nil =>
    -- there is no newline behind the statement, so the one above the line decides
    have habove : scan text = up ++ (row ++ s ++ g) := by
      rw [h]
      simp
    rw [List.append_nil, longBreak?_of_forall_ne hg, Option.getD_none,
      longBreakAbove_eq keyword hup hrow]
    simp only [Option.bind_eq_bind, Option.bind_some, hfind, precededBy?_above _ habove]
  | cons c m =>
    have hc : c.byte = Byte.newline := by simpa using hm c rfl
    have hindex : ((g ++ c :: m).map (·.byte)).findIdx? (· == Byte.newline) = some g.length := by
      rw [List.map_append, List.findIdx?_append, hfind, List.map_cons, List.findIdx?_cons,
        if_pos (beq_iff_eq.2 hc)]
      simp
    have hplace : scan text = (up ++ row ++ s ++ g) ++ (c :: m) := by
      rw [h]
      simp
    have hbefore : (up ++ row ++ s ++ g).getLast?.any (·.byte == Byte.carriageReturn) =
        (g.getLast?.map (·.byte == Byte.carriageReturn)).getD false := by
      cases hlast : g.getLast? with
      | some x => simp [List.getLast?_append, hlast]
      | none =>
        rw [List.getLast?_eq_none_iff.1 hlast, List.append_nil]
        cases hend : (up ++ row ++ s).getLast? with
        | none => rfl
        | some x =>
          rw [List.getLast?_map, hend] at hs
          simpa using hs
    rw [longBreak?_append_cons hg hc]
    simp only [Option.bind_eq_bind, Option.bind_some, hindex]
    rw [← List.length_append, precededBy?_of_scan _ hplace, hbefore, Option.getD_some]

end

/-! ## Redirection -/

section
variable {text target keyword : Bytes} {pre behind : List Cell} {s : Statement}

/-- A call statement is redirected as the library redirects it. -/
theorem redirectionAt?_eq (htext : Aligned text)
    (h : scan text = pre ++ (s.cells target ++ behind)) (hpre : Ended pre) :
    redirectionAt? text (s.site target keyword pre behind).unplaced
        (Walker.past keyword pre).handler? =
      some (s.site target keyword pre behind).redirection := by
  have hlast := s.getLast?_ne target (pre.map (·.byte))
  have hcut := isCut_of_ended htext h hpre
  obtain ⟨up, row, rfl, hup, hrow⟩ := Cursor.line_split pre
  have hline : (s.site target keyword (up ++ row) behind).unplaced.lineStart = up.length :=
    Cursor.lineStart_past keyword hup hrow
  have hstarts : (s.site target keyword (up ++ row) behind).unplaced.startsLine =
      row.all (Byte.isHorizontal ·.byte) := Cursor.startsLine_past keyword hup hrow
  have hred : (s.site target keyword (up ++ row) behind).redirection =
      redirection? (.past keyword (up ++ row)) (s.ending target (up ++ row).length behind) := rfl
  rw [Walker.past, Walker.handler?_of, hred, redirection?_eq keyword _ hup hrow]
  cases (Cursor.past keyword (up ++ row)).handler? with
  | none => rfl
  | some handler =>
    rw [redirectionAt?, leadAt?, hstarts, Option.map_some]
    cases row.all (Byte.isHorizontal ·.byte) with
    | true => rfl
    | false =>
      have hplace : scan text = up ++ row ++ s.cells target ++ behind := by
        rw [h]
        simp
      have hread : text.cut? ⟨up.length, (up ++ row).length⟩ = some (row.map (·.byte)) :=
        cut?_of_scan h (isCut_of_ended htext (h.trans (List.append_assoc ..))
          (ended_of_lineBegins hup)) hcut
      have hstart : (s.site target keyword (up ++ row) behind).unplaced.start =
          (up ++ row).length := rfl
      have hbreak : longBreakAt? text (s.site target keyword (up ++ row) behind).unplaced =
          some ((longBreak? false behind).getD (longBreakAbove (.past keyword (up ++ row)))) :=
        longBreakAt?_eq keyword hplace hup hrow (by rwa [List.map_append])
          List.length_append.symm hline
      rw [hline, hstart, hread, lineBreakAt?, hbreak]
      rfl

end

/-- The walk stops at every call statement and settles how it is redirected. The induction is on the
run of the search: the walker has never gone beyond the cells that the run has passed. -/
theorem place?_eq {text target keyword : Bytes} (ht : Dotted target) (htext : Aligned text)
    {pre ahead : List Cell} {accepted : Option Span} {sites : List Site} {refused : List Refused}
    (hrun : Run target keyword pre accepted ahead sites refused) (h : scan text = pre ++ ahead)
    {w : Walker} (hw : Reached keyword text pre w) :
    place? keyword text (regions text) w (sites.map Site.unplaced) = some sites := by
  induction hrun generalizing w with
  | done => rfl
  | @pass pre ahead c _ _ _ _ _ ih | @refuse pre ahead _ c _ _ _ _ _ _ _ _ ih =>
    exact ih (by rw [h, List.append_cons]) (hw.mono [c])
  | @accept pre behind accepted s sites refused hat cl _ hbehind _ _ ih =>
    obtain ⟨x, tl, hx, hcode, -⟩ := s.cells_eq_cons ht
    have hpre : Parting text pre (s.cells target ++ behind) := by
      refine .of_scan h fun c hc => ?_
      rw [hx, List.cons_append, List.head?_cons, Option.some.injEq] at hc
      rw [← hc, Cell.isInside, hcode]
    have hrest := ih (by rw [h, hbehind]; simp)
      (((((reached_past keyword hpre).mono _).mono _).mono _))
    have hstart : (s.site target keyword pre behind).unplaced.start = pre.length := rfl
    rw [List.map_cons, place?, hstart, hw.advanceTo? htext hpre]
    simp only [Option.bind_eq_bind, Option.bind_some,
      redirectionAt?_eq htext h hat.boundary, hrest]
    rfl

/-- A script is swept as the library sweeps it, with every read in order. -/
theorem sweepScript?_eq {rules : Rules} (h : rules.fault? = none) (source : String) :
    sweepScript? rules (.ofString source) = some (sweepScript rules (.ofString source)) := by
  have ht := Rules.dotted_target h
  have hplace := place?_eq ht (aligned_ofString source)
    (find_run ht (.ofString rules.keyword) (.ofString source)) rfl
    (reached_past (.ofString rules.keyword) (.start _))
  rw [sweepScript?, regions?_eq, sweepScript, Edit.apply]
  simp only [Option.bind_eq_bind, Option.bind_some,
    find?_eq (Rules.checked h).1 (.ofString rules.keyword)]
  rw [show ({} : Walker) = .past (.ofString rules.keyword) [] from rfl, hplace]
  simp only [Option.bind_some]
  cases hfault : Edit.firstFault? (.ofString source)
      ((find (.ofString rules.target) (.ofString rules.keyword) (.ofString source)).sites.map
        (siteEdit (.ofString rules.replacement))) with
  | some fault => rfl
  | none =>
    simp only [Edit.copyOut?_mergeSort hfault, Option.bind_some, minus?_eq List.countP_le_length]
    rfl

end LogSweep.Checked
