import LogSweep.Proofs.Call.Candidates
import LogSweep.Proofs.Sweep.Replaced
import Mathlib.Logic.Function.Iterate

/-!
# Sweeping again and again

A sweep makes no new calls of the target: the kept parts are sealed off from what is put between
them, and the replacement is another function. Every call statement that is deleted or redirected is
one call less (`Weave.calls_le`), so repeated sweeps come to rest.
-/

namespace LogSweep

open Lexical Block Call

section
variable {target keyword replacement : Bytes} {pre pre' kept indent extra src out : List Cell}
  {accepted : Option Span} {s : Statement} {sites : List Site}

/-- What ends a statement or a block is no part of a name. -/
theorem Rests.sealed {cells : List Cell} (h : Rests cells) : Sealed cells := by
  intro a x g hcells hx hg
  rcases h a x g hcells hx hg with hb | hb | hb <;> rw [hb] <;> rfl

/-- The calls in a kept part do not depend on what follows it. -/
theorem Cut.calls_kept (ht : Dotted target)
    (h : Cut target keyword accepted pre kept indent s extra src) (hpre : Ended pre')
    (cells : List Cell) :
    calls target pre' (kept ++ cells) = calls target [] kept + calls target [] cells := by
  rw [calls_append ht h.rests.sealed, calls_of_ended hpre, calls_of_ended (hpre.append h.ended)]

/-- Each site is one call of the target less. -/
theorem Weave.calls_le (ht : Dotted target) (hr : Dotted replacement) (hne : target ≠ replacement)
    (h : Weave target keyword replacement pre accepted sites src out) :
    calls target [] out + sites.length ≤ calls target [] src := by
  induction h with
  | done => simp
  | @deleted pre kept indent gap brk src out accepted s sites site hcut _ _ _ _ ih =>
    have hindent : ∀ c ∈ indent, isDottedByte c.byte = false := fun c hc =>
      not_isDottedByte_of_isBlank (hcut.indent_blanks c hc).2
    have hextra : ∀ c ∈ gap ++ brk, isDottedByte c.byte = false := fun c hc =>
      not_isDottedByte_of_isBlank (hcut.extra_blanks c hc).2
    have hsrc : calls target [] (kept ++ (indent ++ s.cells target ++ (gap ++ brk)) ++ src) =
        calls target [] kept + (1 + (calls target [] s.group + calls target [] src)) := by
      rw [List.append_assoc, hcut.calls_kept ht .nil, List.append_assoc, List.append_assoc,
        calls_skips ht hindent .nil, calls_statement ht ht s .nil, calls_skips ht hextra .nil,
        tally_pos rfl]
    rw [hsrc, hcut.calls_kept ht .nil, List.length_cons]
    omega
  | @redirected pre kept src out accepted s sites site r hcut hsite hred _ ih =>
    have hlead : ∀ c ∈ codeCells r.lead, isDottedByte c.byte = false := fun c hc =>
      not_isDottedByte_of_isBlank (Statement.lead_isBlank hsite hred _ (mem_codeCells.1 hc).1)
    have hsrc : calls target [] (kept ++ s.cells target ++ src) =
        calls target [] kept + (1 + (calls target [] s.group + calls target [] src)) := by
      rw [List.append_assoc, hcut.calls_kept ht .nil, calls_statement ht ht s .nil, tally_pos rfl]
    have hout : calls target [] (kept ++ (codeCells r.lead ++ s.tidy.cells replacement) ++ out) =
        calls target [] kept + (calls target [] s.group + calls target [] out) := by
      rw [List.append_assoc, hcut.calls_kept ht .nil, List.append_assoc, calls_skips ht hlead .nil,
        calls_statement ht hr s.tidy .nil, tally_neg hne.symm, Nat.zero_add]
      rfl
    rw [hsrc, hout, List.length_cons]
    omega

end

section
variable {rules : Rules} (h : rules.fault? = none) {text : Bytes} (htext : Aligned text)
include h htext

/-- A sweep keeps a text aligned. -/
theorem aligned_sweepScript : Aligned (sweepScript rules text).text := by
  obtain ⟨out, hweave, -, hout, -, -⟩ := sweepScript_weave h htext
  rw [hout]
  exact hweave.aligned_out (aligned_ofString rules.replacement) (by rwa [map_byte_scan])

/-- Every call statement that a sweep takes out is one candidate less. -/
theorem candidates_sweepScript_le :
    candidates (.ofString rules.target) (sweepScript rules text).text +
      ((sweepScript rules text).deleted + (sweepScript rules text).redirected) ≤
        candidates (.ofString rules.target) text := by
  have ht := Rules.dotted_target h
  have hr := Rules.dotted_replacement h
  obtain ⟨out, hweave, -, hout, -, hcount⟩ := sweepScript_weave h htext
  rw [hcount, hout, candidates_eq ht, candidates_eq ht, hweave.lexed_out ht hr]
  exact hweave.calls_le ht hr (Rules.target_ne_replacement h)

/-- A sweep changes nothing exactly when there is no call statement. -/
theorem isModified_sweepScript_iff :
    (sweepScript rules text).isModified = false ↔ rules.sites text = [] := by
  obtain ⟨out, -, -, -, -, hcount⟩ := sweepScript_weave h htext
  rw [Outcome.isModified, hcount]
  simp

/-- Then it gives the text back. -/
theorem sweepScript_text_of_not_modified (hmod : (sweepScript rules text).isModified = false) :
    (sweepScript rules text).text = text := by
  obtain ⟨out, hweave, -, hout, -, -⟩ := sweepScript_weave h htext
  rw [(isModified_sweepScript_iff h htext).1 hmod] at hweave
  cases hweave
  rw [hout, map_byte_scan]

/-- Repeated sweeps come to rest. The induction is on the candidates that are left. -/
theorem exists_iterate_not_modified :
    ∃ n ≤ candidates (.ofString rules.target) text, ∃ rest,
      rest = (fun t => (sweepScript rules t).text)^[n] text ∧
      (sweepScript rules rest).isModified = false ∧ (sweepScript rules rest).text = rest := by
  induction hk : candidates (.ofString rules.target) text using Nat.strongRecOn
    generalizing text with
  | ind k ih =>
  subst hk
  cases hmod : (sweepScript rules text).isModified with
  | false =>
    exact ⟨0, Nat.zero_le _, text, rfl, hmod, sweepScript_text_of_not_modified h htext hmod⟩
  | true =>
    have hle := candidates_sweepScript_le h htext
    have hpos : 0 < (sweepScript rules text).deleted + (sweepScript rules text).redirected := by
      simpa [Outcome.isModified] using hmod
    obtain ⟨n, hn, rest, hrest, hdone⟩ := @ih _ (by omega) _ (aligned_sweepScript h htext) rfl
    exact ⟨n + 1, by omega, rest, hrest, hdone⟩

end

/-- A sweep by checked rules leaves fewer candidates, by as many as it deletes and redirects calls;
so after at most as many sweeps as the text has candidates, a sweep changes nothing any more. -/
theorem sweepScript_converges (rules : Rules) (h : rules.fault? = none) (source : String) :
    candidates (.ofString rules.target) (sweepScript rules (.ofString source)).text +
      ((sweepScript rules (.ofString source)).deleted +
        (sweepScript rules (.ofString source)).redirected) ≤
          candidates (.ofString rules.target) (.ofString source) ∧
    ∃ n ≤ candidates (.ofString rules.target) (.ofString source), ∃ rest,
      rest = (fun t => (sweepScript rules t).text)^[n] (.ofString source) ∧
      (sweepScript rules rest).isModified = false ∧ (sweepScript rules rest).text = rest :=
  ⟨candidates_sweepScript_le h (aligned_ofString source),
    exists_iterate_not_modified h (aligned_ofString source)⟩

/-- A call in the arguments of a redirected call is left to a second sweep. -/
theorem sweepScript_converges_nested :
    ({} : Rules).fault? = none ∧
    (({} : Rules).sites (.ofString "catch{console.log(()=>{console.log(1)})}")).length = 1 ∧
    ∃ n ≤ 2, ∃ rest, rest = (fun t => (sweepScript {} t).text)^[n]
        (.ofString "catch{console.log(()=>{console.log(1)})}") ∧
      (sweepScript {} rest).isModified = false ∧ (sweepScript {} rest).text = rest := by
  have hcount : candidates (.ofString ({} : Rules).target)
      (.ofString "catch{console.log(()=>{console.log(1)})}") = 2 := by decide +kernel
  refine ⟨by decide +kernel, by decide +kernel, ?_⟩
  rw [← hcount]
  exact (sweepScript_converges {} (by decide +kernel) "catch{console.log(()=>{console.log(1)})}").2

end LogSweep
