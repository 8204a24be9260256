import LogSweep.Proofs.Sweep.Again
import Mathlib.Algebra.GroupWithZero.Nat

/-!
# When a sweep changes a text

An outcome counts what was deleted and redirected, and does not compare texts. The two agree: every
call that is deleted or redirected is one candidate less in the scripts of the text
(`candidates_sweepText_le`), so the changes of a sweep never add up to the text that it began with,
in one script or across several.
-/

namespace LogSweep

open Lexical Block Call Component

/-- An outcome that is modified counts something. -/
theorem Outcome.isModified_iff (o : Outcome) : o.isModified = true ↔ 0 < o.deleted + o.redirected :=
  decide_eq_true_iff

section
variable {rules : Rules} (h : rules.fault? = none)
include h

/-- The candidates in the bodies of a component become fewer by what is counted. -/
theorem Component.candidates_sweepBodies_le (offset line : Nat) (rest : Bytes) {parts : List Part}
    (halign : ∀ p ∈ parts, Aligned p.body) :
    (parts.map fun p => candidates (.ofString rules.target) (sweepScript rules p.body).text).sum +
        ((sweepBodies rules offset line (joined parts ++ rest) (spans offset parts)).deleted +
          (sweepBodies rules offset line (joined parts ++ rest) (spans offset parts)).redirected) ≤
      (parts.map fun p => candidates (.ofString rules.target) p.body).sum := by
  induction parts generalizing offset line with
  | nil => exact Nat.le_refl 0
  | cons p parts ih =>
    obtain ⟨hfirst, hothers⟩ := List.forall_mem_cons.1 halign
    have hbody := candidates_sweepScript_le h hfirst
    have hrest := ih (offset + p.markup.length + p.body.length)
      (line + p.markup.count Byte.newline + p.body.count Byte.newline) hothers
    rw [sweepBodies_cons]
    simp only [List.map_cons, List.sum_cons, append, shifted]
    omega

/-- Every call that a sweep deletes or redirects is one candidate less in the scripts of a text. -/
theorem candidates_sweepText_le (layout : Layout) {text : Bytes} (htext : Aligned text) :
    ((scripts layout (sweepText rules layout text).text).map
        (candidates (.ofString rules.target))).sum +
      ((sweepText rules layout text).deleted + (sweepText rules layout text).redirected) ≤
        ((scripts layout text).map (candidates (.ofString rules.target))).sum := by
  cases layout with
  | script =>
    simp only [scripts, List.map_cons, List.map_nil, List.sum_cons, List.sum_nil, Nat.add_zero]
    exact candidates_sweepScript_le h htext
  | component =>
    obtain ⟨parts, rest, helements⟩ := exists_elements [] text
    have hswept := (helements.swept h htext).scripts_eq
    have hle := candidates_sweepBodies_le h 0 1 rest (helements.aligned htext)
    rw [← helements.sweep_eq] at hle
    have heq : sweepText rules .component text = Component.sweep rules text := rfl
    rw [heq, hswept, helements.scripts_eq, List.map_map, List.map_map, List.map_map]
    simp only [Function.comp_def]
    exact hle

/-- A sweep that counts nothing gives the text back. -/
theorem sweepText_text_of_not_modified (layout : Layout) {text : Bytes} (htext : Aligned text)
    (hmod : (sweepText rules layout text).isModified = false) :
    (sweepText rules layout text).text = text := by
  cases layout with
  | script => exact sweepScript_text_of_not_modified h htext hmod
  | component =>
    obtain ⟨parts, rest, helements⟩ := exists_elements [] text
    exact helements.text_of_not_modified h (helements.aligned htext) hmod

/-- A sweep that counts something gives another text. -/
theorem sweepText_text_ne_of_modified (layout : Layout) {text : Bytes} (htext : Aligned text)
    (hmod : (sweepText rules layout text).isModified = true) :
    (sweepText rules layout text).text ≠ text := by
  intro heq
  have hpos := (Outcome.isModified_iff _).1 hmod
  have hle := candidates_sweepText_le h layout htext
  rw [heq] at hle
  omega

end

/-- A sweep by checked rules is modified, as counted, exactly when it gives another text. -/
theorem isModified_sweepText_iff (rules : Rules) (h : rules.fault? = none) (layout : Layout)
    (source : String) :
    (sweepText rules layout (.ofString source)).isModified = true ↔
      (sweepText rules layout (.ofString source)).text ≠ .ofString source := by
  have htext := aligned_ofString source
  refine ⟨sweepText_text_ne_of_modified h layout htext, fun hne => ?_⟩
  cases hmod : (sweepText rules layout (.ofString source)).isModified with
  | true => rfl
  | false => exact absurd (sweepText_text_of_not_modified h layout htext hmod) hne

/-- A deletion in one body and a redirection in another that leave the length of the text as it
was. -/
theorem isModified_sweepText_iff_length :
    ({ target := "a", replacement := "bcd" } : Rules).fault? = none ∧
    (sweepText { target := "a", replacement := "bcd" } .component
      (.ofString "<script>a();</script><script>catch{a()}</script>")).text.length =
        (Bytes.ofString "<script>a();</script><script>catch{a()}</script>").length ∧
    (sweepText { target := "a", replacement := "bcd" } .component
      (.ofString "<script>a();</script><script>catch{a()}</script>")).text ≠
        .ofString "<script>a();</script><script>catch{a()}</script>" := by
  have hrules : ({ target := "a", replacement := "bcd" } : Rules).fault? = none := by
    decide +kernel
  refine ⟨hrules, by decide +kernel, ?_⟩
  exact (isModified_sweepText_iff _ hrules .component
    "<script>a();</script><script>catch{a()}</script>").1 (by decide +kernel)

end LogSweep
