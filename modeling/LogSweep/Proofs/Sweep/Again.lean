import LogSweep.Proofs.Component.Tags
import LogSweep.Proofs.Sweep.Repeat
import LogSweep.Sweep.Source

/-!
# Sweeping a text twice

A second sweep of a text finds the scripts that the first one left (`Component.Elements.swept`), so
sweeping twice comes down to sweeping each script twice. It changes nothing more exactly when no
redirected call has a call statement in its arguments, as long as brackets are well nested in the
arguments of all that is swept (`sweepText_again_iff`). Neither condition can be left out.
-/

namespace LogSweep

open Lexical Block Call Component

/-- The scripts of a text. -/
def scripts (layout : Layout) (text : Bytes) : List Bytes :=
  match layout with
  | .script => [text]
  | .component => (bodies text).map (Bytes.slice text)

section
variable {rules : Rules} (h : rules.fault? = none)
include h

/-- Sweeping a script twice changes nothing more than sweeping it once. -/
theorem sweepScript_again_iff {text : Bytes} (htext : Aligned text)
    (hnest : ∀ site ∈ rules.sites text, WellNested site.enclosed) :
    (sweepScript rules (sweepScript rules text).text).isModified = false ↔
      ∀ site ∈ rules.sites text, site.redirection ≠ none → rules.sites site.enclosed = [] := by
  rw [isModified_sweepScript_iff h (aligned_sweepScript h htext)]
  exact sites_sweepScript_eq_nil_iff h htext hnest

/-- A swept script has no closing tag that it had not before. -/
theorem noTag_sweepScript {text : Bytes} (htext : Aligned text) {after : Bytes}
    (hclose : NoTag closeTag text after) : NoTag closeTag (sweepScript rules text).text after := by
  obtain ⟨out, hweave, -, hout, -, -⟩ := sweepScript_weave h htext
  rw [hout]
  refine hweave.noTag_out (Rules.dotted_target h) (Rules.dotted_replacement h) ?_
  rwa [map_byte_scan]

end

namespace Component

variable {rules : Rules} {text rest : Bytes} {parts : List Part}

/-- A component is swept body by body. -/
theorem Elements.sweep_eq (h : Elements [] text parts rest) :
    sweep rules text = sweepBodies rules 0 1 (joined parts ++ rest) (spans 0 parts) := by
  rw [sweep, h.bodies_eq, ← h.text_eq, List.nil_append]

/-- The scripts of a component are its bodies. -/
theorem Elements.scripts_eq (h : Elements [] text parts rest) :
    scripts .component text = parts.map (·.body) := by
  have hslice := map_slice_spans [] parts rest
  rw [List.nil_append, ← h.text_eq] at hslice
  rw [scripts, h.bodies_eq]
  exact hslice

/-- The bodies of an aligned text are aligned. -/
theorem Elements.aligned (h : Elements [] text parts rest) (htext : Aligned text) :
    ∀ p ∈ parts, Aligned p.body := by
  intro p hp
  obtain ⟨before, behind, hparts⟩ := List.append_of_mem hp
  have hsplit : text = joined before ++ p.markup ++ (p.body ++ (joined behind ++ rest)) := by
    rw [← List.nil_append text, h.text_eq, hparts]
    simp [joined]
  rw [hsplit] at htext
  refine (htext.right fun x hx => ?_).left
  rw [List.getLast?_append, h.getLast?_markup p hp] at hx
  cases hx
  decide

/-- A second sweep finds the bodies that the first one left. -/
theorem Elements.swept (hrules : rules.fault? = none) (h : Elements [] text parts rest)
    (htext : Aligned text) :
    Elements [] (sweep rules text).text
      (parts.map fun p => ⟨p.markup, (sweepScript rules p.body).text⟩) rest := by
  obtain ⟨text', helements, -⟩ := h.map (fun body => (sweepScript rules body).text)
    fun p hp close hclose => noTag_sweepScript hrules (h.aligned htext p hp) hclose
  have hout : (sweep rules text).text = text' := by
    rw [h.sweep_eq, text_sweepBodies, ← helements.text_eq, List.nil_append]
  rw [hout]
  exact helements

/-- A second sweep of a component changes nothing when it changes no body. -/
theorem isModified_sweep_again_iff (hrules : rules.fault? = none) (h : Elements [] text parts rest)
    (htext : Aligned text) :
    (sweep rules (sweep rules text).text).isModified = false ↔
      ∀ p ∈ parts, (sweepScript rules (sweepScript rules p.body).text).isModified = false := by
  rw [(h.swept hrules htext).sweep_eq, isModified_sweepBodies, List.forall_mem_map]

/-- A sweep of a component that changes nothing gives the text back. -/
theorem Elements.text_of_not_modified (hrules : rules.fault? = none)
    (h : Elements [] text parts rest) (halign : ∀ p ∈ parts, Aligned p.body)
    (hmod : (sweep rules text).isModified = false) : (sweep rules text).text = text := by
  rw [h.sweep_eq] at hmod ⊢
  have hbodies := (isModified_sweepBodies 0 1 parts rest).1 hmod
  have hparts : parts.map (fun p => ⟨p.markup, (sweepScript rules p.body).text⟩) = parts := by
    refine (List.map_congr_left fun p hp => ?_).trans (List.map_id parts)
    rw [sweepScript_text_of_not_modified hrules (halign p hp) (hbodies p hp)]
    rfl
  rw [text_sweepBodies, hparts, ← h.text_eq, List.nil_append]

end Component

/-- A text swept twice by checked rules is the text swept once, and the second sweep changes
nothing, exactly when no call that is redirected has a call statement in its arguments; provided
that the arguments of the call statements are well nested. -/
theorem sweepText_again_iff (rules : Rules) (h : rules.fault? = none) (layout : Layout)
    (source : String) (hnest : ∀ script ∈ scripts layout (.ofString source),
      ∀ site ∈ rules.sites script, WellNested site.enclosed) :
    ((sweepText rules layout (sweepText rules layout (.ofString source)).text).text =
        (sweepText rules layout (.ofString source)).text ∧
      (sweepText rules layout (sweepText rules layout (.ofString source)).text).isModified =
        false) ↔
    ∀ script ∈ scripts layout (.ofString source), ∀ site ∈ rules.sites script,
      site.redirection ≠ none → rules.sites site.enclosed = [] := by
  have htext := aligned_ofString source
  cases layout with
  | script =>
    have halign := aligned_sweepScript h htext
    refine (and_iff_right_of_imp (sweepScript_text_of_not_modified h halign)).trans ?_
    simp only [scripts, List.forall_mem_singleton] at hnest ⊢
    exact sweepScript_again_iff h htext hnest
  | component =>
    obtain ⟨parts, rest, helements⟩ := exists_elements [] (.ofString source)
    have hbodies := helements.aligned htext
    have halign : ∀ p ∈ parts.map fun p => (⟨p.markup, (sweepScript rules p.body).text⟩ : Part),
        Aligned p.body :=
      List.forall_mem_map.2 fun p hp => aligned_sweepScript h (hbodies p hp)
    refine (and_iff_right_of_imp
      ((helements.swept h htext).text_of_not_modified h halign)).trans ?_
    rw [helements.scripts_eq, List.forall_mem_map] at hnest ⊢
    refine (isModified_sweep_again_iff h helements htext).trans ?_
    exact forall₂_congr fun p hp => sweepScript_again_iff h (hbodies p hp) (hnest p hp)

/-- A redirected call without a call statement in its arguments is left alone by a second sweep. -/
theorem sweepText_again_iff_handler :
    ({} : Rules).fault? = none ∧
    (∀ script ∈ scripts .component (.ofString "<script>catch{console.log([f(1)])}</script>"),
      ∀ site ∈ ({} : Rules).sites script, WellNested site.enclosed) ∧
    (sweepText {} .component (.ofString "<script>catch{console.log([f(1)])}</script>")).redirected =
      1 ∧
    (sweepText {} .component (sweepText {} .component
        (.ofString "<script>catch{console.log([f(1)])}</script>")).text).text =
      (sweepText {} .component (.ofString "<script>catch{console.log([f(1)])}</script>")).text ∧
    (sweepText {} .component (sweepText {} .component
      (.ofString "<script>catch{console.log([f(1)])}</script>")).text).isModified = false := by
  have hrules : ({} : Rules).fault? = none := by decide +kernel
  have hnest : ∀ script ∈ scripts .component
      (.ofString "<script>catch{console.log([f(1)])}</script>"),
      ∀ site ∈ ({} : Rules).sites script, WellNested site.enclosed := by decide +kernel
  refine ⟨hrules, hnest, by decide +kernel, ?_⟩
  exact (sweepText_again_iff {} hrules .component
    "<script>catch{console.log([f(1)])}</script>" hnest).2 (by decide +kernel)

/-- A call statement in the arguments of a redirected call is found by a second sweep only. -/
theorem isModified_sweepText_again_nested :
    ({} : Rules).fault? = none ∧
    (sweepText {} .script (sweepText {} .script
      (.ofString "catch{console.log(()=>{console.log(1)})}")).text).isModified = true := by
  decide +kernel

/-- Arguments that are not well nested can hide a call from the first sweep: they close the block
that it stands in, which is open again once they are gone. -/
theorem isModified_sweepText_again_ill_nested :
    (∀ script ∈ scripts .script (.ofString "(({console.log(});console.log(1);"),
      ∀ site ∈ ({} : Rules).sites script, site.redirection ≠ none →
        ({} : Rules).sites site.enclosed = []) ∧
    (sweepText {} .script (sweepText {} .script
      (.ofString "(({console.log(});console.log(1);")).text).isModified = true := by
  decide +kernel

end LogSweep
