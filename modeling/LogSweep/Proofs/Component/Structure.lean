import LogSweep.Proofs.Sweep.Again
import LogSweep.Proofs.Sweep.Stretches
import Mathlib.Algebra.GroupWithZero.Nat

/-!
# The structure of a swept component

A sweep of a component writes every script body anew where it stands and touches nothing else, and
what it counts is what the sweeps of the bodies count (`sweepBodies_eq`). A call is reported on its
line in the component: the lines in front of its body and those in front of it in the body add up
(`shifted_sweepScript`). The bodies of the swept component are the swept bodies.
-/

namespace LogSweep

open Lexical Block Call

/-! ## Lines of calls -/

/-- Lines of a part of a text are counted on from the lines in front of it. -/
theorem lineNumber_middle (a b c : Bytes) {n : Nat} (h : n ≤ b.length) :
    lineNumber (a ++ b ++ c) (a.length + n) = lineNumber b n + a.count Byte.newline := by
  have htake : (a ++ b ++ c).take (a.length + n) = a ++ b.take n := by
    rw [List.append_assoc, List.take_length_add_append, List.take_append_of_le_length h]
  rw [lineNumber, lineNumber, htake, List.count_append]
  omega

section
variable {target keyword : Bytes} {pre ahead : List Cell} {accepted : Option Span}
  {sites : List Site} {refused : List Refused}

/-- The sites of a run lie among its cells, each on the line that the cursor is on there. -/
theorem Call.Run.placed_of_site (h : Run target keyword pre accepted ahead sites refused) :
    ∀ site ∈ sites, ∃ a b, ahead = a ++ b ∧ site.start = (pre ++ a).length ∧
      site.line = (Cursor.past keyword (pre ++ a)).line := by
  induction h with
  | done => simp
  | @pass pre ahead c accepted sites refused _ _ ih
  | @refuse pre ahead rest c blanks accepted reason sites refused _ _ _ ih =>
    intro site hsite
    obtain ⟨a, b, rfl, hstart, hline⟩ := ih site hsite
    exact ⟨c :: a, b, rfl, by simpa using hstart, by simpa using hline⟩
  | @accept pre behind accepted s sites refused _ cl _ hbehind _ _ ih =>
    refine List.forall_mem_cons.2 ⟨⟨[], _, rfl, by simp [Statement.site], by simp [Statement.site]⟩,
      fun site hsite => ?_⟩
    obtain ⟨a, b, hrest, hstart, hline⟩ := ih site hsite
    have hplace : pre ++ s.cells target ++ cl.gap ++ cl.brk ++ a =
        pre ++ (s.cells target ++ cl.gap ++ cl.brk ++ a) := by simp
    rw [hplace] at hstart hline
    exact ⟨_, b, by rw [hbehind, hrest]; simp, hstart, hline⟩

/-- The line that the cursor is on behind the first cells of a text. -/
theorem line_past_split {text : Bytes} {a b : List Cell} (h : scan text = a ++ b) :
    a.length ≤ text.length ∧ (Cursor.past keyword a).line = lineNumber text a.length := by
  have htext : text = a.map (·.byte) ++ b.map (·.byte) := by
    rw [← List.map_append, ← h, map_byte_scan]
  rw [htext, Cursor.line_past, lineNumber, ← List.length_map (f := (·.byte)), List.take_left]
  simp

end

section
variable {rules : Rules} (h : rules.fault? = none) (text : Bytes)
include h

/-- A site lies within the text, on the line that it names. -/
theorem Rules.line_of_site : ∀ site ∈ rules.sites text,
    site.start ≤ text.length ∧ site.line = lineNumber text site.start := by
  intro site hsite
  obtain ⟨a, b, hcells, hstart, hline⟩ := (find_run (Rules.dotted_target h)
    (.ofString rules.keyword) text).placed_of_site site hsite
  rw [hstart, hline]
  exact line_past_split hcells

/-- So does a call that is refused. -/
theorem Rules.line_of_refused : ∀ r ∈ rules.refused text,
    r.start ≤ text.length ∧ r.line = lineNumber text r.start := by
  intro r hr
  obtain ⟨a, c, b, hcells, hstart, hline, -⟩ := (find_run (Rules.dotted_target h)
    (.ofString rules.keyword) text).called_of_refused r hr
  rw [hstart, hline]
  exact line_past_split hcells

end

/-- The sweep of a script skips the refused calls, each with its line and reason. -/
theorem skipped_sweepScript (rules : Rules) (text : Bytes) : (sweepScript rules text).skipped =
    (rules.refused text).map fun r => ⟨r.line, r.reason⟩ := by
  unfold sweepScript Rules.refused
  dsimp only
  split <;> rfl

namespace Component

/-! ## What is reported of a body -/

/-- The edit that sweeps a body of a component. -/
def bodyEdit (rules : Rules) (text : Bytes) (body : Span) : Edit :=
  ⟨body.start, body.stop, (sweepScript rules (Bytes.slice text body)).text⟩

/-- The changes to the calls in a body, each with the line of the call in the component. -/
def bodyChanges (rules : Rules) (text : Bytes) (body : Span) : List Change :=
  (rules.sites (Bytes.slice text body)).map fun site =>
    { siteChange site with line := lineNumber text (body.start + site.start) }

/-- The calls in a body that are left alone, each with its line in the component. -/
def bodySkips (rules : Rules) (text : Bytes) (body : Span) : List Skip :=
  (rules.refused (Bytes.slice text body)).map fun r =>
    ⟨lineNumber text (body.start + r.start), r.reason⟩

section
variable {rules : Rules} (h : rules.fault? = none)
include h

/-- The outcome of sweeping a body, with lines of the component around it. -/
theorem shifted_sweepScript (a c : Bytes) {body : Bytes} (hbody : Aligned body) :
    shifted (a.count Byte.newline) (sweepScript rules body) =
      { sweepScript rules body with
        changes := bodyChanges rules (a ++ body ++ c) ⟨a.length, a.length + body.length⟩
        skipped := bodySkips rules (a ++ body ++ c) ⟨a.length, a.length + body.length⟩ } := by
  obtain ⟨_, -, -, -, hchanges, -⟩ := sweepScript_weave h hbody
  have hlines : (sweepScript rules body).changes.map
      (fun change => { change with line := change.line + a.count Byte.newline }) =
        bodyChanges rules (a ++ body ++ c) ⟨a.length, a.length + body.length⟩ := by
    rw [bodyChanges, slice_middle, hchanges, List.map_map]
    refine List.map_congr_left fun site hsite => ?_
    obtain ⟨hstart, hline⟩ := Rules.line_of_site h body site hsite
    have hreported : (siteChange site).line = site.line := by
      unfold siteChange
      split <;> rfl
    simp only [Function.comp_apply, hreported, hline, lineNumber_middle a body c hstart]
  have hskips : (sweepScript rules body).skipped.map
      (fun skip => { skip with line := skip.line + a.count Byte.newline }) =
        bodySkips rules (a ++ body ++ c) ⟨a.length, a.length + body.length⟩ := by
    rw [bodySkips, slice_middle, skipped_sweepScript, List.map_map]
    refine List.map_congr_left fun r hr => ?_
    obtain ⟨hstart, hline⟩ := Rules.line_of_refused h body r hr
    simp only [Function.comp_apply, hline, lineNumber_middle a body c hstart]
  rw [shifted, hlines, hskips]

/-! ## Body by body -/

/-- A sweep of a component sweeps every body where it stands. The induction is on the parts: in
front of them stands `front`, which gives the offset and the line that they begin at. -/
theorem sweepBodies_eq (front rest : Bytes) {parts : List Part}
    (halign : ∀ p ∈ parts, Aligned p.body) {text : Bytes}
    (htext : text = front ++ joined parts ++ rest) :
    sweepBodies rules front.length (1 + front.count Byte.newline) (joined parts ++ rest)
        (spans front.length parts) =
      { text := Edit.splice front.length (joined parts ++ rest)
          ((spans front.length parts).map (bodyEdit rules text))
        deleted := ((spans front.length parts).map fun body =>
          (sweepScript rules (Bytes.slice text body)).deleted).sum
        redirected := ((spans front.length parts).map fun body =>
          (sweepScript rules (Bytes.slice text body)).redirected).sum
        changes := (spans front.length parts).flatMap (bodyChanges rules text)
        skipped := (spans front.length parts).flatMap (bodySkips rules text) } := by
  induction parts generalizing front with
  | nil => rfl
  | cons p parts ih =>
    obtain ⟨hfirst, hothers⟩ := List.forall_mem_cons.1 halign
    have hsplit : text = front ++ p.markup ++ p.body ++ (joined parts ++ rest) := by
      rw [htext, joined_cons]
      simp
    have hline : 1 + front.count Byte.newline + p.markup.count Byte.newline - 1 =
        (front ++ p.markup).count Byte.newline := by
      rw [List.count_append]
      omega
    have hnext : 1 + front.count Byte.newline + p.markup.count Byte.newline +
        p.body.count Byte.newline = 1 + (front ++ p.markup ++ p.body).count Byte.newline := by
      simp only [List.count_append]
      omega
    have hrest := ih (front ++ p.markup ++ p.body) hothers (by rw [hsplit]; simp)
    have hbody := shifted_sweepScript h (front ++ p.markup) (joined parts ++ rest) hfirst
    have hslice := slice_middle (front ++ p.markup) p.body (joined parts ++ rest)
    rw [← hsplit] at hbody hslice
    have htake : (joined (p :: parts) ++ rest).take
        (front.length + p.markup.length - front.length) = p.markup := by
      rw [joined_cons, Nat.add_sub_cancel_left, List.append_assoc, List.append_assoc,
        List.take_left]
    have hdrop : (joined (p :: parts) ++ rest).drop
        (front.length + p.markup.length + p.body.length - front.length) = joined parts ++ rest := by
      rw [joined_cons, Nat.add_assoc, Nat.add_sub_cancel_left, ← List.length_append,
        List.append_assoc, List.drop_left]
    simp only [List.length_append] at hrest hbody hslice
    rw [sweepBodies_cons, hline, hnext, hbody, hrest, spans]
    simp only [append, List.map_cons, List.flatMap_cons, List.sum_cons, Edit.splice, bodyEdit,
      hslice, htake, hdrop, Nat.zero_add, List.nil_append, List.append_assoc]

end

/-- Bodies come one behind the other, inside the text. -/
theorem spans_ordered (offset : Nat) (parts : List Part) :
    (spans offset parts).Pairwise (fun a b => a.stop ≤ b.start) ∧
    ∀ body ∈ spans offset parts, offset ≤ body.start ∧ body.start ≤ body.stop ∧
      body.stop ≤ offset + (joined parts).length := by
  induction parts generalizing offset with
  | nil => exact ⟨.nil, by simp [spans]⟩
  | cons p parts ih =>
    obtain ⟨hordered, hbounds⟩ := ih (offset + p.markup.length + p.body.length)
    refine ⟨List.pairwise_cons.2 ⟨fun body hbody => (hbounds body hbody).1, hordered⟩,
      List.forall_mem_cons.2 ⟨⟨by simp, by simp, ?_⟩, fun body hbody => ?_⟩⟩
    · simp only [joined_cons, List.length_append]
      omega
    · obtain ⟨hstart, hle, hstop⟩ := hbounds body hbody
      simp only [joined_cons, List.length_append]
      omega

/-- A sweep of a component keeps its structure. The script bodies come one behind the other, and
each is swept where it stands; nothing else is touched, and the swept bodies are the bodies of the
swept component. What the bodies count is added up, and every call is reported with its line in the
component. -/
theorem sweep_eq_of_bodies (rules : Rules) (h : rules.fault? = none) (source : String) :
    (bodies (.ofString source)).Pairwise (fun a b => a.stop ≤ b.start) ∧
    (∀ body ∈ bodies (.ofString source),
      body.start ≤ body.stop ∧ body.stop ≤ (Bytes.ofString source).length) ∧
    sweep rules (.ofString source) =
      { text := Edit.splice 0 (.ofString source)
          ((bodies (.ofString source)).map (bodyEdit rules (.ofString source)))
        deleted := ((bodies (.ofString source)).map fun body =>
          (sweepScript rules (Bytes.slice (.ofString source) body)).deleted).sum
        redirected := ((bodies (.ofString source)).map fun body =>
          (sweepScript rules (Bytes.slice (.ofString source) body)).redirected).sum
        changes := (bodies (.ofString source)).flatMap (bodyChanges rules (.ofString source))
        skipped := (bodies (.ofString source)).flatMap (bodySkips rules (.ofString source)) } ∧
    (bodies (sweep rules (.ofString source)).text).map
        (Bytes.slice (sweep rules (.ofString source)).text) =
      (bodies (.ofString source)).map fun body =>
        (sweepScript rules (Bytes.slice (.ofString source) body)).text := by
  have htext := aligned_ofString source
  obtain ⟨parts, rest, helements⟩ := exists_elements [] (.ofString source)
  have hcells : Bytes.ofString source = [] ++ joined parts ++ rest := by
    simpa using helements.text_eq
  obtain ⟨hordered, hbounds⟩ := spans_ordered 0 parts
  have hscripts := helements.scripts_eq
  have hswept := (helements.swept h htext).scripts_eq
  rw [scripts] at hscripts hswept
  refine ⟨?_, ?_, ?_, ?_⟩
  · rw [helements.bodies_eq]
    exact hordered
  · intro body hbody
    rw [helements.bodies_eq] at hbody
    obtain ⟨-, hle, hstop⟩ := hbounds body hbody
    rw [hcells, List.nil_append, List.length_append]
    omega
  · have hsweep := sweepBodies_eq h [] rest (helements.aligned htext) hcells
    rw [helements.sweep_eq, helements.bodies_eq]
    refine hsweep.trans ?_
    rw [hcells]
    rfl
  · have hsweep := congrArg (List.map fun body => (sweepScript rules body).text) hscripts
    rw [List.map_map, List.map_map] at hsweep
    rw [hswept, List.map_map]
    exact hsweep.symm

/-- Two bodies, the second of which begins on the line that the first one ends on. -/
theorem sweep_eq_of_bodies_two :
    ({} : Rules).fault? = none ∧
    bodies (.ofString "\n<script>console.log(1);\n</script><script>x=console.log(2)</script>") =
      [⟨9, 25⟩, ⟨42, 58⟩] ∧
    sweep {} (.ofString "\n<script>console.log(1);\n</script><script>x=console.log(2)</script>") =
      { text := .ofString "\n<script></script><script>x=console.log(2)</script>"
        deleted := 1
        changes := [⟨2, .deleted, none⟩]
        skipped := [⟨3, .notStatement⟩] } ∧
    (bodies (sweep {} (.ofString
        "\n<script>console.log(1);\n</script><script>x=console.log(2)</script>")).text).map
      (Bytes.slice (sweep {} (.ofString
        "\n<script>console.log(1);\n</script><script>x=console.log(2)</script>")).text) =
      [[], Bytes.ofString "x=console.log(2)"] := by
  have hrules : ({} : Rules).fault? = none := by decide +kernel
  obtain ⟨-, -, hsweep, hbodies⟩ := sweep_eq_of_bodies {} hrules
    "\n<script>console.log(1);\n</script><script>x=console.log(2)</script>"
  exact ⟨hrules, by decide +kernel, hsweep.trans (by decide +kernel),
    hbodies.trans (by decide +kernel)⟩

end Component

end LogSweep
