import LogSweep.Proofs.Checked.Script
import LogSweep.Sweep.Source

/-!
# Sweeping a source file by checked reads

In a component the tags are looked for by offset, and the bodies and the markup between them are cut
out of the text. The bodies are those of the library (`bodiesFrom?_eq`). Every cut is made behind
the end of an opening tag or in front of a closing tag, and so splits no character; a body is a
string again (`exists_script`), and the sweep of it goes through. So a text of either layout is
swept without a read that fails, to what the library makes of it.
-/

namespace LogSweep.Checked

open Component

/-- Whether a tag begins at an offset, in any case, and no longer tag name. -/
def beginsTagAt? (tag text : Bytes) (i : Nat) : Option Bool := do
  let name ← text.range? ⟨i, i + tag.length⟩
  return name.map Byte.toLower == tag &&
    text[i + tag.length]?.all fun b => b == Byte.greater || Byte.isBlank b

/-- The next place where a tag begins. -/
def tagFrom? (tag text : Bytes) (i : Nat) : Option (Option Nat) :=
  if i + tag.length ≤ text.length then do
    let begins ← beginsTagAt? tag text i
    if begins then return some i else tagFrom? tag text (i + 1)
  else some none
termination_by text.length + 1 - i

/-- The next script body. -/
def bodyFrom? (text : Bytes) (offset : Nat) : Option (Option Span) := do
  match ← tagFrom? openTag text offset with
  | none => return none
  | some opened => do
    let tag ← text.range? ⟨opened, text.length⟩
    match tag.findIdx? (· == Byte.greater) with
    | none => return none
    | some n => do
      let start := opened + n + 1
      let closed ← tagFrom? closeTag text start
      return closed.map (⟨start, ·⟩)

/-- The script bodies from an offset on, with those found so far, latest first. -/
def bodiesFrom? (text : Bytes) (offset : Nat) (found : List Span) : Option (List Span) := do
  match ← bodyFrom? text offset with
  | none => return found.reverse
  | some body =>
    let next := body.stop + closeTag.length
    if offset < next ∧ next ≤ text.length then bodiesFrom? text next (body :: found) else none
termination_by text.length - offset
decreasing_by
  rename_i h
  exact Nat.sub_lt_sub_left (Nat.lt_of_lt_of_le h.1 h.2) h.1

/-- Sweeps the given bodies of a component whose first `copied` bytes have been written. -/
def sweepBodies? (rules : Rules) (text : Bytes) (copied : Nat) : List Span → Option Outcome
  | [] => do
    let rest ← text.cut? ⟨copied, text.length⟩
    return { text := rest }
  | body :: bodies => do
    let lines ← minus? (lineNumber text body.start) 1
    let script ← text.cut? body
    let swept ← sweepScript? rules script
    let markup ← text.cut? ⟨copied, body.start⟩
    let rest ← sweepBodies? rules text body.stop bodies
    return append (append { text := markup } (shifted lines swept)) rest

/-- Sweeps a text of the given layout. -/
def sweepText? (rules : Rules) (layout : Layout) (text : Bytes) : Option Outcome :=
  match layout with
  | .script => sweepScript? rules text
  | .component => do
    let bodies ← bodiesFrom? text 0 []
    sweepBodies? rules text 0 bodies

/-! ## Tags -/

section
variable {tag name : Bytes}

/-- A text begins with a tag when the name matches in any case and ends there. -/
theorem beginsTag_eq (h : name.length = tag.length) (rest : Bytes) :
    beginsTag tag (name ++ rest) = (name.map Byte.toLower == tag &&
      rest.head?.all fun b => b == Byte.greater || Byte.isBlank b) := by
  induction tag generalizing name with
  | nil =>
    rw [List.eq_nil_of_length_eq_zero h]
    cases rest <;> rfl
  | cons t tag ih =>
    cases name with
    | nil => cases h
    | cons b name =>
      rw [List.cons_append, beginsTag, ih (Nat.succ.inj h), List.map_cons, List.cons_beq_cons,
        Bool.and_assoc, BEq.comm]

/-- The name of a tag ends before the tag does. -/
theorem greater_not_mem_name (h : name.length = tag.length) {rest : Bytes}
    (hbegins : beginsTag tag (name ++ rest) = true) (htag : Byte.greater ∉ tag) :
    Byte.greater ∉ name := by
  intro hmem
  rw [beginsTag_eq h, Bool.and_eq_true, beq_iff_eq] at hbegins
  rw [← hbegins.1] at htag
  exact htag (List.mem_map_of_mem (f := Byte.toLower) hmem)

/-- So it is read at an offset, and the reads succeed. -/
theorem beginsTagAt?_eq (h : name.length = tag.length) (front rest : Bytes) :
    beginsTagAt? tag (front ++ (name ++ rest)) front.length =
      some (beginsTag tag (name ++ rest)) := by
  have hread := Bytes.range?_middle front name rest
  have hnext : (front ++ name ++ rest)[(front ++ name).length]? = rest.head? := by
    rw [← List.head?_drop, List.drop_left]
  rw [List.length_append, h] at hread hnext
  rw [beginsTagAt?, ← List.append_assoc, hread, hnext, beginsTag_eq h]
  rfl

/-- No tag is found in a text that is shorter than its name. -/
theorem findTag?_of_length_lt {text : Bytes} (h : text.length < tag.length) (offset : Nat) :
    findTag? tag offset text = none := by
  have hshort : ∀ {text : Bytes}, text.length < tag.length → ¬ beginsTag tag text = true :=
    fun hlt hbegins => Nat.not_le.2 hlt (length_le_of_beginsTag hbegins)
  induction text generalizing offset with
  | nil => rw [findTag?, if_neg (hshort h)]
  | cons b text ih => rw [findTag?, if_neg (hshort h), ih (Nat.lt_of_succ_lt h)]

/-- A tag is found where the library finds it. The induction is on the text ahead. -/
theorem tagFrom?_eq (tag front text : Bytes) :
    tagFrom? tag (front ++ text) front.length =
      some ((findTag? tag front.length text).map (·.1)) := by
  induction text generalizing front with
  | nil =>
    cases tag with
    | nil =>
      have hread : beginsTagAt? [] (front ++ []) front.length = some (beginsTag [] []) :=
        beginsTagAt?_eq rfl front []
      rw [tagFrom?, if_pos (by simp), hread]
      rfl
    | cons t tag =>
      rw [tagFrom?, if_neg (by simp)]
      rfl
  | cons b text ih =>
    rw [tagFrom?, List.length_append]
    by_cases hle : tag.length ≤ (b :: text).length
    · have hread := @beginsTagAt?_eq tag ((b :: text).take tag.length)
        (List.length_take_of_le hle) front ((b :: text).drop tag.length)
      rw [List.take_append_drop] at hread
      have hrest := ih (front ++ [b])
      rw [← List.append_cons, List.length_append, List.length_singleton] at hrest
      rw [if_pos (Nat.add_le_add_left hle _), hread, Option.bind_eq_bind, Option.bind_some, hrest,
        findTag?]
      cases beginsTag tag (b :: text) <;> rfl
    · rw [if_neg (by omega), findTag?_of_length_lt (Nat.not_le.1 hle)]
      rfl

end

/-! ## Bodies -/

/-- The end of a tag is the first closing bracket. -/
theorem behindTag?_eq (tag : Bytes) (skipped : Nat) :
    behindTag? skipped tag =
      (tag.findIdx? (· == Byte.greater)).map fun n => (skipped + n, tag.drop (n + 1)) := by
  induction tag generalizing skipped with
  | nil => rfl
  | cons b tag ih =>
    rw [behindTag?, List.findIdx?_cons]
    split
    · rfl
    · rw [ih, Option.map_map]
      congr 1
      funext n
      simp [Nat.add_assoc, Nat.add_comm 1]

/-- The next body is found where the library finds it. -/
theorem bodyFrom?_eq (front text : Bytes) :
    bodyFrom? (front ++ text) front.length =
      some ((findTag? openTag front.length text).bind fun (opened, tag) =>
        (behindTag? (opened + openTag.length) tag).bind fun (n, script) =>
          (findTag? closeTag (n + 1) script).map fun (closed, _) => ⟨n + 1, closed⟩) := by
  rw [bodyFrom?, tagFrom?_eq]
  cases hopen : findTag? openTag front.length text with
  | none => rfl
  | some p =>
    obtain ⟨opened, tag⟩ := p
    obtain ⟨lead, name, rfl, rfl, hname, hbegins, -⟩ := (findTag?_eq_some_iff (by decide)).1 hopen
    have hread : Bytes.range? (front ++ (lead ++ (name ++ tag)))
        ⟨front.length + lead.length, (front ++ (lead ++ (name ++ tag))).length⟩ =
          some (name ++ tag) := by
      rw [← List.append_assoc, ← List.length_append, Bytes.range?_end (by simp), List.drop_left]
    have hnone : name.findIdx? (· == Byte.greater) = none := by
      rw [List.findIdx?_eq_none_iff]
      intro b hb
      rw [beq_eq_false_iff_ne]
      rintro rfl
      exact greater_not_mem_name hname hbegins (by decide) hb
    simp only [Option.map_some, Option.bind_eq_bind, Option.bind_some, hread, behindTag?_eq,
      List.findIdx?_append, hnone, Option.none_or]
    cases hindex : tag.findIdx? (· == Byte.greater) with
    | none => rfl
    | some n =>
      have hlt : n < tag.length := (List.findIdx?_eq_some_iff_getElem.1 hindex).1
      have hplace : (front ++ lead ++ name ++ tag.take (n + 1)).length =
          front.length + lead.length + openTag.length + n + 1 := by
        rw [List.length_append, List.length_take_of_le hlt, List.length_append, List.length_append,
          hname, Nat.add_assoc _ n]
      have hclose := tagFrom?_eq closeTag (front ++ lead ++ name ++ tag.take (n + 1))
        (tag.drop (n + 1))
      rw [List.append_assoc _ (tag.take _), List.take_append_drop, List.append_assoc,
        List.append_assoc, hplace] at hclose
      have hstart : front.length + lead.length + (n + name.length) + 1 =
          front.length + lead.length + openTag.length + n + 1 := by omega
      simp only [Option.map_some, Option.bind_some, hstart, hclose, Option.map_map]
      rfl

section
variable {text lead name inside body close behind : Bytes}

/-- The body of the first script element is found by checked reads. -/
theorem bodyFrom?_of_element (h : Element text lead name inside body close behind) (front : Bytes) :
    bodyFrom? (front ++ text) front.length =
      some (some ⟨(front ++ markup lead name inside).length,
        (front ++ markup lead name inside ++ body).length⟩) := by
  have hbehind : ∀ skipped, behindTag? skipped
      (inside ++ Byte.greater :: (body ++ (close ++ behind))) =
        some (skipped + inside.length, body ++ (close ++ behind)) := fun skipped =>
    behindTag?_eq_some_iff.2 ⟨inside, rfl, rfl, h.tag_end⟩
  rw [bodyFrom?_eq, h.findTag?_open]
  simp only [Option.bind_some, hbehind, h.findTag?_close, Option.map_some]
  simp [markup, h.name_length, Nat.add_assoc, Nat.add_comm 1]

/-- Where there is no script element no body is found. -/
theorem bodyFrom?_of_not_element
    (h : ∀ lead name inside body close behind, ¬ Element text lead name inside body close behind)
    (front : Bytes) : bodyFrom? (front ++ text) front.length = some none := by
  rw [bodyFrom?_eq]
  cases hopen : findTag? openTag front.length text with
  | none => rfl
  | some p =>
    cases hbehind : behindTag? (p.1 + openTag.length) p.2 with
    | none => simp [hbehind]
    | some q =>
      cases hclose : findTag? closeTag (q.1 + 1) q.2 with
      | none => simp [hbehind, hclose]
      | some r =>
        obtain ⟨lead, name, inside, body, close, helement⟩ := exists_element hopen hbehind hclose
        exact absurd helement (h lead name inside body close r.2)

end

/-- The bodies are found where the library finds them. The induction is on the elements of the text
ahead. -/
theorem bodiesFrom?_eq {held text rest : Bytes} {parts : List Part}
    (h : Elements held text parts rest) (front : Bytes) (found : List Span) :
    bodiesFrom? (front ++ text) front.length found =
      some (bodiesFrom front.length found text) := by
  induction h generalizing front found with
  | done hnone =>
    rw [bodiesFrom_of_not_element hnone, bodiesFrom?, bodyFrom?_of_not_element hnone]
    rfl
  | @element held text lead name inside body close behind rest parts helement _ ih =>
    have hnext : (front ++ markup lead name inside ++ body).length + closeTag.length =
        (front ++ markup lead name inside ++ body ++ close).length := by
      rw [← helement.close_length, ← List.length_append]
    have htext : front ++ text = front ++ markup lead name inside ++ body ++ close ++ behind := by
      rw [helement.text_eq]
      simp [markup]
    have hmoves : front.length < (front ++ markup lead name inside ++ body ++ close).length ∧
        (front ++ markup lead name inside ++ body ++ close).length ≤ (front ++ text).length := by
      rw [htext]
      simp only [markup, List.length_append, List.length_singleton]
      omega
    have hmore := ih (front ++ markup lead name inside ++ body ++ close)
      (⟨(front ++ markup lead name inside).length,
        (front ++ markup lead name inside ++ body).length⟩ :: found)
    rw [bodiesFrom?, bodyFrom?_of_element helement, helement.bodiesFrom_eq]
    simp only [Option.bind_eq_bind, Option.bind_some, hnext]
    rw [if_pos hmoves, htext, hmore]
    simp

/-! ## Sweeping -/

/-- A closing tag begins with an angle bracket. -/
theorem exists_less_of_closes {close behind : Bytes} (hlen : close.length = closeTag.length)
    (h : beginsTag closeTag (close ++ behind) = true) : ∃ rest, close = Byte.less :: rest := by
  cases close with
  | nil => cases hlen
  | cons b rest =>
    refine ⟨rest, congrArg (· :: rest) (Decidable.byContradiction fun hne => ?_)⟩
    rw [List.cons_append, beginsTag_closeTag_of_ne hne] at h
    cases h

/-- A tag ends in front of a body and one begins behind it. So the cuts there split no character,
and the body is a string. -/
theorem exists_script {source : String} {front body behind : Bytes}
    (hsource : Bytes.ofString source = front ++ body ++ Byte.less :: behind)
    (hfront : front.getLast? = some Byte.greater) :
    Bytes.isBoundary (Bytes.ofString source).toArray front.length = true ∧
      Bytes.isBoundary (Bytes.ofString source).toArray (front ++ body).length = true ∧
      ∃ script, body = Bytes.ofString script := by
  have hstart : Bytes.isBoundary (Bytes.ofString source).toArray front.length = true := by
    have halign := aligned_ofString source
    rw [hsource, List.append_assoc] at halign ⊢
    refine halign.isBoundary fun x hx => ?_
    cases hfront.symm.trans hx
    decide
  have hstop : Bytes.isBoundary (Bytes.ofString source).toArray (front ++ body).length = true := by
    rw [hsource]
    exact Bytes.isBoundary_before _ _ rfl
  exact ⟨hstart, hstop, exists_ofString_slice (hsource.trans (List.append_assoc ..)) hstart hstop⟩

/-- The bodies of a component are swept as the library sweeps them. The induction is on the
elements; in front of them stands `front`, which has been written. -/
theorem sweepBodies?_eq {rules : Rules} (hrules : rules.fault? = none) {source : String}
    {held text rest : Bytes} {parts : List Part} (h : Elements held text parts rest)
    {front : Bytes} (hsource : Bytes.ofString source = front ++ (held ++ text))
    (hfront : Bytes.isBoundary (Bytes.ofString source).toArray front.length = true) :
    sweepBodies? rules (.ofString source) front.length (spans front.length parts) =
      some (sweepBodies rules front.length (1 + front.count Byte.newline) (joined parts ++ rest)
        (spans front.length parts)) := by
  induction h generalizing front with
  | @done held text _ =>
    rw [spans, sweepBodies?, Bytes.cut?_eq_range? hfront (Bytes.isBoundary_length _),
      Bytes.range?_end (by rw [hsource]; simp), hsource, List.drop_left]
    rfl
  | @element held text lead name inside body close behind rest parts helement _ ih =>
    obtain ⟨m, hm⟩ : ∃ m, m = held ++ markup lead name inside := ⟨_, rfl⟩
    have hsplit : Bytes.ofString source = front ++ m ++ body ++ (close ++ behind) := by
      rw [hsource, helement.text_eq, hm]
      simp [markup]
    obtain ⟨hstart, hstop, script, rfl⟩ : _ ∧ _ ∧ ∃ script, body = Bytes.ofString script := by
      obtain ⟨tail, rfl⟩ := exists_less_of_closes helement.close_length helement.closes
      refine exists_script hsplit ?_
      rw [hm, markup, List.getLast?_append, List.getLast?_append]
      simp
    have hbody : (Bytes.ofString source).cut?
        ⟨(front ++ m).length, (front ++ m ++ Bytes.ofString script).length⟩ =
          some (Bytes.ofString script) := by
      rw [Bytes.cut?_eq_range? hstart hstop, hsplit, Bytes.range?_middle]
    have hkept : (Bytes.ofString source).cut? ⟨front.length, (front ++ m).length⟩ = some m := by
      rw [Bytes.cut?_eq_range? hfront hstart, hsplit, List.append_assoc (front ++ m),
        Bytes.range?_middle]
    have hline : minus? (lineNumber (.ofString source) (front ++ m).length) 1 =
        some (1 + front.count Byte.newline + m.count Byte.newline - 1) := by
      rw [lineNumber, minus?_eq (Nat.le_add_right ..), hsplit, List.append_assoc (front ++ m),
        List.take_left, List.count_append, Nat.add_assoc]
    have hcount : 1 + front.count Byte.newline + m.count Byte.newline +
        (Bytes.ofString script).count Byte.newline =
          1 + (front ++ m ++ Bytes.ofString script).count Byte.newline := by
      simp only [List.count_append, Nat.add_assoc]
    have hmore := ih hsplit hstop
    rw [← hm, sweepBodies_cons, spans]
    simp only [← List.length_append, hcount]
    rw [sweepBodies?, hline, hbody, hkept, hmore]
    simp only [Option.bind_eq_bind, Option.bind_some, sweepScript?_eq hrules]
    rfl

/-- When rules that have been checked sweep a text of either layout, every byte and every range that
is read lies in the text, every piece that is cut out begins and ends between characters, and no
number is taken from a smaller one, be it a depth, a line or a count of changes. The outcome is that
of the library. -/
theorem sweepText?_eq (rules : Rules) (h : rules.fault? = none) (layout : Layout)
    (source : String) :
    sweepText? rules layout (.ofString source) =
      some (sweepText rules layout (.ofString source)) := by
  cases layout with
  | script => exact sweepScript?_eq h source
  | component =>
    obtain ⟨parts, rest, helements⟩ := exists_elements [] (.ofString source)
    have hbodies : bodiesFrom? (.ofString source) 0 [] = some (bodies (.ofString source)) :=
      bodiesFrom?_eq helements [] []
    rw [sweepText?, sweepText, helements.sweep_eq, hbodies, helements.bodies_eq]
    exact @sweepBodies?_eq rules h source [] (.ofString source) rest parts helements [] rfl
      (isBoundary_zero source.toList)

/-- A handler whose parameter is not ASCII, a call that does not start its line, and a comment that
goes on to the end of the body. -/
theorem sweepText?_eq_handler :
    ({} : Rules).fault? = none ∧
    sweepText? {} .component
        (.ofString "é<script>catch(é)\x7bf();console.log('ü')\x7d/*</script>") =
      some
        { text := .ofString "é<script>catch(é)\x7bf();\n console.error('ü')\x7d/*</script>"
          redirected := 1
          changes := [⟨1, .redirected, some (.ofString "é")⟩] } := by
  have hrules : ({} : Rules).fault? = none := by decide +kernel
  have hsweep := sweepText?_eq {} hrules .component
    "é<script>catch(é)\x7bf();console.log('ü')\x7d/*</script>"
  exact ⟨hrules, hsweep.trans (by decide +kernel)⟩

end LogSweep.Checked
