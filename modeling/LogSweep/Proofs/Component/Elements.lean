import LogSweep.Proofs.Lexical.Regions
import LogSweep.Sweep.Component
import Mathlib.Tactic.ByContra

/-!
# Script elements

The first script element of a text is found by its tags (`Element`), and none of the conditions on
the markup around the body looks into the body. So a component is markup and bodies in turn
(`Elements`), and stays so when every body is replaced by one in which no closing tag begins
(`Elements.map`). The bodies are found where they stand (`bodies_eq`), and a sweep of the component
is a sweep of each (`text_sweepBodies`).
-/

namespace LogSweep.Component

/-! ## Tags -/

/-- A text that begins with a tag is at least as long. -/
theorem length_le_of_beginsTag {tag text : Bytes} (h : beginsTag tag text = true) :
    tag.length ≤ text.length := by
  induction tag generalizing text with
  | nil => exact Nat.zero_le _
  | cons t tag ih =>
    cases text with
    | nil => cases h
    | cons b text =>
      rw [beginsTag, Bool.and_eq_true] at h
      exact Nat.succ_le_succ (ih h.2)

/-- A text that is longer than a tag shows whether it begins with the tag. -/
theorem beginsTag_append {tag text : Bytes} (h : tag.length < text.length) (rest : Bytes) :
    beginsTag tag (text ++ rest) = beginsTag tag text := by
  induction tag generalizing text with
  | nil =>
    cases text with
    | nil => cases h
    | cons b text => rfl
  | cons t tag ih =>
    cases text with
    | nil => cases h
    | cons b text => rw [List.cons_append, beginsTag, beginsTag, ih (Nat.lt_of_succ_lt_succ h)]

/-- Of what follows a tag's name only the first byte matters. -/
theorem beginsTag_name {tag name x y : Bytes} (hname : name.length = tag.length)
    (hhead : x.head? = y.head?) : beginsTag tag (name ++ x) = beginsTag tag (name ++ y) := by
  induction tag generalizing name with
  | nil =>
    rw [List.eq_nil_of_length_eq_zero hname]
    cases x <;> cases y <;> simp_all [beginsTag]
  | cons t tag ih =>
    cases name with
    | nil => cases hname
    | cons b name =>
      rw [List.cons_append, List.cons_append, beginsTag, beginsTag, ih (Nat.succ.inj hname)]

/-- Behind a byte that is none of a tag's, what follows has no part in the tag. -/
theorem beginsTag_blind {tag : Bytes} {z : UInt8} (hz : Byte.toLower z ∉ tag) (a x y : Bytes) :
    beginsTag tag (a ++ z :: x) = beginsTag tag (a ++ z :: y) := by
  induction a generalizing tag with
  | nil =>
    cases tag with
    | nil => rfl
    | cons t tag =>
      have ht : (t == Byte.toLower z) = false := by
        rw [beq_eq_false_iff_ne]
        rintro rfl
        exact hz List.mem_cons_self
      simp [beginsTag, ht]
  | cons b a ih =>
    cases tag with
    | nil => rfl
    | cons t tag =>
      rw [List.cons_append, List.cons_append, beginsTag, beginsTag,
        ih fun hmem => hz (List.mem_cons_of_mem _ hmem)]

/-- The tag begins nowhere in `lead`, behind which stands `after`. -/
def NoTag (tag lead after : Bytes) : Prop :=
  ∀ a b rest, lead = a ++ b :: rest → beginsTag tag (b :: rest ++ after) = false

section
variable {tag a b lead after text rest : Bytes} {c : UInt8}

theorem NoTag.nil : NoTag tag [] after := by
  intro a b rest h
  cases a <;> cases h

/-- A tag begins in neither of two stretches, with the second behind the first. -/
theorem noTag_append_iff :
    NoTag tag (a ++ b) after ↔ NoTag tag a (b ++ after) ∧ NoTag tag b after := by
  constructor
  · intro h
    constructor
    · rintro a' x rest rfl
      simpa using h a' x (rest ++ b) (by simp)
    · rintro b' x rest rfl
      exact h (a ++ b') x rest (by simp)
  · rintro ⟨ha, hb⟩ p x rest h
    rcases List.append_eq_append_iff.1 h with ⟨d, rfl, hd⟩ | ⟨d, rfl, hd⟩
    · exact hb d x rest hd
    · cases d with
      | nil => exact hb [] x rest hd.symm
      | cons y d =>
        obtain ⟨rfl, rfl⟩ := List.cons.inj hd
        simpa using ha p x d rfl

/-- Before one byte there is one place to begin. -/
theorem noTag_singleton_iff : NoTag tag [c] after ↔ beginsTag tag (c :: after) = false := by
  constructor
  · intro h
    exact h [] c [] rfl
  · intro h a b rest heq
    rcases a with _ | ⟨x, a⟩
    · obtain ⟨rfl, rfl⟩ := List.cons.inj heq
      exact h
    · simp at heq

/-- Whether a tag begins before a tag's name shows in the name. -/
theorem noTag_name_iff {name : Bytes} (hname : name.length = tag.length) :
    NoTag tag lead (name ++ after) ↔ NoTag tag lead name := by
  refine forall_congr' fun a => forall_congr' fun b => forall_congr' fun rest => ?_
  have hlen : tag.length < (b :: rest ++ name).length := by
    simp only [List.length_append, List.length_cons]
    omega
  rw [← List.append_assoc, beginsTag_append hlen]

/-- The search finds the first place where the tag begins, and what comes behind its name. -/
theorem findTag?_eq_some_iff (htag : tag ≠ []) {offset n : Nat} :
    findTag? tag offset text = some (n, rest) ↔
      ∃ lead name, text = lead ++ (name ++ rest) ∧ n = offset + lead.length ∧
        name.length = tag.length ∧ beginsTag tag (name ++ rest) = true ∧
        NoTag tag lead (name ++ rest) := by
  induction text generalizing offset with
  | nil =>
    have hnil : beginsTag tag [] = false := by
      cases tag with
      | nil => exact absurd rfl htag
      | cons t tag => rfl
    simp only [findTag?, hnil, Bool.false_eq_true, if_false]
    refine iff_of_false (by simp) ?_
    rintro ⟨lead, name, htext, -, hlen, -⟩
    have hname : name = [] := by
      have := congrArg List.length htext
      exact List.eq_nil_of_length_eq_zero (by simp at this; omega)
    rw [hname] at hlen
    exact htag (List.eq_nil_of_length_eq_zero hlen.symm)
  | cons c text ih =>
    rw [findTag?]
    by_cases hc : beginsTag tag (c :: text) = true
    · rw [if_pos hc]
      constructor
      · rintro ⟨⟩
        exact ⟨[], (c :: text).take tag.length, by simp, rfl,
          by rw [List.length_take, Nat.min_eq_left (length_le_of_beginsTag hc)],
          by rwa [List.take_append_drop], .nil⟩
      · rintro ⟨lead, name, htext, rfl, hlen, -, hlead⟩
        cases lead with
        | nil => rw [htext, ← hlen]; simp
        | cons x lead =>
          have := hlead [] x lead rfl
          rw [List.cons_append, ← List.cons_append, ← htext, hc] at this
          cases this
    · rw [if_neg hc, ih]
      constructor
      · rintro ⟨lead, name, rfl, rfl, hlen, hbegins, hlead⟩
        refine ⟨c :: lead, name, rfl, by rw [List.length_cons]; omega, hlen, hbegins, ?_⟩
        refine (noTag_append_iff (a := [c])).2 ⟨noTag_singleton_iff.2 ?_, hlead⟩
        simpa using hc
      · rintro ⟨lead, name, htext, rfl, hlen, hbegins, hlead⟩
        cases lead with
        | nil => rw [htext] at hc; exact absurd hbegins hc
        | cons x lead =>
          obtain ⟨rfl, rfl⟩ := List.cons.inj htext
          exact ⟨lead, name, rfl, by rw [List.length_cons]; omega, hlen, hbegins,
            ((noTag_append_iff (a := [c])).1 hlead).2⟩

/-- A tag ends at its first closing bracket. -/
theorem behindTag?_eq_some_iff {skipped n : Nat} :
    behindTag? skipped text = some (n, rest) ↔
      ∃ inside, text = inside ++ Byte.greater :: rest ∧ n = skipped + inside.length ∧
        Byte.greater ∉ inside := by
  induction text generalizing skipped with
  | nil => simp [behindTag?]
  | cons c text ih =>
    rw [behindTag?]
    by_cases hc : c = Byte.greater
    · rw [if_pos (by simpa using hc)]
      constructor
      · rintro ⟨⟩
        exact ⟨[], by simp [hc], rfl, by simp⟩
      · rintro ⟨inside, htext, rfl, hinside⟩
        cases inside with
        | nil => simp at htext; simp [htext]
        | cons x inside =>
          obtain ⟨rfl, -⟩ := List.cons.inj htext
          exact absurd (by simp [hc]) hinside
    · rw [if_neg (by simpa using hc), ih]
      constructor
      · rintro ⟨inside, rfl, rfl, hinside⟩
        exact ⟨c :: inside, rfl, by rw [List.length_cons]; omega, by simp [hinside, Ne.symm hc]⟩
      · rintro ⟨inside, htext, rfl, hinside⟩
        cases inside with
        | nil => exact absurd (List.cons.inj htext).1 hc
        | cons x inside =>
          obtain ⟨rfl, rfl⟩ := List.cons.inj htext
          exact ⟨inside, rfl, by rw [List.length_cons]; omega,
            fun hmem => hinside (List.mem_cons_of_mem _ hmem)⟩

end

/-! ## The elements of a component -/

/-- The first script element of a text: an opening tag behind `lead`, the body, the name of the
closing tag, and what follows it. -/
structure Element (text lead name inside body close behind : Bytes) : Prop where
  text_eq : text =
    lead ++ (name ++ (inside ++ Byte.greater :: (body ++ (close ++ behind))))
  name_length : name.length = openTag.length
  opens : beginsTag openTag (name ++ (inside ++ [Byte.greater])) = true
  outside : NoTag openTag lead name
  tag_end : Byte.greater ∉ inside
  close_length : close.length = closeTag.length
  closes : beginsTag closeTag (close ++ behind) = true
  within : NoTag closeTag body close

/-- The markup in front of an element's body. -/
def markup (lead name inside : Bytes) : Bytes :=
  lead ++ name ++ inside ++ [Byte.greater]

section
variable {text lead name inside body close behind : Bytes}

/-- Whether a tag opens is seen up to its closing bracket. -/
theorem opens_iff : beginsTag openTag (name ++ (inside ++ Byte.greater :: body)) = true ↔
    beginsTag openTag (name ++ (inside ++ [Byte.greater])) = true := by
  rw [← List.append_assoc, ← List.append_assoc,
    beginsTag_blind (by decide) (name ++ inside) body []]

/-- The opening tag of an element is the first one. -/
theorem Element.findTag?_open (h : Element text lead name inside body close behind)
    (offset : Nat) : findTag? openTag offset text =
      some (offset + lead.length, inside ++ Byte.greater :: (body ++ (close ++ behind))) :=
  (findTag?_eq_some_iff (by decide)).2 ⟨lead, name, h.text_eq, rfl, h.name_length,
    opens_iff.2 h.opens, (noTag_name_iff h.name_length).2 h.outside⟩

/-- The closing tag of an element is the first one behind its body. -/
theorem Element.findTag?_close (h : Element text lead name inside body close behind)
    (offset : Nat) : findTag? closeTag offset (body ++ (close ++ behind)) =
      some (offset + body.length, behind) :=
  (findTag?_eq_some_iff (by decide)).2 ⟨body, close, rfl, rfl, h.close_length, h.closes,
    (noTag_name_iff h.close_length).2 h.within⟩

/-- The search goes on behind an element. -/
theorem Element.bodiesFrom_eq (h : Element text lead name inside body close behind) (offset : Nat)
    (found : List Span) :
    bodiesFrom offset found text =
      bodiesFrom (offset + (markup lead name inside ++ body ++ close).length)
        (⟨offset + (markup lead name inside).length,
          offset + (markup lead name inside ++ body).length⟩ :: found) behind := by
  have hopen := h.findTag?_open offset
  have hbehind : behindTag? 0 (inside ++ Byte.greater :: (body ++ (close ++ behind))) =
      some (inside.length, body ++ (close ++ behind)) :=
    behindTag?_eq_some_iff.2 ⟨inside, rfl, (Nat.zero_add _).symm, h.tag_end⟩
  have hclose := h.findTag?_close
  rw [bodiesFrom]
  split
  · next hnone => rw [hopen] at hnone; cases hnone
  next opened inTag hsome =>
  cases hopen.symm.trans hsome
  split
  · next hnone => rw [hbehind] at hnone; cases hnone
  next n rest hsome =>
  cases hbehind.symm.trans hsome
  dsimp only
  split
  · next hnone => rw [hclose] at hnone; cases hnone
  next closed rest hsome =>
  cases (hclose _).symm.trans hsome
  have hname := h.name_length
  have hlen := h.close_length
  simp only [markup, List.length_append, List.length_singleton, hname, hlen]
  congr 1
  · omega
  · congr 2
    · omega
    · omega

/-- The tags that are found are those of the first element. -/
theorem exists_element {offset opened skipped n start closed : Nat} {tag script : Bytes}
    (hopen : findTag? openTag offset text = some (opened, tag))
    (hbehind : behindTag? skipped tag = some (n, script))
    (hclose : findTag? closeTag start script = some (closed, behind)) :
    ∃ lead name inside body close, Element text lead name inside body close behind := by
  obtain ⟨lead, name, rfl, -, hname, hbegins, hlead⟩ := (findTag?_eq_some_iff (by decide)).1 hopen
  obtain ⟨inside, rfl, -, hinside⟩ := behindTag?_eq_some_iff.1 hbehind
  obtain ⟨body, close, rfl, -, hlen, hcloses, hbody⟩ := (findTag?_eq_some_iff (by decide)).1 hclose
  exact ⟨lead, name, inside, body, close, rfl, hname, opens_iff.1 hbegins,
    (noTag_name_iff hname).1 hlead, hinside, hlen, hcloses, (noTag_name_iff hlen).1 hbody⟩

/-- Without an element the search ends. -/
theorem bodiesFrom_of_not_element
    (h : ∀ lead name inside body close behind, ¬ Element text lead name inside body close behind)
    (offset : Nat) (found : List Span) : bodiesFrom offset found text = found.reverse := by
  rw [bodiesFrom]
  split
  · rfl
  · next opened inTag hopen =>
    split
    · rfl
    · next n body hbehind =>
      dsimp only
      split
      · rfl
      · next closed behind hclose =>
        obtain ⟨lead, name, inside, body, close, helement⟩ := exists_element hopen hbehind hclose
        exact absurd helement (h lead name inside body close behind)

end

/-- A stretch of markup and the script body behind it. -/
structure Part where
  markup : Bytes
  body : Bytes

/-- The text of parts. -/
def joined (parts : List Part) : Bytes :=
  parts.flatMap fun p => p.markup ++ p.body

/-- A text as parts, one for each element, and what follows the last body. In front of the text
stands `held`, the name of the closing tag before. -/
inductive Elements : Bytes → Bytes → List Part → Bytes → Prop
  | done {held text : Bytes}
      (h : ∀ lead name inside body close behind,
        ¬ Element text lead name inside body close behind) :
      Elements held text [] (held ++ text)
  | element {held text lead name inside body close behind rest : Bytes} {parts : List Part}
      (h : Element text lead name inside body close behind)
      (hrest : Elements close behind parts rest) :
      Elements held text (⟨held ++ markup lead name inside, body⟩ :: parts) rest

/-- Every text is a row of elements and a rest. -/
theorem exists_elements (held text : Bytes) : ∃ parts rest, Elements held text parts rest := by
  induction hlen : text.length using Nat.strongRecOn generalizing held text with
  | ind n ih =>
  subst hlen
  by_cases h : ∃ lead name inside body close behind, Element text lead name inside body close behind
  · obtain ⟨lead, name, inside, body, close, behind, h⟩ := h
    have hlt : behind.length < text.length := by
      rw [h.text_eq]
      simp only [List.length_append, List.length_cons]
      omega
    obtain ⟨parts, rest, hrest⟩ := ih behind.length hlt close behind rfl
    exact ⟨_, rest, .element h hrest⟩
  · exact ⟨[], _, .done (by simpa using h)⟩

section
variable {held text rest : Bytes} {parts : List Part}

/-- The elements and the rest make up the text. -/
theorem Elements.text_eq (h : Elements held text parts rest) :
    held ++ text = joined parts ++ rest := by
  induction h with
  | done => simp [joined]
  | element h _ ih =>
    rw [h.text_eq, joined, List.flatMap_cons, ← joined, List.append_assoc, ← ih]
    simp [markup]

/-- A body comes behind the end of a tag. -/
theorem Elements.getLast?_markup (h : Elements held text parts rest) :
    ∀ p ∈ parts, p.markup.getLast? = some Byte.greater := by
  induction h with
  | done => simp
  | element h _ ih => exact List.forall_mem_cons.2 ⟨by simp [markup], ih⟩

/-- Bodies in which no closing tag begins can take the place of the bodies. -/
theorem Elements.map (f : Bytes → Bytes) (h : Elements held text parts rest)
    (hf : ∀ p ∈ parts, ∀ close, NoTag closeTag p.body close → NoTag closeTag (f p.body) close) :
    ∃ text', Elements held text' (parts.map fun p => ⟨p.markup, f p.body⟩) rest ∧
      text'.head? = text.head? := by
  induction h with
  | @done _ text h => exact ⟨text, .done h, rfl⟩
  | @element held text lead name inside body close behind rest parts h _ ih =>
    obtain ⟨hfirst, hothers⟩ := List.forall_mem_cons.1 hf
    obtain ⟨behind', hrest, hhead⟩ := ih hothers
    have hcloses : beginsTag closeTag (close ++ behind') = true := by
      rw [beginsTag_name h.close_length hhead]
      exact h.closes
    have helement : Element (lead ++ (name ++ (inside ++ Byte.greater ::
        (f body ++ (close ++ behind'))))) lead name inside (f body) close behind' :=
      ⟨rfl, h.name_length, h.opens, h.outside, h.tag_end, h.close_length, hcloses,
        hfirst close h.within⟩
    refine ⟨_, .element helement hrest, ?_⟩
    -- the text begins with `lead` and the tag
    obtain ⟨b, bytes, hb⟩ : ∃ b bytes, lead ++ name = b :: bytes := by
      refine List.exists_cons_of_length_pos ?_
      rw [List.length_append, h.name_length]
      exact Nat.lt_add_left _ (by decide)
    rw [h.text_eq, ← List.append_assoc, hb, ← List.append_assoc lead, hb]
    rfl

/-- Where the bodies of parts are, when the parts start at an offset. -/
def spans (offset : Nat) : List Part → List Span
  | [] => []
  | p :: parts =>
    ⟨offset + p.markup.length, offset + p.markup.length + p.body.length⟩ ::
      spans (offset + p.markup.length + p.body.length) parts

/-- The bodies that are found are those of the elements. -/
theorem Elements.bodiesFrom_eq (h : Elements held text parts rest) (offset : Nat)
    (found : List Span) :
    bodiesFrom (offset + held.length) found text = found.reverse ++ spans offset parts := by
  induction h generalizing offset found with
  | done h => rw [bodiesFrom_of_not_element h]; simp [spans]
  | @element held text lead name inside body close behind rest parts h _ ih =>
    have hstart : offset + held.length + (markup lead name inside).length =
        offset + (held ++ markup lead name inside).length := by
      rw [List.length_append, Nat.add_assoc]
    have hstop : offset + held.length + (markup lead name inside ++ body).length =
        offset + (held ++ markup lead name inside).length + body.length := by
      rw [List.length_append, ← Nat.add_assoc, hstart]
    have hnext : offset + held.length + (markup lead name inside ++ body ++ close).length =
        offset + (held ++ markup lead name inside).length + body.length + close.length := by
      rw [List.length_append, ← Nat.add_assoc, hstop]
    rw [h.bodiesFrom_eq, hnext, ih, hstart, hstop]
    simp [spans]

/-- The bodies of a component are found where they stand. -/
theorem Elements.bodies_eq (h : Elements [] text parts rest) : bodies text = spans 0 parts :=
  h.bodiesFrom_eq 0 []

theorem joined_cons (p : Part) (parts : List Part) :
    joined (p :: parts) = p.markup ++ p.body ++ joined parts := rfl

/-- The spans of the parts cut out their bodies. -/
theorem map_slice_spans (front : Bytes) (parts : List Part) (rest : Bytes) :
    (spans front.length parts).map (Bytes.slice (front ++ joined parts ++ rest)) =
      parts.map (·.body) := by
  induction parts generalizing front with
  | nil => rfl
  | cons p parts ih =>
    have hbody := Lexical.slice_middle (front ++ p.markup) p.body (joined parts ++ rest)
    have hrest := ih (front ++ p.markup ++ p.body)
    simp only [List.length_append] at hbody hrest
    have htext : front ++ joined (p :: parts) ++ rest =
        front ++ p.markup ++ p.body ++ (joined parts ++ rest) := by simp [joined_cons]
    rw [spans, List.map_cons, List.map_cons, htext, hbody, ← List.append_assoc, hrest]

end

/-! ## Sweeping the bodies -/

section
variable {rules : Rules}

/-- A component is swept part by part. -/
theorem sweepBodies_cons (offset line : Nat) (p : Part) (parts : List Part) (rest : Bytes) :
    sweepBodies rules offset line (joined (p :: parts) ++ rest) (spans offset (p :: parts)) =
      append (append { text := p.markup }
          (shifted (line + p.markup.count Byte.newline - 1) (sweepScript rules p.body)))
        (sweepBodies rules (offset + p.markup.length + p.body.length)
          (line + p.markup.count Byte.newline + p.body.count Byte.newline) (joined parts ++ rest)
          (spans (offset + p.markup.length + p.body.length) parts)) := by
  have hstart : offset + p.markup.length - offset = p.markup.length := Nat.add_sub_cancel_left ..
  have hstop : offset + p.markup.length + p.body.length - offset =
      p.markup.length + p.body.length := by omega
  have htake : (p.markup ++ p.body ++ (joined parts ++ rest)).take p.markup.length = p.markup := by
    rw [List.append_assoc, List.take_left]
  have hdrop : (p.markup ++ p.body ++ (joined parts ++ rest)).drop
      (p.markup.length + p.body.length) = joined parts ++ rest := by
    rw [← List.length_append, List.drop_left]
  rw [joined_cons, List.append_assoc, spans, sweepBodies]
  simp only [hstart, hstop, htake, hdrop, Lexical.slice_middle]

/-- The text of a swept component. -/
theorem text_sweepBodies (offset line : Nat) (parts : List Part) (rest : Bytes) :
    (sweepBodies rules offset line (joined parts ++ rest) (spans offset parts)).text =
      joined (parts.map fun p => ⟨p.markup, (sweepScript rules p.body).text⟩) ++ rest := by
  induction parts generalizing offset line with
  | nil => rfl
  | cons p parts ih =>
    rw [sweepBodies_cons, append, ih, List.map_cons, joined_cons, List.append_assoc]
    rfl

/-- A sweep of a component changes something exactly when a sweep of a body does. -/
theorem isModified_sweepBodies (offset line : Nat) (parts : List Part) (rest : Bytes) :
    (sweepBodies rules offset line (joined parts ++ rest) (spans offset parts)).isModified = false ↔
      ∀ p ∈ parts, (sweepScript rules p.body).isModified = false := by
  induction parts generalizing offset line with
  | nil => exact iff_of_true rfl (by simp)
  | cons p parts ih =>
    have hnot : ∀ o : Outcome, o.isModified = false ↔ o.deleted = 0 ∧ o.redirected = 0 := by
      intro o
      simp [Outcome.isModified]
    rw [sweepBodies_cons, List.forall_mem_cons, ← ih (offset + p.markup.length + p.body.length)
      (line + p.markup.count Byte.newline + p.body.count Byte.newline)]
    simp only [hnot, append, shifted]
    omega

end

end LogSweep.Component
