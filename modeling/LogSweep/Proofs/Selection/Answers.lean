import LogSweep.Proofs.Selection.Kept
import Mathlib.Data.List.TakeWhile

/-!
# What an answer means

An answer asks for everything, or it lists numbers and ranges, all of them in the list of entries,
and asks for the entries that they denote or, behind an exclamation mark, for the others. `Says`
reads this off the text of the answer: what stands between the white space at its ends (`Trimmed`)
and the stretches between its commas and blanks (`Splits`). Every answer says one thing
(`exists_request`, `Says.unique`). `Denotes` says what a part of an answer stands for and `Bad` why
it stands for nothing, both by the shape of the part; it is always one or the other
(`denotes_or_bad`). An answer is read exactly when all its parts denote something
(`Says.read_eq_ok_iff`), and otherwise the first bad part decides (`Says.read_eq_error_iff`).
-/

namespace LogSweep.Selection

open Text

/-- A decimal numeral of at most 64 bits, with an optional plus sign. -/
def Numeral (text : List Char) (n : Nat) : Prop :=
  ∃ digits : List Char, (text = digits ∨ text = '+' :: digits) ∧ digits ≠ [] ∧
    (∀ c ∈ digits, c.isDigit = true) ∧ Nat.ofDigitChars 10 digits 0 = n ∧ n < UInt64.size

/-- The numeral of an entry of a list. -/
def Entry (count : Nat) (text : List Char) (n : Nat) : Prop :=
  Numeral text n ∧ 1 ≤ n ∧ n ≤ count

/-- A part of an answer stands for the entries from `first` to `last`: it is one number, or two that
a dash joins. -/
inductive Denotes (count : Nat) (part : List Char) : Nat → Nat → Prop
  | number {n : Nat} (h : Entry count part n) : Denotes count part n n
  | range {front back : List Char} {first last : Nat} (hpart : part = front ++ '-' :: back)
      (hfirst : Entry count front first) (hlast : Entry count back last) (hle : first ≤ last) :
      Denotes count part first last

/-- What is wrong with the number of an entry. -/
inductive BadEntry (count : Nat) (text : List Char) : Fault → Prop
  | notNumber (h : ∀ n, ¬ Numeral text n) : BadEntry count text (.notNumber (String.ofList text))
  | outOfRange {n : Nat} (h : Numeral text n) (hout : n = 0 ∨ count < n) :
      BadEntry count text (.outOfRange n count)

/-- What is wrong with a part of an answer: it is no number and no range, or the first of its
numbers that is wrong decides, or its range is reversed. The first dash makes a range. -/
inductive Bad (count : Nat) (part : List Char) : Fault → Prop
  | number {fault : Fault} (hdash : '-' ∉ part) (h : BadEntry count part fault) :
      Bad count part fault
  | first {front back : List Char} {fault : Fault} (hpart : part = front ++ '-' :: back)
      (hdash : '-' ∉ front) (h : BadEntry count front fault) : Bad count part fault
  | last {front back : List Char} {n : Nat} {fault : Fault} (hpart : part = front ++ '-' :: back)
      (hdash : '-' ∉ front) (hfirst : Entry count front n) (h : BadEntry count back fault) :
      Bad count part fault
  | reversed {front back : List Char} {first last : Nat} (hpart : part = front ++ '-' :: back)
      (hfirst : Entry count front first) (hlast : Entry count back last) (hlt : last < first) :
      Bad count part (.reversed (String.ofList part))

/-- An answer that picks everything: nothing, a star, or `all` in any case. -/
def Everything (answer : List Char) : Prop :=
  answer = [] ∨ answer = ['*'] ∨ ∃ x y z, answer = [x, y, z] ∧ (x = 'a' ∨ x = 'A') ∧
    (y = 'l' ∨ y = 'L') ∧ (z = 'l' ∨ z = 'L')

/-- `core` is what a text is without the white space at its ends. -/
def Trimmed (text core : List Char) : Prop :=
  ∃ front back, text = front ++ core ++ back ∧ (∀ c ∈ front, isBlank c = true) ∧
    (∀ c ∈ back, isBlank c = true) ∧ (∀ c, core.head? = some c → isBlank c = false) ∧
    ∀ c, core.getLast? = some c → isBlank c = false

/-- Parts are separated by commas and white space. -/
def Separates (c : Char) : Prop :=
  c = ',' ∨ isBlank c = true

/-- The parts of a text are its longest stretches without a separator, in their order. -/
inductive Splits : List Char → List (List Char) → Prop
  | gap {gap : List Char} (hgap : ∀ c ∈ gap, Separates c) : Splits gap []
  | part {gap part rest : List Char} {ps : List (List Char)} (hgap : ∀ c ∈ gap, Separates c)
      (hne : part ≠ []) (hpart : ∀ c ∈ part, ¬ Separates c)
      (hrest : ∀ c, rest.head? = some c → Separates c) (h : Splits rest ps) :
      Splits (gap ++ part ++ rest) (part :: ps)

/-- What can be asked for: everything, the entries that parts denote, or the others. -/
inductive Request where
  | everything
  | these (parts : List (List Char))
  | others (parts : List (List Char))
  deriving DecidableEq, Repr, Inhabited

/-- What an answer asks for. A mark in front of the parts asks for the others. -/
inductive Says (answer : List Char) : Request → Prop
  | everything {core : List Char} (h : Trimmed answer core) (hall : Everything core) :
      Says answer .everything
  | these {core : List Char} {ps : List (List Char)} (h : Trimmed answer core)
      (hall : ¬ Everything core) (hmark : core.head? ≠ some '!') (hparts : Splits core ps) :
      Says answer (.these ps)
  | others {body : List Char} {ps : List (List Char)} (h : Trimmed answer ('!' :: body))
      (hparts : Splits body ps) : Says answer (.others ps)

/-- The parts of a request; there are none where everything is asked for. -/
def Request.parts : Request → List (List Char)
  | .everything => []
  | .these ps | .others ps => ps

/-- Some part denotes the entry. -/
def Named (count : Nat) (ps : List (List Char)) (n : Nat) : Prop :=
  ∃ part ∈ ps, ∃ first last, Denotes count part first last ∧ first ≤ n ∧ n ≤ last

/-- The entries that a request picks. -/
def Request.Picks (count : Nat) : Request → Nat → Prop
  | .everything, _ => True
  | .these ps, n => Named count ps n
  | .others ps, n => ¬ Named count ps n

/-! ## Numbers -/

/-- In base ten the digits are the decimal ones. -/
theorem digitValue?_ten (c : Char) :
    digitValue? 10 c = if c.isDigit then some (c.toNat - '0'.toNat) else none := by
  have hdigit : c.isDigit = true ↔ 48 ≤ c.toNat ∧ c.toNat ≤ 57 := by
    simp only [Char.isDigit, Bool.and_eq_true, decide_eq_true_eq]
    exact Iff.rfl
  unfold digitValue?
  simp only [Bool.and_eq_true, decide_eq_true_eq, ← hdigit]
  by_cases hc : c.isDigit = true
  · have hlt : c.toNat - 48 < 10 := by
      have := hdigit.1 hc
      omega
    simp [hc, hlt]
  · rw [if_neg hc, if_neg hc]
    split
    · have : 10 ≤ c.toNat - 87 := by omega
      simp [this]
    · split
      · have : 10 ≤ c.toNat - 55 := by omega
        simp [this]
      · rfl

/-- The value of digits, read on from a number. -/
theorem foldl_digitValue? (digits : List Char) (value : Nat) :
    digits.foldl (fun value c => do return 10 * (← value) + (← digitValue? 10 c)) (some value) =
      if digits.all Char.isDigit then some (Nat.ofDigitChars 10 digits value) else none := by
  induction digits generalizing value with
  | nil => rfl
  | cons c digits ih =>
    rw [List.foldl_cons, digitValue?_ten, List.all_cons]
    cases hc : c.isDigit with
    | true => exact ih _
    | false =>
      have hnone : ∀ cs : List Char, cs.foldl
          (fun value c => do return 10 * (← value) + (← digitValue? 10 c)) none = none := by
        intro cs
        induction cs with
        | nil => rfl
        | cons c cs ih => exact ih
      exact hnone digits

/-- A row has a value when all of it are digits, and the value is that of the numeral. -/
theorem digitsValue?_eq_some_iff {digits : List Char} {n : Nat} :
    digitsValue? 10 digits = some n ↔
      (∀ c ∈ digits, c.isDigit = true) ∧ Nat.ofDigitChars 10 digits 0 = n := by
  rw [digitsValue?, foldl_digitValue?]
  split
  · next hall => rw [Option.some.injEq, and_iff_right (List.all_eq_true.1 hall)]
  · next hall => exact iff_of_false (fun h => by cases h) fun h => hall (List.all_eq_true.2 h.1)

/-- A row that is not empty has a value of at most 64 bits. -/
theorem value_eq_some_iff {digits : List Char} {n : Nat} :
    (if digits.isEmpty then none else (digitsValue? 10 digits).filter (· < UInt64.size)) = some n ↔
      digits ≠ [] ∧ (∀ c ∈ digits, c.isDigit = true) ∧ Nat.ofDigitChars 10 digits 0 = n ∧
        n < UInt64.size := by
  cases digits with
  | nil => simp
  | cons c digits =>
    rw [if_neg (by simp), Option.filter_eq_some_iff, digitsValue?_eq_some_iff, decide_eq_true_eq,
      and_assoc, and_iff_right (List.cons_ne_nil _ _)]

/-- A number is read exactly from its numerals. -/
theorem number?_eq_some_iff {text : List Char} {n : Nat} :
    number? text = some n ↔ Numeral text n := by
  unfold number? Numeral
  split
  · next rest =>
    rw [value_eq_some_iff]
    constructor
    · exact fun h => ⟨rest, .inr rfl, h⟩
    · rintro ⟨digits, rfl | htext, h⟩
      · exact absurd (h.2.1 '+' List.mem_cons_self) (by decide)
      · rwa [(List.cons.inj htext).2]
  · next hsign =>
    rw [value_eq_some_iff]
    constructor
    · exact fun h => ⟨text, .inl rfl, h⟩
    · rintro ⟨digits, rfl | htext, h⟩
      · exact h
      · exact absurd htext (hsign digits)

/-- There is no dash in a numeral, so the first dash of a range stands between its numbers. -/
theorem Numeral.not_mem_dash {text : List Char} {n : Nat} (h : Numeral text n) : '-' ∉ text := by
  obtain ⟨digits, htext, -, hdigits, -⟩ := h
  intro hmem
  rcases htext with rfl | rfl
  · exact absurd (hdigits '-' hmem) (by decide)
  · rcases List.mem_cons.1 hmem with hsign | hmem
    · cases hsign
    · exact absurd (hdigits '-' hmem) (by decide)

/-! ## Parts -/

/-- A text without white space. -/
def Solid (text : List Char) : Prop :=
  ∀ c ∈ text, isBlank c = false

/-- A text without white space is not trimmed. -/
theorem trim_of_solid {text : List Char} (h : Solid text) : trim text = text := by
  have hdrop : ∀ cs : List Char, (∀ c ∈ cs, isBlank c = false) → cs.dropWhile isBlank = cs := by
    intro cs hcs
    cases cs with
    | nil => rfl
    | cons c cs =>
      rw [List.dropWhile_cons_of_neg]
      rw [hcs c List.mem_cons_self]
      decide
  rw [trim, hdrop text h, hdrop text.reverse fun c hc => h c (List.mem_reverse.1 hc),
    List.reverse_reverse]

section
variable {count : Nat} {text part front back : List Char} {fault : Fault} {n : Nat}

/-- A numeral gives the place of its entry, when it has one. -/
theorem place_of_numeral (h : Solid text) (hn : Numeral text n) :
    place count text = if n = 0 ∨ count < n then .error (.outOfRange n count) else .ok (n - 1) := by
  simp only [place, trim_of_solid h, number?_eq_some_iff.2 hn, Bool.or_eq_true, beq_iff_eq,
    decide_eq_true_eq]

/-- What is no numeral is refused with its text. -/
theorem place_of_not_numeral (h : Solid text) (hn : ∀ n, ¬ Numeral text n) :
    place count text = .error (.notNumber (String.ofList text)) := by
  have hnone : number? text = none :=
    Option.eq_none_iff_forall_ne_some.2 fun n h => hn n (number?_eq_some_iff.1 h)
  simp only [place, trim_of_solid h, hnone]

/-- The place of an entry, counted from zero. -/
theorem Entry.place_eq (hsolid : Solid text) (h : Entry count text n) :
    place count text = .ok (n - 1) := by
  obtain ⟨hn, hpos, hle⟩ := h
  rw [place_of_numeral hsolid hn, if_neg (by omega)]

/-- A wrong number is refused for what is wrong with it. -/
theorem BadEntry.place_eq (hsolid : Solid text) (h : BadEntry count text fault) :
    place count text = .error fault := by
  cases h with
  | notNumber hn => exact place_of_not_numeral hsolid hn
  | outOfRange hn hout => rw [place_of_numeral hsolid hn, if_pos hout]

/-- Every text is the number of an entry or a wrong one. -/
theorem entry_or_bad (count : Nat) (text : List Char) :
    (∃ n, Entry count text n) ∨ ∃ fault, BadEntry count text fault := by
  by_cases hex : ∃ n, Numeral text n
  · obtain ⟨n, hn⟩ := hex
    by_cases hout : n = 0 ∨ count < n
    · exact .inr ⟨_, .outOfRange hn hout⟩
    · exact .inl ⟨n, hn, by omega, by omega⟩
  · exact .inr ⟨_, .notNumber (not_exists.1 hex)⟩

/-- Without a dash there is no range. -/
theorem cutDash?_of_not_mem (h : '-' ∉ part) : cutDash? part = none := by
  have hnil : part.dropWhile (· != '-') = [] :=
    List.dropWhile_eq_nil_iff.2 fun c hc => bne_iff_ne.2 fun heq => h (heq ▸ hc)
  rw [cutDash?, hnil]

/-- A range is cut at its first dash. -/
theorem cutDash?_append (h : '-' ∉ front) :
    cutDash? (front ++ '-' :: back) = some (front, back) := by
  have hp : ∀ c ∈ front, (c != '-') = true := fun c hc => bne_iff_ne.2 fun heq => h (heq ▸ hc)
  rw [cutDash?, List.dropWhile_append_of_pos hp, List.takeWhile_append_of_pos hp]
  simp

theorem Solid.left (h : Solid (front ++ '-' :: back)) : Solid front := fun c hc =>
  h c (List.mem_append_left _ hc)

theorem Solid.right (h : Solid (front ++ '-' :: back)) : Solid back := fun c hc =>
  h c (List.mem_append_right _ (List.mem_cons_of_mem _ hc))

/-- Entries are counted from one. -/
theorem Denotes.pos {first last : Nat} (h : Denotes count part first last) : 1 ≤ first := by
  cases h with
  | number h => exact h.2.1
  | range _ hfirst => exact hfirst.2.1

/-- A part that stands for entries gives all their places. -/
theorem Denotes.places_eq {first last : Nat} (hsolid : Solid part)
    (h : Denotes count part first last) :
    places count part = .ok (List.range' (first - 1) (last + 1 - first)) := by
  cases h with
  | number h =>
    rw [places, cutDash?_of_not_mem h.1.not_mem_dash, h.place_eq hsolid, Nat.add_sub_cancel_left]
    rfl
  | range hpart hfirst hlast hle =>
    subst hpart
    have hpos := hfirst.2.1
    have hlength : last - 1 + 1 - (first - 1) = last + 1 - first := by omega
    simp only [places, cutDash?_append hfirst.1.not_mem_dash, hfirst.place_eq hsolid.left,
      hlast.place_eq hsolid.right, if_neg (show ¬ last - 1 < first - 1 by omega), hlength]

/-- A bad part is refused for what is bad about it. -/
theorem Bad.places_eq (hsolid : Solid part) (h : Bad count part fault) :
    places count part = .error fault := by
  cases h with
  | number hdash h => simp only [places, cutDash?_of_not_mem hdash, h.place_eq hsolid]
  | first hpart hdash h =>
    subst hpart
    simp only [places, cutDash?_append hdash, h.place_eq hsolid.left]
  | last hpart hdash hfirst h =>
    subst hpart
    simp only [places, cutDash?_append hdash, hfirst.place_eq hsolid.left, h.place_eq hsolid.right]
  | @reversed front back first last hpart hfirst hlast hlt =>
    subst hpart
    have hpos := hlast.2.1
    simp only [places, cutDash?_append hfirst.1.not_mem_dash, hfirst.place_eq hsolid.left,
      hlast.place_eq hsolid.right, if_pos (show last - 1 < first - 1 by omega)]

/-- Every part stands for entries or is bad. -/
theorem denotes_or_bad (count : Nat) (part : List Char) :
    (∃ first last, Denotes count part first last) ∨ ∃ fault, Bad count part fault := by
  by_cases hdash : '-' ∈ part
  · obtain ⟨front, back, hpart, hfront⟩ := List.eq_append_cons_of_mem hdash
    rcases entry_or_bad count front with ⟨first, hfirst⟩ | ⟨fault, hbad⟩
    · rcases entry_or_bad count back with ⟨last, hlast⟩ | ⟨fault, hbad⟩
      · rcases Nat.lt_or_ge last first with hlt | hle
        · exact .inr ⟨_, .reversed hpart hfirst hlast hlt⟩
        · exact .inl ⟨first, last, .range hpart hfirst hlast hle⟩
      · exact .inr ⟨fault, .last hpart hfront hfirst hbad⟩
    · exact .inr ⟨fault, .first hpart hfront hbad⟩
  · rcases entry_or_bad count part with ⟨n, hn⟩ | ⟨fault, hbad⟩
    · exact .inl ⟨n, n, .number hn⟩
    · exact .inr ⟨fault, .number hdash hbad⟩

end

/-! ## All parts -/

section
variable {count : Nat} {ps : List (List Char)}

/-- Every part stands for some entries. -/
def Sound (count : Nat) (ps : List (List Char)) : Prop :=
  ∀ part ∈ ps, ∃ first last, Denotes count part first last

/-- The first bad part gives the fault. -/
def FirstBad (count : Nat) (ps : List (List Char)) (fault : Fault) : Prop :=
  ∃ front part back, ps = front ++ part :: back ∧ Sound count front ∧ Bad count part fault

/-- Either all parts stand for entries or one is the first that does not. -/
theorem sound_or_firstBad (count : Nat) (ps : List (List Char)) :
    Sound count ps ∨ ∃ fault, FirstBad count ps fault := by
  induction ps with
  | nil => exact .inl (List.forall_mem_nil _)
  | cons part ps ih =>
    rcases denotes_or_bad count part with hpart | ⟨fault, hbad⟩
    · rcases ih with hsound | ⟨fault, front, bad, back, rfl, hfront, hbad⟩
      · exact .inl (List.forall_mem_cons.2 ⟨hpart, hsound⟩)
      · exact .inr ⟨fault, part :: front, bad, back, rfl, List.forall_mem_cons.2 ⟨hpart, hfront⟩,
          hbad⟩
    · exact .inr ⟨fault, [], part, ps, rfl, List.forall_mem_nil _, hbad⟩

/-- The places of a part come in front of those of the other parts. -/
theorem allPlaces_cons {part : List Char} {here : List Nat} (h : places count part = .ok here) :
    allPlaces count (part :: ps) = (allPlaces count ps).map (here ++ ·) := by
  rw [allPlaces, h]
  cases allPlaces count ps <;> rfl

/-- The places that sound parts denote. -/
theorem Sound.allPlaces_eq (h : Sound count ps) (hsolid : ∀ part ∈ ps, Solid part) :
    ∃ indices, allPlaces count ps = .ok indices ∧ ∀ i, i ∈ indices ↔
      Named count ps (i + 1) := by
  induction ps with
  | nil => exact ⟨[], rfl, by simp [Named]⟩
  | cons part ps ih =>
    obtain ⟨⟨first, last, hpart⟩, hrest⟩ := List.forall_mem_cons.1 h
    obtain ⟨hsolid, hsolids⟩ := List.forall_mem_cons.1 hsolid
    obtain ⟨indices, hindices, hmem⟩ := ih hrest hsolids
    have hplaces := hpart.places_eq hsolid
    have hhere : ∀ i, i ∈ List.range' (first - 1) (last + 1 - first) ↔
        ∃ first last, Denotes count part first last ∧ first ≤ i + 1 ∧ i + 1 ≤ last := by
      intro i
      constructor
      · intro hi
        have := List.mem_range'_1.1 hi
        have := hpart.pos
        exact ⟨first, last, hpart, by omega, by omega⟩
      · rintro ⟨first', last', hpart', hfirst, hlast⟩
        rw [Except.ok.inj (hplaces.symm.trans (hpart'.places_eq hsolid)), List.mem_range'_1]
        omega
    refine ⟨_, (allPlaces_cons hplaces).trans (by rw [hindices]; rfl), fun i => ?_⟩
    rw [List.mem_append, hhere, hmem]
    simp only [Named, List.mem_cons, exists_eq_or_imp]

/-- The first bad part decides, since all parts before it denote something. -/
theorem FirstBad.allPlaces_eq {fault : Fault} (h : FirstBad count ps fault)
    (hsolid : ∀ part ∈ ps, Solid part) : allPlaces count ps = .error fault := by
  obtain ⟨front, part, back, rfl, hfront, hbad⟩ := h
  induction front with
  | nil => rw [List.nil_append, allPlaces, hbad.places_eq (hsolid part (by simp))]
  | cons first front ih =>
    obtain ⟨⟨m, n, hfirst⟩, hfront⟩ := List.forall_mem_cons.1 hfront
    obtain ⟨hsolid, hsolids⟩ := List.forall_mem_cons.1 hsolid
    rw [List.cons_append, allPlaces_cons (hfirst.places_eq hsolid), ih hsolids hfront]
    rfl

end

/-! ## Trimming and splitting -/

section
variable {text core front : List Char}

/-- White space in front of something else is dropped. -/
theorem dropWhile_blanks (hfront : ∀ c ∈ front, isBlank c = true)
    (hcore : ∀ c, core.head? = some c → isBlank c = false) :
    (front ++ core).dropWhile isBlank = core := by
  rw [List.dropWhile_append_of_pos hfront]
  cases core with
  | nil => rfl
  | cons c core => exact List.dropWhile_cons_of_neg (Bool.eq_false_iff.1 (hcore c rfl))

/-- What is left behind the white space at the start of a text does not begin with any. -/
theorem head?_dropWhile_blank (text : List Char) :
    ∀ c, (text.dropWhile isBlank).head? = some c → isBlank c = false := by
  intro c hc
  have := List.head?_dropWhile_not isBlank text
  rwa [hc] at this

/-- Trimming leaves what a text is without the white space at its ends. -/
theorem trimmed_trim (text : List Char) : Trimmed text (trim text) := by
  have hback : text.dropWhile isBlank =
      trim text ++ ((text.dropWhile isBlank).reverse.takeWhile isBlank).reverse := by
    rw [trim, ← List.reverse_append, List.takeWhile_append_dropWhile, List.reverse_reverse]
  refine ⟨text.takeWhile isBlank, ((text.dropWhile isBlank).reverse.takeWhile isBlank).reverse,
    ?_, fun c hc => List.mem_takeWhile_imp hc,
    fun c hc => List.mem_takeWhile_imp (List.mem_reverse.1 hc), fun c hc => ?_, fun c hc => ?_⟩
  · rw [List.append_assoc, ← hback, List.takeWhile_append_dropWhile]
  · -- the first character of what is left is the first one behind the white space in front
    refine head?_dropWhile_blank text c ?_
    rw [hback, List.head?_append, hc]
    rfl
  · rw [trim, List.getLast?_reverse] at hc
    exact head?_dropWhile_blank _ c hc

/-- What is left is what trimming leaves. -/
theorem Trimmed.trim_eq (h : Trimmed text core) : trim text = core := by
  obtain ⟨front, back, rfl, hfront, hback, hhead, hlast⟩ := h
  have hback' : ∀ c ∈ back.reverse, isBlank c = true := fun c hc => hback c (List.mem_reverse.1 hc)
  rw [trim, List.append_assoc]
  cases core with
  | nil =>
    have hblank : (front ++ ([] ++ back)).dropWhile isBlank = [] :=
      List.dropWhile_eq_nil_iff.2 fun c hc => (List.mem_append.1 hc).elim (hfront c) (hback c)
    rw [hblank]
    rfl
  | cons x core =>
    have hahead : ∀ c, (x :: core ++ back).head? = some c → isBlank c = false := hhead
    rw [dropWhile_blanks hfront hahead, List.reverse_append,
      dropWhile_blanks hback' fun c hc => hlast c (by rwa [List.head?_reverse] at hc),
      List.reverse_reverse]

/-- Only one text is left. -/
theorem Trimmed.unique {core' : List Char} (h : Trimmed text core) (h' : Trimmed text core') :
    core = core' :=
  h.trim_eq.symm.trans h'.trim_eq

end

section
variable {text part rest a b : List Char} {ps : List (List Char)} {c : Char}

/-- The parts before and behind a separator are those of the texts before and behind it. -/
theorem parts_append (hc : Separates c) : parts (a ++ c :: b) = parts a ++ parts b := by
  have hsep : (c == ',' || isBlank c) = true := by
    rcases hc with rfl | hc
    · rfl
    · rw [hc, Bool.or_true]
  rw [parts, List.splitOnP_append_cons (p := fun c => c == ',' || isBlank c) a b hsep,
    List.filter_append]
  rfl

/-- Separators in front of a text have no part in its parts. -/
theorem parts_gap_append (h : ∀ c ∈ a, Separates c) : parts (a ++ b) = parts b := by
  induction a with
  | nil => rfl
  | cons c a ih =>
    obtain ⟨hc, ha⟩ := List.forall_mem_cons.1 h
    rw [List.cons_append, ← List.nil_append (c :: (a ++ b)), parts_append hc, ih ha]
    rfl

/-- A text without separators is one part. -/
theorem parts_of_part (hne : part ≠ []) (h : ∀ c ∈ part, ¬ Separates c) : parts part = [part] := by
  have hsep : ∀ c ∈ part, (c == ',' || isBlank c) = false := fun c hc => by
    rw [Bool.eq_false_iff, ne_eq, Bool.or_eq_true, beq_iff_eq]
    exact h c hc
  rw [parts, List.splitOnP_eq_singleton hsep]
  exact List.filter_eq_self.2 fun p hp => by simpa [List.mem_singleton.1 hp] using hne

/-- A part ends at the separator behind it. -/
theorem parts_part_append (hne : part ≠ []) (h : ∀ c ∈ part, ¬ Separates c)
    (hrest : ∀ c, rest.head? = some c → Separates c) :
    parts (part ++ rest) = part :: parts rest := by
  cases rest with
  | nil => rw [List.append_nil, parts_of_part hne h, parts, List.splitOnP_nil]; rfl
  | cons c rest =>
    have hc := hrest c rfl
    have hback : parts (c :: rest) = parts rest := parts_gap_append fun d hd => by
      rwa [List.mem_singleton.1 hd]
    rw [parts_append hc, parts_of_part hne h, hback]
    rfl

/-- The parts that are found are all that a text can be split into. -/
theorem Splits.parts_eq (h : Splits text ps) : parts text = ps := by
  induction h with
  | @gap gap hgap => rw [← List.append_nil gap, parts_gap_append hgap]; rfl
  | part hgap hne hpart hrest h ih =>
    rw [List.append_assoc, parts_gap_append hgap, parts_part_append hne hpart hrest, ih]

/-- A text is split in one way. -/
theorem Splits.unique {ps' : List (List Char)} (h : Splits text ps) (h' : Splits text ps') :
    ps = ps' :=
  h.parts_eq.symm.trans h'.parts_eq

/-- A separator in front of a text leaves its parts as they are. -/
theorem Splits.gap_append (h : Splits text ps) (ha : ∀ c ∈ a, Separates c) :
    Splits (a ++ text) ps := by
  have hmore : ∀ {gap : List Char}, (∀ c ∈ gap, Separates c) → ∀ c ∈ a ++ gap, Separates c :=
    fun hgap c hc => (List.mem_append.1 hc).elim (ha c) (hgap c)
  cases h with
  | gap hgap => exact .gap (hmore hgap)
  | part hgap hne hpart hrest h =>
    rw [← List.append_assoc, ← List.append_assoc]
    exact .part (hmore hgap) hne hpart hrest h

/-- Another character in front makes the first part longer, or a part of its own where the text
begins with a separator. -/
theorem Splits.exists_cons (h : Splits text ps) (hc : ¬ Separates c) :
    ∃ ps', Splits (c :: text) ps' := by
  have hone : ∀ d ∈ [c], ¬ Separates d := fun d hd => by rwa [List.mem_singleton.1 hd]
  have halone : (∀ d, text.head? = some d → Separates d) → ∃ ps', Splits (c :: text) ps' :=
    fun hnext => ⟨_, .part (List.forall_mem_nil _) (List.cons_ne_nil c []) hone hnext h⟩
  cases h with
  | gap hgap => exact halone fun d hd => hgap d (List.mem_of_mem_head? hd)
  | @part gap part rest ps hgap hne hpart hrest h =>
    cases gap with
    | nil =>
      exact ⟨_, .part (List.forall_mem_nil _) (List.cons_ne_nil c part)
        (List.forall_mem_cons.2 ⟨hc, hpart⟩) hrest h⟩
    | cons d gap => exact halone fun e he => Option.some.inj he ▸ hgap d List.mem_cons_self

/-- Every text can be split. -/
theorem exists_splits (text : List Char) : ∃ ps, Splits text ps := by
  induction text with
  | nil => exact ⟨[], .gap (List.forall_mem_nil _)⟩
  | cons c text ih =>
    obtain ⟨ps, h⟩ := ih
    by_cases hc : Separates c
    · exact ⟨ps, h.gap_append (a := [c]) fun d hd => by rwa [List.mem_singleton.1 hd]⟩
    · exact h.exists_cons hc

/-- The parts that are found are parts of the text. -/
theorem splits_parts (text : List Char) : Splits text (parts text) := by
  obtain ⟨ps, h⟩ := exists_splits text
  rwa [h.parts_eq]

/-- There is no white space in a part. -/
theorem Splits.solid (h : Splits text ps) : ∀ part ∈ ps, Solid part := by
  induction h with
  | gap => exact List.forall_mem_nil _
  | part _ _ hpart _ _ ih =>
    refine List.forall_mem_cons.2 ⟨fun c hc => ?_, ih⟩
    exact Bool.eq_false_iff.2 fun hblank => hpart c hc (.inr hblank)

end

/-! ## Whole answers -/

section
variable {a : List Char} {c : Char}

/-- Upper-case ASCII letters are moved to the lower-case ones, and nothing else is. -/
theorem toNat_toLower (c : Char) : c.toLower.toNat =
    if 65 ≤ c.toNat ∧ c.toNat ≤ 90 then c.toNat + 32 else c.toNat := by
  unfold Char.toLower
  split
  · next hupper =>
    have hupper : 65 ≤ c.toNat ∧ c.toNat ≤ 90 := hupper
    have hval : c.val.toNat = c.toNat := rfl
    have hshift : (32 : UInt32).toNat = 32 := rfl
    rw [if_pos hupper]
    show (c.val + 32).toNat = c.toNat + 32
    rw [UInt32.toNat_add]
    omega
  · next hupper => exact (if_neg hupper).symm

/-- A letter is the lower or the upper case of what it is folded to. -/
theorem toLower_eq_iff {lower upper : Char} (hlower : lower.toNat = upper.toNat + 32)
    (hupper : 65 ≤ upper.toNat ∧ upper.toNat ≤ 90) :
    c.toLower = lower ↔ c = lower ∨ c = upper := by
  rw [← Char.toNat_inj, ← Char.toNat_inj, ← Char.toNat_inj, toNat_toLower]
  split <;> omega

/-- The forms that pick everything are recognised. -/
theorem everything_iff : isAll a = true ↔ Everything a := by
  have ha : ∀ c : Char, c.toLower = 'a' ↔ c = 'a' ∨ c = 'A' := fun c =>
    toLower_eq_iff rfl (by decide)
  have hl : ∀ c : Char, c.toLower = 'l' ↔ c = 'l' ∨ c = 'L' := fun c =>
    toLower_eq_iff rfl (by decide)
  simp only [isAll, Everything, Bool.or_eq_true, List.isEmpty_iff, beq_iff_eq, or_assoc,
    List.map_eq_cons_iff, List.map_eq_nil_iff, ha, hl]
  refine or_congr_right (or_congr_right ⟨?_, ?_⟩)
  · rintro ⟨x, _, rfl, hx, y, _, rfl, hy, z, _, rfl, hz, rfl⟩
    exact ⟨x, y, z, rfl, hx, hy, hz⟩
  · rintro ⟨x, y, z, rfl, hx, hy, hz⟩
    exact ⟨x, _, rfl, hx, y, _, rfl, hy, z, _, rfl, hz, rfl⟩

end

/-- A mark in front rules out that everything is asked for. -/
theorem not_everything_mark (body : List Char) : ¬ Everything ('!' :: body) := by
  rintro (h | h | ⟨x, y, z, h, hx, -⟩)
  · cases h
  · cases h
  · obtain rfl := (List.cons.inj h).1
    rcases hx with hx | hx <;> cases hx

/-- Every answer says something. -/
theorem exists_request (answer : List Char) : ∃ r, Says answer r := by
  have htrim := trimmed_trim answer
  by_cases hall : Everything (trim answer)
  · exact ⟨_, .everything htrim hall⟩
  · by_cases hmark : (trim answer).head? = some '!'
    · obtain ⟨body, hbody⟩ := List.head?_eq_some_iff.1 hmark
      exact ⟨_, .others (hbody ▸ htrim) (splits_parts body)⟩
    · exact ⟨_, .these htrim hall hmark (splits_parts _)⟩

/-- What is read from an answer, by the places that its parts denote. -/
def Request.selection : Request → List Nat → Selection
  | .everything, _ => .all
  | .these _, indices => .only (normal indices)
  | .others _, indices => .allBut (normal indices)

section
variable {count : Nat} {answer : List Char} {r : Request} {fault : Fault}

/-- No answer says two things. -/
theorem Says.unique {r' : Request} (h : Says answer r) (h' : Says answer r') : r = r' := by
  cases h with
  | everything ht hall =>
    cases h' with
    | everything => rfl
    | these ht' hall' => exact absurd (ht.unique ht' ▸ hall) hall'
    | others ht' => exact absurd (ht.unique ht' ▸ hall) (not_everything_mark _)
  | these ht hall hmark hparts =>
    cases h' with
    | everything ht' hall' => exact absurd (ht'.unique ht ▸ hall') hall
    | these ht' _ _ hparts' =>
      obtain rfl := ht.unique ht'
      rw [hparts.unique hparts']
    | others ht' => exact absurd (congrArg List.head? (ht.unique ht')) hmark
  | others ht hparts =>
    cases h' with
    | everything ht' hall' => exact absurd (ht'.unique ht ▸ hall') (not_everything_mark _)
    | these ht' _ hmark' => exact absurd (congrArg List.head? (ht'.unique ht)) hmark'
    | others ht' hparts' =>
      obtain rfl := (List.cons.inj (ht.unique ht')).2
      rw [hparts.unique hparts']

/-- An answer is read as the places that its parts denote. -/
theorem Says.read_eq (h : Says answer r) :
    read count answer = (allPlaces count r.parts).map r.selection := by
  have hnone : ∀ {core : List Char}, ¬ Everything core → isAll core = false := fun hall =>
    Bool.eq_false_iff.2 fun h => hall (everything_iff.1 h)
  cases h with
  | everything ht hall =>
    rw [read, ht.trim_eq, if_pos (everything_iff.2 hall)]
    rfl
  | @these core ps ht hall hmark hparts =>
    have hread : read count answer = (allPlaces count (parts core)).map (.only ∘ normal) := by
      simp only [read, ht.trim_eq, hnone hall, Bool.false_eq_true, if_false]
      split
      · exact absurd rfl hmark
      · cases allPlaces count (parts core) <;> rfl
    rw [hread, hparts.parts_eq]
    rfl
  | @others body ps ht hparts =>
    have hread : read count answer = (allPlaces count (parts body)).map (.allBut ∘ normal) := by
      simp only [read, ht.trim_eq, hnone (not_everything_mark body), Bool.false_eq_true, if_false]
      cases allPlaces count (parts body) <;> rfl
    rw [hread, hparts.parts_eq]
    rfl

/-- There is no white space in the parts of an answer. -/
theorem Says.solid (h : Says answer r) : ∀ part ∈ r.parts, Solid part := by
  cases h with
  | everything => exact List.forall_mem_nil _
  | these _ _ _ hparts | others _ hparts => exact hparts.solid

/-- An answer whose parts all stand for entries is read. -/
theorem Says.read_of_sound (h : Says answer r) (hsound : Sound count r.parts) :
    ∃ indices, (∀ i, i ∈ indices ↔ Named count r.parts (i + 1)) ∧
      read count answer = .ok (r.selection indices) := by
  obtain ⟨indices, hindices, hmem⟩ := hsound.allPlaces_eq h.solid
  refine ⟨indices, hmem, ?_⟩
  rw [h.read_eq, hindices]
  rfl

/-- The first bad part of an answer is what is wrong with it. -/
theorem Says.read_of_firstBad (h : Says answer r) (hbad : FirstBad count r.parts fault) :
    read count answer = .error fault := by
  rw [h.read_eq, hbad.allPlaces_eq h.solid]
  rfl

/-- An answer is read exactly when all its parts stand for entries. -/
theorem Says.read_eq_ok_iff (h : Says answer r) :
    (∃ s, read count answer = .ok s) ↔ Sound count r.parts := by
  constructor
  · rintro ⟨s, hs⟩
    rcases sound_or_firstBad count r.parts with hsound | ⟨fault, hbad⟩
    · exact hsound
    · rw [h.read_of_firstBad hbad] at hs
      cases hs
  · intro hsound
    obtain ⟨indices, -, hread⟩ := h.read_of_sound hsound
    exact ⟨_, hread⟩

/-- An answer is refused for its first bad part, and for nothing else. -/
theorem Says.read_eq_error_iff (h : Says answer r) :
    read count answer = .error fault ↔ FirstBad count r.parts fault := by
  refine ⟨fun hread => ?_, h.read_of_firstBad⟩
  rcases sound_or_firstBad count r.parts with hsound | ⟨other, hbad⟩
  · obtain ⟨indices, -, hok⟩ := h.read_of_sound hsound
    rw [hok] at hread
    cases hread
  · rw [h.read_of_firstBad hbad] at hread
    cases hread
    exact hbad

/-- What is read from an answer keeps the entries that the answer picks. -/
theorem Says.keeps_of_read {α : Type u} (h : Says answer r) {s : Selection}
    (hread : read count answer = .ok s) (items : List α) :
    Keeps (r.Picks count) 1 items (s.apply items) := by
  obtain ⟨indices, hmem, hok⟩ := h.read_of_sound (h.read_eq_ok_iff.1 ⟨s, hread⟩)
  obtain rfl := Except.ok.inj (hread.symm.trans hok)
  cases r with
  | everything => exact keeps_all (fun _ => trivial) 1 items
  | these ps => exact keeps_only hmem items
  | others ps =>
    refine keeps_allBut (fun i => ?_) items
    rw [hmem, Request.Picks, Classical.not_not]
    rfl

/-- A mark in front of an answer with parts asks for the others. -/
theorem Says.mark {ps : List (List Char)} (h : Says answer (.these ps)) :
    Says ('!' :: answer) (.others ps) := by
  cases h with
  | @these core _ ht hall _ hparts =>
    obtain ⟨front, back, rfl, hfront, hback, -, hlast⟩ := ht
    have hsplits : Splits (front ++ core) ps :=
      hparts.gap_append fun c hc => .inr (hfront c hc)
    refine .others ⟨[], back, rfl, List.forall_mem_nil _, hback, fun c hc => ?_, fun c hc => ?_⟩
      hsplits
    · obtain rfl := Option.some.inj hc
      decide
    · -- the core is not empty, so the last character is its own
      obtain ⟨x, hx⟩ := Option.ne_none_iff_exists'.1 fun hnone =>
        hall (.inl (List.getLast?_eq_none_iff.1 hnone))
      rw [← List.cons_append, List.getLast?_append, hx] at hc
      exact hlast c (hx.trans hc)

end

/-- An answer asks for one thing. It is read exactly when it asks for everything or all its parts
stand for entries of the list, and otherwise the first bad part gives the fault. What is read keeps,
in their order, exactly the items whose positions are asked for. A mark in front of an answer that
asks for the entries of some parts changes nothing but which of the items are kept: those that are
not kept without it. -/
theorem read_meaning {α : Type u} (count : Nat) (answer : List Char) (items : List α) :
    (∃! r, Says answer r) ∧ ∀ r, Says answer r →
      ((∃ s, read count answer = .ok s) ↔ Sound count r.parts) ∧
      (∀ fault, read count answer = .error fault ↔ FirstBad count r.parts fault) ∧
      (∀ s, read count answer = .ok s → Keeps (r.Picks count) 1 items (s.apply items)) ∧
      ∀ ps, r = .these ps →
        Says ('!' :: answer) (.others ps) ∧
        ((∃ s, read count answer = .ok s) ↔ ∃ s, read count ('!' :: answer) = .ok s) ∧
        ∀ s s', read count answer = .ok s → read count ('!' :: answer) = .ok s' →
          Keeps (¬ r.Picks count ·) 1 items (s'.apply items) ∧
            (s.apply items ++ s'.apply items).Perm items := by
  obtain ⟨r, hr⟩ := exists_request answer
  refine ⟨⟨r, hr, fun r' hr' => hr'.unique hr⟩, fun r hr => ⟨hr.read_eq_ok_iff,
    fun fault => hr.read_eq_error_iff, fun s hs => hr.keeps_of_read hs items, ?_⟩⟩
  rintro ps rfl
  have hmark := hr.mark
  refine ⟨hmark, hr.read_eq_ok_iff.trans hmark.read_eq_ok_iff.symm, fun s s' hs hs' => ?_⟩
  have hothers := hmark.keeps_of_read hs' items
  exact ⟨hothers, (hr.keeps_of_read hs items).perm hothers⟩

/-- Three entries are asked for by two ranges that overlap, with blanks at the ends of the answer
and behind its comma; the mark leaves the fourth. -/
theorem read_meaning_partition :
    let answer := [' ', '2', '-', '3', ',', ' ', '1', '-', '2', ' ']
    Says answer (.these [['2', '-', '3'], ['1', '-', '2']]) ∧
      ∃ s s', read 4 answer = .ok s ∧ read 4 ('!' :: answer) = .ok s' ∧
        s.apply ['a', 'b', 'c', 'd'] = ['a', 'b', 'c'] ∧ s'.apply ['a', 'b', 'c', 'd'] = ['d'] ∧
        (s.apply ['a', 'b', 'c', 'd'] ++ s'.apply ['a', 'b', 'c', 'd']).Perm
          ['a', 'b', 'c', 'd'] := by
  intro answer
  have htrimmed : Trimmed answer ['2', '-', '3', ',', ' ', '1', '-', '2'] :=
    ⟨[' '], [' '], rfl, List.forall_mem_singleton.2 rfl, List.forall_mem_singleton.2 rfl,
      fun c hc => Option.some.inj hc ▸ rfl, fun c hc => Option.some.inj hc ▸ rfl⟩
  have hthese : Says answer (.these [['2', '-', '3'], ['1', '-', '2']]) :=
    .these htrimmed (by simp [Everything]) (by simp)
      (splits_parts ['2', '-', '3', ',', ' ', '1', '-', '2'])
  have hplaces : allPlaces 4 [['2', '-', '3'], ['1', '-', '2']] = .ok [1, 2, 0, 1] := by
    decide +kernel
  have hread : read 4 answer = .ok (.only (normal [1, 2, 0, 1])) := by
    rw [hthese.read_eq, Request.parts, hplaces]
    rfl
  have hread' : read 4 ('!' :: answer) = .ok (.allBut (normal [1, 2, 0, 1])) := by
    rw [hthese.mark.read_eq, Request.parts, hplaces]
    rfl
  -- sorting does not reduce, but its result is increasing and has the same members
  have hincreasing := increasing_normal [1, 2, 0, 1]
  have hnormal : normal [1, 2, 0, 1] = [0, 1, 2] := by
    have hperm : (normal [1, 2, 0, 1]).Perm [0, 1, 2] := by
      refine (List.perm_ext_iff_of_nodup (hincreasing.imp Nat.ne_of_lt) (by decide)).2 fun i => ?_
      rw [mem_normal]
      simp only [List.mem_cons, List.not_mem_nil, or_false]
      omega
    exact hperm.eq_of_pairwise (fun a b _ _ hab hba => absurd (Nat.lt_trans hab hba)
      (Nat.lt_irrefl a)) hincreasing (by decide)
  obtain ⟨-, -, -, hmark⟩ := (read_meaning 4 answer ['a', 'b', 'c', 'd']).2 _ hthese
  refine ⟨hthese, _, _, hread, hread', ?_, ?_, ((hmark _ rfl).2.2 _ _ hread hread').2⟩
  · rw [hnormal]
    decide +kernel
  · rw [hnormal]
    decide +kernel

end LogSweep.Selection
