import LogSweep.Proofs.Lexical.Regions
import LogSweep.Proofs.Text.Boundaries

/-!
# Regions without a scanner

What a comment or literal is can be said of the text alone: which bytes open it (`Opens`), and that
it reaches to the first place where it is closed, or to the end of the text (`IsRegion`). A list of
such regions, one behind the other and with nothing left between them that would open another one,
is a `Decomposition` of the text. There is only one (`Decomposition.unique`), since the first region
starts at the first place that opens one. The scanner collects it: `Collected` is what it knows at
each place, every byte keeps it (`Collected.step`), and at the end it is a decomposition.
-/

namespace LogSweep.Lexical

/-! ## Regions of a text -/

/-- The bytes at an offset open a comment or literal of the kind. -/
def Opens (text : Bytes) (offset : Nat) : Kind → Prop
  | .lineComment => text[offset]? = some Byte.slash ∧ text[offset + 1]? = some Byte.slash
  | .blockComment => text[offset]? = some Byte.slash ∧ text[offset + 1]? = some Byte.star
  | .string => text[offset]? = some Byte.singleQuote ∨ text[offset]? = some Byte.doubleQuote
  | .template => text[offset]? = some Byte.backtick

/-- Whether a backslash takes the byte that follows the given ones: read from left to right, a
backslash takes the byte behind it, unless it is taken itself. -/
def isTaken (bytes : Bytes) : Bool :=
  bytes.foldl (fun taken b => !taken && b == Byte.backslash) false

/-- What starts at `start` is closed at `stop`: in front of a newline, behind a star and a slash, or
behind its own quote that no backslash takes. -/
def Closes (text : Bytes) (start stop : Nat) : Kind → Prop
  | .lineComment => start < stop ∧ text[stop]? = some Byte.newline
  | .blockComment => ∃ i, start + 2 ≤ i ∧ text[i]? = some Byte.star ∧
      text[i + 1]? = some Byte.slash ∧ stop = i + 2
  | .string | .template => ∃ i, start + 1 ≤ i ∧ text[i]? = text[start]? ∧
      isTaken (text.slice ⟨start + 1, i⟩) = false ∧ stop = i + 1

/-- A region starts with its opener and ends where it is first closed, or with the text. -/
structure IsRegion (text : Bytes) (r : Region) : Prop where
  opens : Opens text r.span.start r.kind
  ends : Closes text r.span.start r.span.stop r.kind ∨ r.span.stop = text.length
  first : ∀ stop, stop < r.span.stop → ¬ Closes text r.span.start stop r.kind

/-- The regions of a string: they lie in it one behind the other and split no character, and what
they do not cover opens no other. -/
structure Decomposition (source : String) (rs : List Region) : Prop where
  region : ∀ r ∈ rs, IsRegion (.ofString source) r
  inside : ∀ r ∈ rs, r.span.start < r.span.stop ∧ r.span.stop ≤ (Bytes.ofString source).length
  cuts : ∀ r ∈ rs, Divides source r.span.start ∧ Divides source r.span.stop
  apart : rs.Pairwise fun a b => a.span.stop ≤ b.span.start
  code : ∀ offset, (∀ r ∈ rs, r.span.contains offset = false) →
    ∀ kind, ¬ Opens (.ofString source) offset kind

section
variable {text : Bytes} {start stop stop' offset : Nat} {kind kind' : Kind} {r r' : Region}

/-- What opens a region is an ASCII byte of the text. -/
theorem Opens.exists_byte (h : Opens text offset kind) : ∃ b, text[offset]? = some b ∧ b < 128 := by
  cases kind with
  | lineComment | blockComment => exact ⟨_, h.1, by decide⟩
  | string =>
    rcases h with h | h
    · exact ⟨_, h, by decide⟩
    · exact ⟨_, h, by decide⟩
  | template => exact ⟨_, h, by decide⟩

/-- A region opens within the text. -/
theorem Opens.lt (h : Opens text offset kind) : offset < text.length := by
  obtain ⟨b, hb, -⟩ := h.exists_byte
  exact (List.getElem?_eq_some_iff.1 hb).1

/-- What opens a comment or literal is what the scanner takes for an opener. -/
theorem opens_iff : Opens text offset kind ↔
    ∃ b mode, text[offset]? = some b ∧ opens? b text[offset + 1]? = some (kind, mode) := by
  constructor
  · intro h
    cases kind with
    | lineComment => exact ⟨Byte.slash, .line, h.1, by rw [h.2]; rfl⟩
    | blockComment => exact ⟨Byte.slash, .blockSlash, h.1, by rw [h.2]; rfl⟩
    | string =>
      rcases h with h | h
      · exact ⟨Byte.singleQuote, .quoted Byte.singleQuote false, h, rfl⟩
      · exact ⟨Byte.doubleQuote, .quoted Byte.doubleQuote false, h, rfl⟩
    | template => exact ⟨Byte.backtick, .quoted Byte.backtick false, h, rfl⟩
  · rintro ⟨b, mode, hb, hopen⟩
    unfold opens? at hopen
    split at hopen
    · next hslash =>
      rw [beq_iff_eq.1 hslash] at hb
      split at hopen
      · next hnext => cases hopen; exact ⟨hb, hnext⟩
      · next hnext => cases hopen; exact ⟨hb, hnext⟩
      · cases hopen
    · split at hopen
      · next hquote =>
        cases hopen
        simp only [Bool.or_eq_true, beq_iff_eq] at hquote
        rcases hquote with (rfl | rfl) | rfl
        · exact .inl hb
        · exact .inr hb
        · exact hb
      · cases hopen

/-- An opener tells which kind it opens. -/
theorem Opens.kind_unique (h : Opens text offset kind) (h' : Opens text offset kind') :
    kind = kind' := by
  obtain ⟨b, mode, hb, hopen⟩ := opens_iff.1 h
  obtain ⟨b', mode', hb', hopen'⟩ := opens_iff.1 h'
  obtain rfl := Option.some.inj (hb.symm.trans hb')
  exact congrArg Prod.fst (Option.some.inj (hopen.symm.trans hopen'))

/-- Nothing is closed beyond the end of the text. -/
theorem Closes.le (hopen : Opens text start kind) (h : Closes text start stop kind) :
    stop ≤ text.length := by
  cases kind with
  | lineComment => exact Nat.le_of_lt (List.getElem?_eq_some_iff.1 h.2).1
  | blockComment =>
    obtain ⟨i, -, -, hslash, rfl⟩ := h
    exact (List.getElem?_eq_some_iff.1 hslash).1
  | string | template =>
    obtain ⟨i, -, hquote, -, rfl⟩ := h
    obtain ⟨b, hb, -⟩ := hopen.exists_byte
    rw [hb] at hquote
    exact (List.getElem?_eq_some_iff.1 hquote).1

/-- A region ends within the text. -/
theorem IsRegion.le (h : IsRegion text r) : r.span.stop ≤ text.length := by
  rcases h.ends with hclosed | hend
  · exact hclosed.le h.opens
  · exact Nat.le_of_eq hend

/-- What starts at one place ends at one place. -/
theorem IsRegion.eq_of_start (h : IsRegion text r) (h' : IsRegion text r')
    (hstart : r.span.start = r'.span.start) : r = r' := by
  obtain ⟨kind, start, stop⟩ := r
  obtain ⟨kind', start', stop'⟩ := r'
  obtain rfl : start = start' := hstart
  obtain rfl := h.opens.kind_unique h'.opens
  have hle : ∀ {a b : Nat}, IsRegion text ⟨kind, ⟨start, a⟩⟩ → IsRegion text ⟨kind, ⟨start, b⟩⟩ →
      ¬ a < b := by
    intro a b ha hb hlt
    rcases ha.ends with hclosed | hend
    · exact hb.first a hlt hclosed
    · have := hb.le
      simp only at hend this
      omega
  obtain rfl : stop = stop' := Nat.le_antisymm (Nat.not_lt.1 (hle h' h)) (Nat.not_lt.1 (hle h h'))
  rfl

end

/-! ## There is only one decomposition -/

/-- From an offset on the regions are those of the text. -/
structure Parts (text : Bytes) (offset : Nat) (rs : List Region) : Prop where
  region : ∀ r ∈ rs, IsRegion text r ∧ r.span.start < r.span.stop
  behind : ∀ r ∈ rs, offset ≤ r.span.start
  apart : rs.Pairwise fun a b => a.span.stop ≤ b.span.start
  code : ∀ place, offset ≤ place → (∀ r ∈ rs, r.span.contains place = false) →
    ∀ kind, ¬ Opens text place kind

section
variable {text : Bytes} {offset : Nat} {r r' : Region} {rs rs' : List Region}

/-- Behind its first region a text is parted by the others. -/
theorem Parts.tail (h : Parts text offset (r :: rs)) : Parts text r.span.stop rs := by
  obtain ⟨hstop, hapart⟩ := List.pairwise_cons.1 h.apart
  refine ⟨fun x hx => h.region x (List.mem_cons_of_mem _ hx), hstop, hapart, ?_⟩
  intro place hplace hcode
  have hstart := h.behind r List.mem_cons_self
  have hlt := (h.region r List.mem_cons_self).2
  exact h.code place (by omega)
    (List.forall_mem_cons.2 ⟨Span.not_contains_iff.2 (.inr hplace), hcode⟩)

/-- No region starts before the first. -/
theorem Parts.start_le (h : Parts text offset (r :: rs)) (h' : Parts text offset (r' :: rs')) :
    r'.span.start ≤ r.span.start := by
  by_contra hlt
  have hopen := (h.region r List.mem_cons_self).1.opens
  refine h'.code r.span.start (h.behind r List.mem_cons_self) (fun x hx => ?_) _ hopen
  have hfirst : r'.span.start ≤ x.span.start := by
    rcases List.mem_cons.1 hx with rfl | hx
    · exact Nat.le_refl _
    · have := (List.pairwise_cons.1 h'.apart).1 x hx
      have := (h'.region r' List.mem_cons_self).2
      omega
  exact Span.not_contains_iff.2 (.inl (by omega))

/-- A text that no region parts any more is not parted by one. -/
theorem Parts.not_nil (h : Parts text offset []) : ¬ Parts text offset (r :: rs) := fun h' =>
  h.code r.span.start (h'.behind r List.mem_cons_self) (by simp) _
    (h'.region r List.mem_cons_self).1.opens

/-- The regions from an offset on are determined. The induction is on one of the lists: both have
the same first region, and behind it the same rest. -/
theorem Parts.unique (h : Parts text offset rs) (h' : Parts text offset rs') : rs = rs' := by
  induction rs generalizing offset rs' with
  | nil =>
    cases rs' with
    | nil => rfl
    | cons r' rs' => exact absurd h' h.not_nil
  | cons r rs ih =>
    cases rs' with
    | nil => exact absurd h h'.not_nil
    | cons r' rs' =>
      have hstart : r.span.start = r'.span.start := Nat.le_antisymm (h'.start_le h) (h.start_le h')
      obtain rfl := (h.region r List.mem_cons_self).1.eq_of_start
        (h'.region r' List.mem_cons_self).1 hstart
      rw [ih h.tail h'.tail]

end

/-- A decomposition parts the text from its start on. -/
theorem Decomposition.parts {source : String} {rs : List Region} (h : Decomposition source rs) :
    Parts (.ofString source) 0 rs :=
  ⟨fun r hr => ⟨h.region r hr, (h.inside r hr).1⟩, fun _ _ => Nat.zero_le _, h.apart,
    fun place _ hcode => h.code place hcode⟩

/-- A text has one decomposition. -/
theorem Decomposition.unique {source : String} {rs rs' : List Region}
    (h : Decomposition source rs) (h' : Decomposition source rs') : rs = rs' :=
  h.parts.unique h'.parts

/-! ## What the scanner knows -/

/-- The regions in front of an offset, latest first. -/
structure Gathered (text : Bytes) (offset : Nat) (found : List Region) : Prop where
  region : ∀ r ∈ found, IsRegion text r ∧ r.span.start < r.span.stop ∧ r.span.stop ≤ offset
  apart : found.Pairwise fun a b => b.span.stop ≤ a.span.start
  code : ∀ place, place < offset → (∀ r ∈ found, r.span.contains place = false) →
    ∀ kind, ¬ Opens text place kind

/-- In front of `offset` the scanner has read part of what started at `start`, and it has not been
closed yet. -/
def Pending (text : Bytes) (start offset : Nat) (kind : Kind) : Mode → Prop
  | .code => False
  | .line => kind = .lineComment ∧ ∀ stop < offset, ¬ Closes text start stop kind
  | .blockSlash => kind = .blockComment ∧ offset = start + 1
  | .block star => kind = .blockComment ∧ start + 2 ≤ offset ∧
      (star = true ↔ ∃ i, start + 2 ≤ i ∧ text[i]? = some Byte.star ∧ offset = i + 1) ∧
      ∀ stop ≤ offset, ¬ Closes text start stop kind
  | .quoted quote escaped => kind = quotedKind quote ∧ text[start]? = some quote ∧
      escaped = isTaken (text.slice ⟨start + 1, offset⟩) ∧
      ∀ stop ≤ offset, ¬ Closes text start stop kind

/-- What the scanner has collected in front of `offset`, in each of its modes. -/
inductive Collected (text : Bytes) (offset : Nat) : Mode → List Region → Prop
  | code {found : List Region} (hfound : Gathered text offset found) :
      Collected text offset .code found
  | within {mode : Mode} {kind : Kind} {start : Nat} {found : List Region}
      (hfound : Gathered text start found) (hopen : Opens text start kind) (hlt : start < offset)
      (hpending : Pending text start offset kind mode) :
      Collected text offset mode (⟨kind, ⟨start, offset⟩⟩ :: found)

section
variable {text : Bytes} {start stop offset : Nat} {kind : Kind} {mode : Mode} {b : UInt8}
  {found : List Region}

theorem Gathered.nil (text : Bytes) : Gathered text 0 [] :=
  ⟨by simp, .nil, fun _ h => absurd h (Nat.not_lt_zero _)⟩

/-- A byte of code adds no region. -/
theorem Gathered.skip (h : Gathered text offset found) (hcode : ∀ kind, ¬ Opens text offset kind) :
    Gathered text (offset + 1) found := by
  refine ⟨fun r hr => ?_, h.apart, fun place hplace hout => ?_⟩
  · obtain ⟨hregion, hlt, hle⟩ := h.region r hr
    exact ⟨hregion, hlt, Nat.le_succ_of_le hle⟩
  · rcases Nat.lt_or_eq_of_le (Nat.lt_succ_iff.1 hplace) with hlt | rfl
    · exact h.code place hlt hout
    · exact hcode

/-- A region is added at its end. -/
theorem Gathered.cons (h : Gathered text start found) (hlt : start < stop)
    (hregion : IsRegion text ⟨kind, ⟨start, stop⟩⟩) :
    Gathered text stop (⟨kind, ⟨start, stop⟩⟩ :: found) := by
  refine ⟨List.forall_mem_cons.2 ⟨⟨hregion, hlt, Nat.le_refl _⟩, fun r hr => ?_⟩,
    List.pairwise_cons.2 ⟨fun r hr => (h.region r hr).2.2, h.apart⟩, fun place hplace hout => ?_⟩
  · obtain ⟨hr, hne, hle⟩ := h.region r hr
    exact ⟨hr, hne, Nat.le_trans hle (Nat.le_of_lt hlt)⟩
  · obtain ⟨hnot, hout⟩ := List.forall_mem_cons.1 hout
    refine h.code place ?_ hout
    exact (Span.not_contains_iff.1 hnot).resolve_right (Nat.not_le_of_lt hplace)

/-- What is pending has not been closed before. -/
theorem Pending.first (h : Pending text start offset kind mode) :
    ∀ stop < offset, ¬ Closes text start stop kind := by
  intro stop hstop hclosed
  cases mode with
  | code => exact h
  | line => exact h.2 stop hstop hclosed
  | blockSlash =>
    obtain ⟨rfl, rfl⟩ := h
    obtain ⟨i, hi, -, -, rfl⟩ := hclosed
    omega
  | block star => exact h.2.2.2 stop (Nat.le_of_lt hstop) hclosed
  | quoted quote escaped => exact h.2.2.2 stop (Nat.le_of_lt hstop) hclosed

/-- A literal ends behind the first quote of its kind that is not escaped. -/
theorem closes_quoted_iff {quote : UInt8} : Closes text start stop (quotedKind quote) ↔
    ∃ i, start + 1 ≤ i ∧ text[i]? = text[start]? ∧ isTaken (text.slice ⟨start + 1, i⟩) = false ∧
      stop = i + 1 := by
  unfold quotedKind
  split <;> exact Iff.rfl

/-- Right behind its opener a comment or literal is pending. -/
theorem pending_of_opens (hb : text[offset]? = some b)
    (h : opens? b text[offset + 1]? = some (kind, mode)) :
    Pending text offset (offset + 1) kind mode := by
  unfold opens? at h
  split at h
  · split at h
    · cases h
      refine ⟨rfl, fun stop hstop hclosed => ?_⟩
      have := hclosed.1
      omega
    · cases h
      exact ⟨rfl, rfl⟩
    · cases h
  · split at h
    · cases h
      have hnone : text.slice ⟨offset + 1, offset + 1⟩ = [] := by simp [Bytes.slice]
      refine ⟨rfl, hb, by rw [hnone]; rfl, fun stop hstop hclosed => ?_⟩
      obtain ⟨i, hi, -, -, rfl⟩ := closes_quoted_iff.1 hclosed
      omega
    · cases h

/-- A byte read inside of a comment or literal: it comes behind its end, it ends it, or it leaves it
pending. -/
inductive Next (text : Bytes) (start offset : Nat) (kind : Kind) : Mark × Mode → Prop
  | past (hclosed : Closes text start offset kind) (hbyte : text[offset]? = some Byte.newline) :
      Next text start offset kind (.code, .code)
  | last {k : Kind} (hclosed : Closes text start (offset + 1) kind)
      (hfirst : ¬ Closes text start offset kind) :
      Next text start offset kind (.inside k, .code)
  | more {k : Kind} {mode : Mode} (hpending : Pending text start (offset + 1) kind mode) :
      Next text start offset kind (.inside k, mode)

/-- What the next byte does inside of a line comment. -/
theorem Pending.next_line (h : Pending text start offset kind .line) (hlt : start < offset)
    (hb : text[offset]? = some b) (next : Option UInt8) :
    Next text start offset kind (Mode.line.read b next) := by
  obtain ⟨rfl, hfirst⟩ := h
  by_cases hnewline : b = Byte.newline
  · subst hnewline
    exact .past ⟨hlt, hb⟩ hb
  · have hread : Mode.line.read b next = (.inside .lineComment, .line) := by
      simp [Mode.read, hnewline]
    rw [hread]
    refine .more ⟨rfl, fun stop hstop hclosed => ?_⟩
    rcases Nat.lt_or_eq_of_le (Nat.lt_succ_iff.1 hstop) with hbefore | rfl
    · exact hfirst stop hbefore hclosed
    · exact hnewline (Option.some.inj (hb.symm.trans hclosed.2))

/-- What the second byte of a block comment does. -/
theorem Pending.next_blockSlash (h : Pending text start offset kind .blockSlash)
    (next : Option UInt8) : Next text start offset kind (Mode.blockSlash.read b next) := by
  obtain ⟨rfl, rfl⟩ := h
  refine .more ⟨rfl, Nat.le_refl _, iff_of_false Bool.false_ne_true ?_,
    fun stop hstop hclosed => ?_⟩
  · rintro ⟨i, hi, -, heq⟩
    omega
  · obtain ⟨i, hi, -, -, rfl⟩ := hclosed
    omega

/-- What the next byte does inside of a block comment. -/
theorem Pending.next_block {star : Bool} (h : Pending text start offset kind (.block star))
    (hb : text[offset]? = some b) (next : Option UInt8) :
    Next text start offset kind ((Mode.block star).read b next) := by
  obtain ⟨rfl, hle, hstar, hfirst⟩ := h
  by_cases hend : (star && b == Byte.slash) = true
  · -- the star stands right before the slash
    obtain ⟨hyes, hslash⟩ := Bool.and_eq_true_iff.1 hend
    obtain ⟨i, hi, hbyte, rfl⟩ := hstar.1 hyes
    simp only [Mode.read, hend, if_true]
    refine .last ⟨i, hi, hbyte, ?_, rfl⟩ (hfirst _ (Nat.le_refl _))
    rw [hb, beq_iff_eq.1 hslash]
  · simp only [Mode.read, hend]
    refine .more ⟨rfl, Nat.le_succ_of_le hle, ?_, fun stop hstop hclosed => ?_⟩
    · rw [beq_iff_eq]
      constructor
      · rintro rfl
        exact ⟨offset, hle, hb, rfl⟩
      · rintro ⟨i, -, hbyte, heq⟩
        obtain rfl : offset = i := Nat.succ.inj heq
        exact Option.some.inj (hb.symm.trans hbyte)
    · rcases Nat.lt_or_eq_of_le hstop with hbefore | rfl
      · exact hfirst stop (Nat.lt_succ_iff.1 hbefore) hclosed
      · obtain ⟨i, hi, hbyte, hslash, heq⟩ := hclosed
        obtain rfl : offset = i + 1 := Nat.succ.inj heq
        refine hend (Bool.and_eq_true_iff.2 ⟨hstar.2 ⟨i, hi, hbyte, rfl⟩, ?_⟩)
        rw [beq_iff_eq]
        exact Option.some.inj (hb.symm.trans hslash)

/-- What the next byte is taken for follows from this one. -/
theorem isTaken_succ (hle : start + 1 ≤ offset) (hb : text[offset]? = some b) :
    isTaken (text.slice ⟨start + 1, offset + 1⟩) =
      (!isTaken (text.slice ⟨start + 1, offset⟩) && b == Byte.backslash) := by
  have hslice : text.slice ⟨start + 1, offset + 1⟩ = text.slice ⟨start + 1, offset⟩ ++ [b] := by
    have hlen : offset + 1 - (start + 1) = offset - (start + 1) + 1 := by omega
    have hget : (text.drop (start + 1))[offset - (start + 1)]? = some b := by
      rw [List.getElem?_drop, ← hb]
      congr 1
      omega
    simp only [Bytes.slice]
    rw [hlen, List.take_add_one, hget]
    rfl
  rw [hslice, isTaken, isTaken, List.foldl_append]
  rfl

/-- What the next byte does inside of a literal. -/
theorem Pending.next_quoted {quote : UInt8} {escaped : Bool}
    (h : Pending text start offset kind (.quoted quote escaped)) (hopen : Opens text start kind)
    (hlt : start < offset) (hb : text[offset]? = some b) (next : Option UInt8) :
    Next text start offset kind ((Mode.quoted quote escaped).read b next) := by
  obtain ⟨rfl, hquote, htaken, hfirst⟩ := h
  have hbackslash : quote ≠ Byte.backslash := by
    rintro rfl
    have hbad : Opens text start .string := hopen
    rcases hbad with hbad | hbad <;> rw [hquote] at hbad <;> cases hbad
  have hsucc := isTaken_succ hlt hb
  rw [← htaken] at hsucc
  -- the literal is closed behind this byte if that is its quote and not taken
  have hclosed : Closes text start (offset + 1) (quotedKind quote) ↔
      b = quote ∧ escaped = false := by
    rw [closes_quoted_iff, htaken]
    constructor
    · rintro ⟨i, -, hbyte, hfree, heq⟩
      obtain rfl : offset = i := Nat.succ.inj heq
      rw [hb, hquote] at hbyte
      exact ⟨Option.some.inj hbyte, hfree⟩
    · rintro ⟨rfl, hfree⟩
      exact ⟨offset, hlt, hb.trans hquote.symm, hfree, rfl⟩
  have hmore : ∀ {taken : Bool}, ¬ Closes text start (offset + 1) (quotedKind quote) →
      taken = isTaken (text.slice ⟨start + 1, offset + 1⟩) →
      Pending text start (offset + 1) (quotedKind quote) (.quoted quote taken) := by
    intro taken hnot heq
    refine ⟨rfl, hquote, heq, fun stop hstop => ?_⟩
    rcases Nat.lt_or_eq_of_le hstop with hbefore | rfl
    · exact hfirst stop (Nat.lt_succ_iff.1 hbefore)
    · exact hnot
  simp only [Mode.read]
  cases escaped with
  | true => exact .more (hmore (by simp [hclosed]) (by simp [hsucc]))
  | false =>
    simp only [Bool.false_eq_true, if_false, Bool.not_false, Bool.true_and] at hsucc ⊢
    by_cases hslash : b = Byte.backslash
    · subst hslash
      exact .more (hmore (fun hc => hbackslash (hclosed.1 hc).1.symm) (by simp [hsucc]))
    · rw [if_neg (by simpa using hslash)]
      by_cases heq : b = quote
      · rw [if_pos (by simpa using heq)]
        exact .last (hclosed.2 ⟨heq, rfl⟩) (hfirst _ (Nat.le_refl _))
      · rw [if_neg (by simpa using heq)]
        exact .more (hmore (fun hc => heq (hclosed.1 hc).1) (by simp [hsucc, hslash]))

/-- What the next byte does inside of any region. -/
theorem Pending.next (h : Pending text start offset kind mode) (hopen : Opens text start kind)
    (hlt : start < offset) (hb : text[offset]? = some b) (next : Option UInt8) :
    Next text start offset kind (mode.read b next) := by
  cases mode with
  | code => exact h.elim
  | line => exact h.next_line hlt hb next
  | blockSlash => exact h.next_blockSlash next
  | block star => exact h.next_block hb next
  | quoted quote escaped => exact h.next_quoted hopen hlt hb next

/-! ## Step by step -/

/-- The regions with one more byte. -/
def gather (offset : Nat) (found : List Region) : Mark → List Region
  | .code => found
  | .opening kind => ⟨kind, ⟨offset, offset + 1⟩⟩ :: found
  | .inside _ => Region.extend found

/-- Regions are gathered cell by cell. -/
theorem regionsFrom_cons (offset : Nat) (found : List Region) (c : Cell) (cells : List Cell) :
    regionsFrom offset found (c :: cells) =
      regionsFrom (offset + 1) (gather offset found c.mark) cells := by
  rw [regionsFrom]
  cases c.mark <;> rfl

/-- Reading a byte keeps what has been collected right. -/
theorem Collected.step (h : Collected text offset mode found) (hb : text[offset]? = some b) :
    Collected text (offset + 1) (mode.read b text[offset + 1]?).2
      (gather offset found (mode.read b text[offset + 1]?).1) := by
  cases h with
  | code hfound =>
    rw [Mode.read]
    cases hopen : opens? b text[offset + 1]? with
    | none =>
      refine .code (hfound.skip fun kind hkind => ?_)
      obtain ⟨b', mode', hb', hopen'⟩ := opens_iff.1 hkind
      obtain rfl := Option.some.inj (hb.symm.trans hb')
      rw [hopen] at hopen'
      cases hopen'
    | some p =>
      exact .within hfound (opens_iff.2 ⟨b, p.2, hb, hopen⟩) (Nat.lt_succ_self _)
        (pending_of_opens hb hopen)
  | @within _ kind start found hfound hopen hlt hpending =>
    have hnext := hpending.next hopen hlt hb text[offset + 1]?
    generalize mode.read b text[offset + 1]? = read at hnext
    cases hnext with
    | past hclosed hbyte =>
      have hcode : ∀ kind, ¬ Opens text offset kind := by
        intro kind hkind
        obtain ⟨x, mode', hx, hopen'⟩ := opens_iff.1 hkind
        obtain rfl := Option.some.inj (hbyte.symm.trans hx)
        cases hopen'
      exact .code ((hfound.cons hlt ⟨hopen, .inl hclosed, hpending.first⟩).skip hcode)
    | last hclosed hnot =>
      refine .code (hfound.cons (Nat.lt_succ_of_lt hlt) ⟨hopen, .inl hclosed, fun stop hstop => ?_⟩)
      rcases Nat.lt_or_eq_of_le (Nat.lt_succ_iff.1 hstop) with hbefore | rfl
      · exact hpending.first stop hbefore
      · exact hnot
    | more hpending => exact .within hfound hopen (Nat.lt_succ_of_lt hlt) hpending

/-- At the end of the text everything has been gathered; what is still pending ends there. -/
theorem Collected.finish (h : Collected text text.length mode found) :
    Gathered text text.length found := by
  cases h with
  | code hfound => exact hfound
  | within hfound hopen hlt hpending =>
    exact hfound.cons hlt ⟨hopen, .inr rfl, hpending.first⟩

/-- Reading the rest of the text gathers all its regions. -/
theorem Collected.run {rest : Bytes} (h : Collected text offset mode found)
    (hle : offset ≤ text.length) (hrest : text.drop offset = rest) :
    ∃ all, regionsFrom offset found (mode.cells none rest) = all.reverse ∧
      Gathered text text.length all := by
  induction rest generalizing offset mode found with
  | nil =>
    have hend : offset = text.length := by
      have := List.drop_eq_nil_iff.1 hrest
      omega
    subst hend
    exact ⟨found, rfl, h.finish⟩
  | cons b rest ih =>
    have hb : text[offset]? = some b := by rw [← List.head?_drop, hrest, List.head?_cons]
    have hnext : text.drop (offset + 1) = rest := by rw [← List.tail_drop, hrest, List.tail_cons]
    have hahead : rest.head?.or none = text[offset + 1]? := by
      rw [Option.or_none, ← hnext, List.head?_drop]
    have hlt : offset < text.length := (List.getElem?_eq_some_iff.1 hb).1
    rw [Mode.cells, regionsFrom_cons, hahead]
    exact ih (h.step hb) hlt hnext

end

/-- The regions of a text are all there are, in its order. -/
theorem exists_gathered (text : Bytes) :
    ∃ all, regions text = all.reverse ∧ Gathered text text.length all := by
  have := (Collected.code (.nil text)).run (Nat.zero_le _) rfl
  rwa [List.drop_zero, ← scan_eq_cells] at this

/-! ## Characters -/

section
variable {source : String} {offset : Nat} {b : UInt8}

/-- A string divides before an ASCII byte. -/
theorem divides_at (hb : (Bytes.ofString source)[offset]? = some b) (hlt : b < 128) :
    Divides source offset := by
  rw [← isBoundary_ofString_iff, Bytes.isBoundary, List.getElem?_toArray, hb]
  simp only [Byte.isContinuation, Bool.not_eq_true', Bool.and_eq_false_iff,
    decide_eq_false_iff_not]
  exact .inl (UInt8.not_le.2 hlt)

/-- A string divides behind an ASCII byte. -/
theorem divides_behind (hb : (Bytes.ofString source)[offset]? = some b) (hlt : b < 128) :
    Divides source (offset + 1) := by
  have hoffset := (List.getElem?_eq_some_iff.1 hb).1
  have hlen : ((Bytes.ofString source).take (offset + 1)).length = offset + 1 := by
    rw [List.length_take]
    omega
  have halign := aligned_ofString source
  rw [← List.take_append_drop (offset + 1) (Bytes.ofString source)] at halign
  have hcut := halign.isBoundary fun x hx => by
    rw [List.getLast?_eq_getElem?, hlen, List.getElem?_take_of_lt (by omega),
      Nat.add_sub_cancel, hb] at hx
    rwa [← Option.some.inj hx]
  rwa [hlen, List.take_append_drop, isBoundary_ofString_iff] at hcut

/-- A string divides at its end. -/
theorem divides_length (source : String) : Divides source (Bytes.ofString source).length := by
  rw [← isBoundary_ofString_iff]
  simp [Bytes.isBoundary]

/-- A region splits no character: it is opened and closed by ASCII bytes. -/
theorem IsRegion.divides {r : Region} (h : IsRegion (.ofString source) r) :
    Divides source r.span.start ∧ Divides source r.span.stop := by
  obtain ⟨x, hx, hxlt⟩ := h.opens.exists_byte
  refine ⟨divides_at hx hxlt, ?_⟩
  rcases h.ends with hclosed | hend
  · obtain ⟨kind, start, stop⟩ := r
    cases kind with
    | lineComment => exact divides_at hclosed.2 (by decide)
    | blockComment =>
      obtain ⟨i, -, -, hslash, rfl⟩ := hclosed
      exact divides_behind hslash (by decide)
    | string | template =>
      obtain ⟨i, -, hquote, -, rfl⟩ := hclosed
      exact divides_behind (hquote.trans hx) hxlt
  · rw [hend]
    exact divides_length source

end

/-- The regions that are found decompose the text. -/
theorem decomposition_regions (source : String) :
    Decomposition source (regions (.ofString source)) := by
  obtain ⟨all, hall, hgathered⟩ := exists_gathered (.ofString source)
  have hmem : ∀ {r}, r ∈ regions (.ofString source) → r ∈ all := fun hr => by
    rwa [hall, List.mem_reverse] at hr
  refine ⟨fun r hr => (hgathered.region r (hmem hr)).1,
    fun r hr => (hgathered.region r (hmem hr)).2,
    fun r hr => (hgathered.region r (hmem hr)).1.divides, ?_, fun offset hout kind hopen => ?_⟩
  · rw [hall]
    exact List.pairwise_reverse.2 hgathered.apart
  · refine hgathered.code offset hopen.lt (fun r hr => hout r ?_) kind hopen
    rwa [hall, List.mem_reverse]

/-! ## Looking regions up -/

section
variable {rs : List Region} {r : Region} {offset : Nat}

/-- No region holds what lies before all of them. -/
theorem regionAt?_eq_none_of_lt (h : ∀ r ∈ rs, offset < r.span.start) :
    regionAt? rs offset = none := by
  rw [regionAt?, List.find?_eq_none]
  intro r hr
  rw [Span.not_contains_iff.2 (.inl (h r hr))]
  exact Bool.false_ne_true

/-- Of regions one behind the other at most one covers an offset, and it is found. -/
theorem regionAt?_eq_some_iff (hapart : rs.Pairwise fun a b => a.span.stop ≤ b.span.start) :
    regionAt? rs offset = some r ↔ r ∈ rs ∧ r.span.contains offset = true := by
  refine ⟨fun h => ?_, ?_⟩
  · rw [regionAt?] at h
    have hcontains := List.find?_some h
    exact ⟨List.mem_of_find?_eq_some h, hcontains⟩
  rintro ⟨hmem, hcontains⟩
  induction rs with
  | nil => cases hmem
  | cons x rs ih =>
    obtain ⟨hbehind, hrest⟩ := List.pairwise_cons.1 hapart
    rcases List.mem_cons.1 hmem with rfl | hmem
    · exact List.find?_cons_of_pos hcontains
    · have hx : x.span.contains offset = false :=
        Span.not_contains_iff.2
          (.inr (Nat.le_trans (hbehind r hmem) (Span.contains_iff.1 hcontains).1))
      rw [regionAt?, List.find?_cons_of_neg (by rw [hx]; exact Bool.false_ne_true)]
      exact ih hrest hmem

/-- The regions that end at or before an offset come first, and the region that covers it, if there
is one, is the next. -/
theorem exists_partition (hapart : rs.Pairwise fun a b => a.span.stop ≤ b.span.start)
    (hinside : ∀ r ∈ rs, r.span.start < r.span.stop) (offset : Nat) :
    ∃ k, (∀ (i : Nat) (r : Region), rs[i]? = some r → (r.span.stop ≤ offset ↔ i < k)) ∧
      regionAt? rs offset = rs[k]?.filter (·.span.contains offset) := by
  induction rs with
  | nil => exact ⟨0, by simp, rfl⟩
  | cons x rs ih =>
    obtain ⟨hbehind, hrest⟩ := List.pairwise_cons.1 hapart
    obtain ⟨hx, hinside⟩ := List.forall_mem_cons.1 hinside
    by_cases hle : x.span.stop ≤ offset
    · obtain ⟨k, hk, hfound⟩ := ih hrest hinside
      refine ⟨k + 1, fun i r hr => ?_, ?_⟩
      · cases i with
        | zero =>
          obtain rfl : x = r := Option.some.inj hr
          exact iff_of_true hle (Nat.succ_pos k)
        | succ i => exact (hk i r hr).trans Nat.succ_lt_succ_iff.symm
      · rw [List.getElem?_cons_succ, ← hfound]
        have hx : x.span.contains offset = false := Span.not_contains_iff.2 (.inr hle)
        exact List.find?_cons_of_neg (by rw [hx]; exact Bool.false_ne_true)
    · -- everything behind `x` ends later still
      refine ⟨0, fun i r hr => iff_of_false (fun hr' => ?_) (Nat.not_lt_zero i), ?_⟩
      · rcases List.mem_cons.1 (List.mem_of_getElem? hr) with rfl | hmem
        · exact hle hr'
        · have := hbehind r hmem
          have := hinside r hmem
          omega
      · have hnone : regionAt? rs offset = none := regionAt?_eq_none_of_lt fun r hr => by
          have := hbehind r hr
          omega
        rw [List.getElem?_cons_zero, Option.filter_some, regionAt?, List.find?_cons]
        cases x.span.contains offset with
        | true => rfl
        | false => exact hnone

/-- The region that covers a place is of the kind that the cell there has. -/
theorem Parted.kind_regionAt? {cells : List Cell} (h : Parted cells) (offset place : Nat) :
    (regionAt? (regionsFrom offset [] cells) (offset + place)).map (·.kind) =
      cells[place]?.bind Cell.kind? := by
  induction h generalizing offset place with
  | nil => rfl
  | @code b rest hrest ih =>
    rw [regionsFrom_code]
    cases place with
    | zero =>
      have hnone : regionAt? (regionsFrom (offset + 1) [] rest) (offset + 0) = none :=
        regionAt?_eq_none_of_lt fun r hr => (hrest.span_of_mem hr).1
      rw [hnone]
      rfl
    | succ place =>
      have := ih (offset + 1) place
      rwa [Nat.add_assoc, Nat.add_comm 1] at this
  | @region kind b body rest hbody hrest ih =>
    rw [regionsFrom_region hbody hrest]
    by_cases hlt : place < body.length + 1
    · have hcontains : (⟨offset, offset + 1 + body.length⟩ : Span).contains (offset + place) =
          true := Span.contains_iff.2 ⟨Nat.le_add_right _ _, by simp only; omega⟩
      have hkind : ∀ c ∈ ⟨b, .opening kind⟩ :: body, c.kind? = some kind := by
        refine List.forall_mem_cons.2 ⟨rfl, fun c hc => ?_⟩
        rw [Cell.kind?, hbody c hc]
      have hcell : (⟨b, .opening kind⟩ :: (body ++ rest))[place]? =
          (⟨b, .opening kind⟩ :: body)[place]? := by
        rw [← List.cons_append]
        exact List.getElem?_append_left (by simpa using hlt)
      obtain ⟨c, hc⟩ : ∃ c, (⟨b, .opening kind⟩ :: body)[place]? = some c :=
        ⟨_, List.getElem?_eq_getElem (by simpa using hlt)⟩
      rw [hcell, hc, Option.bind_some, hkind c (List.mem_of_getElem? hc)]
      simp [regionAt?, hcontains]
    · obtain ⟨more, rfl⟩ := Nat.exists_eq_add_of_le (Nat.not_lt.1 hlt)
      have hplace : offset + (body.length + 1 + more) = offset + 1 + body.length + more := by omega
      have hcontains : (⟨offset, offset + 1 + body.length⟩ : Span).contains
          (offset + 1 + body.length + more) = false :=
        Span.not_contains_iff.2 (.inr (Nat.le_add_right _ _))
      have hcell : (⟨b, .opening kind⟩ :: (body ++ rest))[body.length + 1 + more]? =
          rest[more]? := by
        rw [← List.cons_append, List.getElem?_append_right (by simp)]
        simp
      rw [hcell, ← ih (offset + 1 + body.length) more, hplace, regionAt?,
        List.find?_cons_of_neg (by rw [hcontains]; exact Bool.false_ne_true)]
      rfl

end

/-- A cell is code when it belongs to no region. -/
theorem Cell.isCode_eq (c : Cell) : c.isCode = c.kind?.isNone := by
  obtain ⟨b, mark⟩ := c
  cases mark <;> rfl

/-- The regions that the scanner finds are the decomposition of the text, and there is no other. For
every offset, also beyond the end, the region that covers it is found, among the first that end
behind it; its kind is that of the cell there, and code is what no region covers. -/
theorem regions_decompose (source : String) :
    let text := Bytes.ofString source
    Decomposition source (regions text) ∧
    (∀ rs, Decomposition source rs → rs = regions text) ∧
    ∀ offset,
      (∀ r, regionAt? (regions text) offset = some r ↔
        r ∈ regions text ∧ r.span.contains offset = true) ∧
      (∃ k, (∀ (i : Nat) (r : Region), (regions text)[i]? = some r →
          (r.span.stop ≤ offset ↔ i < k)) ∧
        regionAt? (regions text) offset = (regions text)[k]?.filter (·.span.contains offset)) ∧
      (scan text)[offset]?.bind Cell.kind? = (regionAt? (regions text) offset).map (·.kind) ∧
      (scan text)[offset]?.all Cell.isCode = (regionAt? (regions text) offset).isNone := by
  intro text
  have h := decomposition_regions source
  refine ⟨h, fun rs hrs => hrs.unique h, fun offset => ?_⟩
  have hkind : (regionAt? (regions text) offset).map (·.kind) =
      (scan text)[offset]?.bind Cell.kind? := by
    have := (parted_scan text).kind_regionAt? 0 offset
    rwa [Nat.zero_add] at this
  refine ⟨fun r => regionAt?_eq_some_iff h.apart,
    exists_partition h.apart (fun r hr => (h.inside r hr).1) offset, hkind.symm, ?_⟩
  rw [← Option.isNone_map (f := (·.kind)), hkind]
  cases (scan text)[offset]? with
  | none => rfl
  | some c => exact c.isCode_eq

end LogSweep.Lexical
