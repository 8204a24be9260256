import LogSweep.Lexical.Scan

/-!
# Reading a text in parts

The scanner reads a text from left to right and looks one byte ahead, and only a slash in code makes
use of what it sees there. So a text can be cut and put together again wherever the scanner is back
in code, as long as no slash in code stands right before the cut. `Lexed` is a run of cells that a
scan of its own bytes gives back, `Whole` a run that reads the same in front of every text. A lexed
run splits into whole parts (`Lexed.whole_of_next`, `Lexed.whole_snoc`) and a lexed rest
(`Lexed.of_code`), and whole parts in front of a lexed rest make a lexed run again
(`Whole.lexed_append`).
-/

namespace LogSweep.Lexical

/-! ## The scanner without its accumulator -/

namespace Mode

/-- The cells of a text that is followed by `next`. -/
def cells (mode : Mode) (next : Option UInt8) : Bytes → List Cell
  | [] => []
  | b :: rest =>
    ⟨b, (mode.read b (rest.head?.or next)).1⟩ ::
      cells (mode.read b (rest.head?.or next)).2 next rest

/-- The mode behind a text that is followed by `next`. -/
def behind (mode : Mode) (next : Option UInt8) : Bytes → Mode
  | [] => mode
  | b :: rest => behind (mode.read b (rest.head?.or next)).2 next rest

/-- The cells of two texts: the second is read in the mode that the first leaves. -/
theorem cells_append (mode : Mode) (next : Option UInt8) (a b : Bytes) :
    mode.cells next (a ++ b) =
      mode.cells (b.head?.or next) a ++ (mode.behind (b.head?.or next) a).cells next b := by
  induction a generalizing mode with
  | nil => rfl
  | cons x a ih =>
    have hnext : (a ++ b).head?.or next = a.head?.or (b.head?.or next) := by
      cases a <;> simp
    simp only [List.cons_append, cells, behind, hnext, ih]

@[simp] theorem map_byte_cells (mode : Mode) (next : Option UInt8) (text : Bytes) :
    (mode.cells next text).map (·.byte) = text := by
  induction text generalizing mode with
  | nil => rfl
  | cons b text ih => simp only [cells, List.map_cons, ih]

@[simp] theorem length_cells (mode : Mode) (next : Option UInt8) (text : Bytes) :
    (mode.cells next text).length = text.length := by
  rw [← List.length_map (·.byte), map_byte_cells]

/-- A byte read as code leaves the scanner in code. -/
theorem read_code {mode : Mode} {b : UInt8} {next : Option UInt8}
    (h : (mode.read b next).1 = .code) : (mode.read b next).2 = .code := by
  cases mode with
  | code =>
    simp only [read] at h ⊢
    split at h
    · cases h
    · rfl
  | line =>
    by_cases hb : b = Byte.newline
    · simp [read, hb]
    · simp [read, hb] at h
  | blockSlash | block | quoted => simp [read] at h

/-- Only a newline is read as code outside of code: it ends a line comment. -/
theorem eq_code_of_read {mode : Mode} {b : UInt8} {next : Option UInt8}
    (h : (mode.read b next).1 = .code) (hb : b ≠ Byte.newline) : mode = .code := by
  cases mode with
  | code => rfl
  | line => simp [read, hb] at h
  | blockSlash | block | quoted => simp [read] at h

/-- A byte that is read as code is read as such in code. -/
theorem code_read {mode : Mode} {b : UInt8} {next : Option UInt8}
    (h : (mode.read b next).1 = .code) : code.read b next = mode.read b next := by
  by_cases hb : b = Byte.newline
  · -- a newline is code whether or not it ends a line comment
    subst hb
    rw [Prod.ext_iff, h, read_code h]
    exact ⟨rfl, rfl⟩
  · rw [eq_code_of_read h hb]

/-- What a byte opens is not closed at once. -/
theorem ne_code_of_opens {b : UInt8} {next : Option UInt8} {kind : Kind} {mode : Mode}
    (h : opens? b next = some (kind, mode)) : mode ≠ .code := by
  unfold opens? at h
  split at h
  · split at h <;> cases h <;> exact Mode.noConfusion
  · split at h <;> cases h
    exact Mode.noConfusion

/-- What a byte that leaves the scanner in code is read as does not depend on the byte behind it,
unless it is a slash in code. -/
theorem read_blind {mode : Mode} {b : UInt8} {next : Option UInt8} (next' : Option UInt8)
    (hmode : (mode.read b next).2 = .code)
    (hslash : ¬ ((mode.read b next).1 = .code ∧ b = Byte.slash)) :
    mode.read b next' = mode.read b next := by
  cases mode with
  | line | blockSlash | block | quoted => rfl
  | code =>
    by_cases hb : b = Byte.slash
    · exfalso
      cases hopen : opens? b next with
      | none => exact hslash ⟨by simp only [read, hopen], hb⟩
      | some p => exact ne_code_of_opens hopen (by simpa only [read, hopen] using hmode)
    · simp only [read, opens?, beq_iff_eq, hb, if_false]

/-- The quote that a literal waits for is a quote character. -/
def QuoteOk : Mode → Prop
  | quoted q _ => q = Byte.singleQuote ∨ q = Byte.doubleQuote ∨ q = Byte.backtick
  | _ => True

/-- Reading a byte never waits for anything but a quote character. -/
theorem QuoteOk.read {mode : Mode} (h : mode.QuoteOk) (b : UInt8) (next : Option UInt8) :
    (mode.read b next).2.QuoteOk := by
  cases mode with
  | code =>
    simp only [Mode.read, opens?]
    split
    · next kind mode hopen =>
      split at hopen
      · split at hopen <;> cases hopen <;> trivial
      · split at hopen
        · next hq =>
          cases hopen
          simpa [QuoteOk, or_assoc] using hq
        · cases hopen
    · trivial
  | line => simp only [Mode.read]; split <;> trivial
  | blockSlash => trivial
  | block star => simp only [Mode.read]; split <;> trivial
  | quoted q escaped =>
    simp only [Mode.read]
    split
    · exact h
    · split
      · exact h
      · split
        · trivial
        · exact h

/-- Nor does reading a text. -/
theorem QuoteOk.behind {mode : Mode} (h : mode.QuoteOk) (next : Option UInt8) (text : Bytes) :
    (mode.behind next text).QuoteOk := by
  induction text generalizing mode with
  | nil => exact h
  | cons b text ih => exact ih (h.read b _)

/-- The byte that ends a comment or literal and is part of it closes a block comment or a
literal. -/
theorem closing_byte {mode : Mode} {b : UInt8} {next : Option UInt8} (hq : mode.QuoteOk)
    (hmark : (mode.read b next).1 ≠ .code) (hmode : (mode.read b next).2 = .code) :
    (mode = .block true ∧ b = Byte.slash) ∨
      b = Byte.singleQuote ∨ b = Byte.doubleQuote ∨ b = Byte.backtick := by
  cases mode with
  | code =>
    cases hopen : opens? b next with
    | none => exact absurd (by simp only [read, hopen]) hmark
    | some p => exact absurd (by simpa only [read, hopen] using hmode) (ne_code_of_opens hopen)
  | line =>
    by_cases hb : b = Byte.newline
    · simp [read, hb] at hmark
    · simp [read, hb] at hmode
  | blockSlash => simp [read] at hmode
  | block star =>
    simp only [read] at hmode
    split at hmode
    · next hs =>
      obtain ⟨rfl, hb⟩ := Bool.and_eq_true_iff.1 hs
      exact .inl ⟨rfl, by simpa using hb⟩
    · cases hmode
  | quoted q escaped =>
    simp only [read] at hmode
    split at hmode
    · cases hmode
    · split at hmode
      · cases hmode
      · split at hmode
        · next hbq => rw [beq_iff_eq.1 hbq]; exact .inr hq
        · cases hmode

/-- The mode behind two texts is that behind the second, from that behind the first. -/
theorem behind_append (mode : Mode) (next : Option UInt8) (a b : Bytes) :
    mode.behind next (a ++ b) = (mode.behind (b.head?.or next) a).behind next b := by
  induction a generalizing mode with
  | nil => rfl
  | cons x a ih =>
    have hnext : (a ++ b).head?.or next = a.head?.or (b.head?.or next) := by
      cases a <;> simp
    simp only [List.cons_append, behind, hnext, ih]

/-- A slash completes the end of a block comment only behind a star. -/
theorem getLast?_of_behind {next : Option UInt8} {text : Bytes}
    (h : code.behind next text = .block true) : text.getLast? = some Byte.star := by
  rcases List.eq_nil_or_concat text with rfl | ⟨init, b, rfl⟩
  · cases h
  · rw [List.concat_eq_append, behind_append] at h
    rw [List.concat_eq_append, List.getLast?_concat]
    generalize code.behind _ init = mode at h
    simp only [behind] at h
    cases mode with
    | code =>
      simp only [read] at h
      split at h
      · next kind mode hopen =>
        unfold opens? at hopen
        split at hopen
        · split at hopen <;> cases hopen <;> cases h
        · split at hopen <;> cases hopen
          cases h
      · cases h
    | line => simp only [read] at h; split at h <;> cases h
    | blockSlash => cases h
    | block star =>
      simp only [read] at h
      split at h
      · cases h
      · rw [Mode.block.injEq, beq_iff_eq] at h
        rw [h]
    | quoted q escaped =>
      simp only [read] at h
      repeat' split at h
      all_goals cases h

/-- A text behind which the scanner is in code reads the same in front of every byte, unless a slash
in code ends it. -/
theorem cells_blind {mode : Mode} {next : Option UInt8} (next' : Option UInt8) {text : Bytes}
    (hmode : mode.behind next text = .code)
    (hlast : ∀ c, (mode.cells next text).getLast? = some c →
      ¬ (c.mark = .code ∧ c.byte = Byte.slash)) :
    mode.cells next' text = mode.cells next text ∧ mode.behind next' text = .code := by
  induction text generalizing mode with
  | nil => exact ⟨rfl, hmode⟩
  | cons b text ih =>
    cases text with
    | nil =>
      simp only [behind, List.head?_nil, Option.none_or] at hmode
      have hread := read_blind next' hmode (by simpa [cells] using hlast)
      simp only [cells, behind, List.head?_nil, Option.none_or, hread, hmode, and_self]
    | cons b' text =>
      simp only [behind, cells, List.head?_cons, Option.some_or, List.getLast?_cons_cons] at *
      obtain ⟨hcells, hbehind⟩ := ih hmode hlast
      exact ⟨by rw [hcells], hbehind⟩

/-- In front of a byte that makes no comment of a slash a text reads as it does at the end. -/
theorem cells_some {b : UInt8} (hslash : b ≠ Byte.slash) (hstar : b ≠ Byte.star) (mode : Mode)
    (text : Bytes) : mode.cells (some b) text = mode.cells none text := by
  have hopens : ∀ x, opens? x (some b) = opens? x none := by
    intro x
    unfold opens?
    split
    · split
      · next hb => exact absurd (Option.some.inj hb) hslash
      · next hb => exact absurd (Option.some.inj hb) hstar
      · rfl
    · rfl
  have hread : ∀ (mode : Mode) (x : UInt8), mode.read x (some b) = mode.read x none := by
    intro mode x
    cases mode with
    | code => simp only [read, hopens]
    | line | blockSlash | block | quoted => rfl
  induction text generalizing mode with
  | nil => rfl
  | cons x text ih =>
    have hnext : mode.read x (text.head?.or (some b)) = mode.read x (text.head?.or none) := by
      cases text with
      | nil => exact hread mode x
      | cons y text => rfl
    rw [cells, cells, hnext, ih]

end Mode

/-- The scan with an accumulator gives what was done and then the cells. -/
theorem scanFrom_eq (mode : Mode) (done : List Cell) (text : Bytes) :
    scanFrom mode done text = done.reverse ++ mode.cells none text := by
  induction text generalizing mode done with
  | nil => simp [scanFrom, Mode.cells]
  | cons b text ih => simp [scanFrom, Mode.cells, ih]

/-- A scan is the cells of a text from code on. -/
theorem scan_eq_cells (text : Bytes) : scan text = Mode.code.cells none text := by
  simp [scan, scanFrom_eq]

@[simp] theorem map_byte_scan (text : Bytes) : (scan text).map (·.byte) = text := by
  simp [scan_eq_cells]

@[simp] theorem length_scan (text : Bytes) : (scan text).length = text.length := by
  simp [scan_eq_cells]

@[simp] theorem scan_nil : scan [] = [] := rfl

/-! ## Lexed and whole runs -/

/-- A run of cells that a scan of its bytes gives back. -/
def Lexed (cells : List Cell) : Prop :=
  scan (cells.map (·.byte)) = cells

/-- A run of cells that reads the same in front of every text. -/
def Whole (cells : List Cell) : Prop :=
  ∀ rest, scan (cells.map (·.byte) ++ rest) = cells ++ scan rest

/-- A scan is lexed. -/
theorem Lexed.scan (text : Bytes) : Lexed (scan text) := by
  rw [Lexed, map_byte_scan]

theorem Whole.nil : Whole [] := fun _ => rfl

/-- Two whole runs make a whole one. -/
theorem Whole.append {a b : List Cell} (ha : Whole a) (hb : Whole b) : Whole (a ++ b) := by
  intro rest
  rw [List.map_append, List.append_assoc, ha, hb, List.append_assoc]

/-- A whole run in front of a lexed one is lexed. -/
theorem Whole.lexed_append {a b : List Cell} (ha : Whole a) (hb : Lexed b) : Lexed (a ++ b) := by
  rw [Lexed, List.map_append, ha, hb]

/-- A whole run is lexed. -/
theorem Whole.lexed {a : List Cell} (ha : Whole a) : Lexed a := by
  simpa using ha.lexed_append (b := []) rfl

/-- The cells of a lexed run in front of a given one, and the mode that gives this one its mark. -/
theorem Lexed.split {a rest : List Cell} {c : Cell} (h : Lexed (a ++ c :: rest)) :
    Mode.code.cells (some c.byte) (a.map (·.byte)) = a ∧
      ((Mode.code.behind (some c.byte) (a.map (·.byte))).read c.byte
        (rest.map (·.byte)).head?).1 = c.mark ∧
      ((Mode.code.behind (some c.byte) (a.map (·.byte))).read c.byte
        (rest.map (·.byte)).head?).2.cells none (rest.map (·.byte)) = rest := by
  rw [Lexed, scan_eq_cells, List.map_append, Mode.cells_append] at h
  obtain ⟨ha, hrest⟩ := List.append_inj h (by simp)
  simp only [List.map_cons, List.head?_cons, Option.some_or] at ha hrest
  simp only [Mode.cells, Option.or_none, List.cons.injEq] at hrest
  exact ⟨ha, congrArg Cell.mark hrest.1, hrest.2⟩

/-- In front of a byte that makes no comment of a slash a lexed run is lexed. -/
theorem Lexed.in_front {a rest : List Cell} {c : Cell} (h : Lexed (a ++ c :: rest))
    (hslash : c.byte ≠ Byte.slash) (hstar : c.byte ≠ Byte.star) : Lexed a := by
  rw [Lexed, scan_eq_cells, ← Mode.cells_some hslash hstar]
  exact h.split.1

/-- Behind a code cell a lexed run is lexed. -/
theorem Lexed.of_code {a rest : List Cell} {c : Cell} (h : Lexed (a ++ c :: rest))
    (hc : c.mark = .code) : Lexed rest := by
  obtain ⟨-, hmark, hrest⟩ := h.split
  rw [Mode.read_code (hmark.trans hc)] at hrest
  rw [Lexed, scan_eq_cells, hrest]

/-- From a code cell on a lexed run is lexed. -/
theorem Lexed.from_code {a rest : List Cell} {c : Cell} (h : Lexed (a ++ c :: rest))
    (hc : c.mark = .code) : Lexed (c :: rest) := by
  obtain ⟨-, hmark, hrest⟩ := h.split
  have hread := Mode.code_read (hmark.trans hc)
  rw [Lexed, scan_eq_cells, List.map_cons, Mode.cells, Option.or_none, hread, hmark, hrest]

/-- In front of a code cell other than a newline a lexed run is whole, unless a slash in code ends
it. -/
theorem Lexed.whole_of_next {a rest : List Cell} {c : Cell} (h : Lexed (a ++ c :: rest))
    (hc : c.mark = .code) (hb : c.byte ≠ Byte.newline)
    (hlast : ∀ x, a.getLast? = some x → ¬ (x.mark = .code ∧ x.byte = Byte.slash)) :
    Whole a := by
  obtain ⟨ha, hmark, -⟩ := h.split
  have hmode := Mode.eq_code_of_read (hmark.trans hc) hb
  intro text
  obtain ⟨hcells, hbehind⟩ := Mode.cells_blind (text.head?) hmode (by rwa [ha])
  rw [scan_eq_cells, Mode.cells_append, Option.or_none, hcells, hbehind, ha, scan_eq_cells]

/-- A lexed run up to and with a code cell other than a slash is whole. -/
theorem Lexed.whole_snoc {a rest : List Cell} {c : Cell} (h : Lexed (a ++ c :: rest))
    (hc : c.mark = .code) (hb : c.byte ≠ Byte.slash) : Whole (a ++ [c]) := by
  obtain ⟨ha, hmark, -⟩ := h.split
  have hcode := hmark.trans hc
  intro text
  have hread := Mode.read_blind (text.head?) (Mode.read_code hcode) (fun hs => hb hs.2)
  rw [List.map_append, List.append_assoc, scan_eq_cells, Mode.cells_append]
  simp only [List.map_cons, List.map_nil, List.cons_append, List.nil_append, List.head?_cons,
    ha, Mode.cells, Option.or_none, hread, hmark, Mode.read_code hcode,
    List.append_assoc, scan_eq_cells]

/-- A comment or literal that ends in front of code ends with its closing byte, which in a block
comment comes behind a star, or else it is a line comment in front of a newline. -/
theorem Lexed.region_end {a rest : List Cell} {x c : Cell} (h : Lexed (a ++ x :: c :: rest))
    (hx : x.mark ≠ .code) (hc : c.mark = .code) :
    c.byte = Byte.newline ∨
      (x.byte = Byte.slash ∧ (a.map (·.byte)).getLast? = some Byte.star) ∨
      x.byte = Byte.singleQuote ∨ x.byte = Byte.doubleQuote ∨ x.byte = Byte.backtick := by
  by_cases hb : c.byte = Byte.newline
  · exact .inl hb
  refine .inr ?_
  obtain ⟨-, hmark, hrest⟩ := h.split
  have hquote : (Mode.code.behind (some x.byte) (a.map (·.byte))).QuoteOk :=
    Mode.QuoteOk.behind (show Mode.code.QuoteOk from trivial) _ _
  have hcode : ((Mode.code.behind (some x.byte) (a.map (·.byte))).read x.byte
      ((c :: rest).map (·.byte)).head?).2 = .code := by
    simp only [List.map_cons, Mode.cells, List.cons.injEq] at hrest
    exact Mode.eq_code_of_read ((congrArg Cell.mark hrest.1).trans hc) hb
  rcases Mode.closing_byte hquote (by rwa [hmark]) hcode with ⟨hblock, hbyte⟩ | hbyte
  · exact .inl ⟨hbyte, Mode.getLast?_of_behind hblock⟩
  · exact .inr hbyte

/-! ## Runs of plain code -/

/-- Bytes that open neither a comment nor a literal, whatever follows. -/
def isPlain (b : UInt8) : Bool :=
  !(b == Byte.slash || b == Byte.singleQuote || b == Byte.doubleQuote || b == Byte.backtick)

/-- Bytes as code cells. -/
def codeCells (bytes : Bytes) : List Cell :=
  bytes.map (⟨·, .code⟩)

@[simp] theorem codeCells_nil : codeCells [] = [] := rfl

@[simp] theorem codeCells_cons (b : UInt8) (bytes : Bytes) :
    codeCells (b :: bytes) = ⟨b, .code⟩ :: codeCells bytes := rfl

@[simp] theorem codeCells_append (a b : Bytes) : codeCells (a ++ b) = codeCells a ++ codeCells b :=
  List.map_append

@[simp] theorem map_byte_codeCells (bytes : Bytes) : (codeCells bytes).map (·.byte) = bytes := by
  rw [codeCells, List.map_map]
  exact List.map_id bytes

@[simp] theorem length_codeCells (bytes : Bytes) : (codeCells bytes).length = bytes.length := by
  simp [codeCells]

/-- The code cells of bytes are code and hold the bytes. -/
theorem mem_codeCells {bytes : Bytes} {c : Cell} :
    c ∈ codeCells bytes ↔ c.byte ∈ bytes ∧ c.mark = .code := by
  simp only [codeCells, List.mem_map]
  constructor
  · rintro ⟨b, hb, rfl⟩
    exact ⟨hb, rfl⟩
  · rintro ⟨hb, hc⟩
    exact ⟨c.byte, hb, by rw [← hc]⟩

/-- Plain bytes open nothing. -/
theorem opens?_eq_none {b : UInt8} (hb : isPlain b) (next : Option UInt8) :
    opens? b next = none := by
  simp only [isPlain, Bool.not_eq_true', Bool.or_eq_false_iff] at hb
  obtain ⟨⟨⟨h1, h2⟩, h3⟩, h4⟩ := hb
  simp only [opens?, h1, h2, h3, h4, Bool.or_self, Bool.false_eq_true, if_false]

/-- Plain bytes are code wherever code goes on. -/
theorem whole_codeCells {bytes : Bytes} (h : ∀ b ∈ bytes, isPlain b) : Whole (codeCells bytes) := by
  induction bytes with
  | nil => exact .nil
  | cons b bytes ih =>
    intro rest
    have hrest := ih (fun x hx => h x (List.mem_cons_of_mem _ hx)) rest
    simp only [map_byte_codeCells] at hrest
    rw [scan_eq_cells] at hrest
    rw [scan_eq_cells, codeCells_cons, List.map_cons, map_byte_codeCells, List.cons_append,
      Mode.cells, Mode.read, opens?_eq_none (h b (by simp)), hrest, List.cons_append]

/-- In a lexed run the plain bytes up to the first other one are code, and the rest is lexed. -/
theorem Lexed.of_plain {a rest : List Cell} (h : Lexed (a ++ rest))
    (ha : ∀ c ∈ a, isPlain c.byte) : a = codeCells (a.map (·.byte)) ∧ Lexed rest := by
  induction a with
  | nil => exact ⟨rfl, h⟩
  | cons c a ih =>
    have hc : c.mark = .code := by
      obtain ⟨-, hmark, -⟩ := Lexed.split (a := []) h
      rw [← hmark, List.map_nil, Mode.behind, Mode.read, opens?_eq_none (ha c (by simp))]
    obtain ⟨hcode, hrest⟩ := ih (Lexed.of_code (a := []) h hc)
      (fun x hx => ha x (List.mem_cons_of_mem _ hx))
    refine ⟨?_, hrest⟩
    rw [List.map_cons, codeCells_cons, ← hcode, ← hc]

end LogSweep.Lexical
