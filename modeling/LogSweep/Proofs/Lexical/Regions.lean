import LogSweep.Lexical.Region
import LogSweep.Proofs.Lexical.Compose

/-!
# Regions of lexed cells

Lexed cells are code and whole comments and literals in turn (`Parted`), so the regions of a text
can be collected part by part (`Parted.regionsFrom_append`). What the regions hold does not depend
on where the cells stand: it is read off the cells alone (`pieces`). Code is exactly what no region
covers (`regionAt?_eq_none_iff`).
-/

namespace LogSweep.Lexical

/-! ## Code and regions in turn -/

/-- Code cells and whole comments and literals, in any order. -/
inductive Parted : List Cell → Prop
  | nil : Parted []
  | code {b : UInt8} {rest : List Cell} (hrest : Parted rest) : Parted (⟨b, .code⟩ :: rest)
  | region {kind : Kind} {b : UInt8} {body rest : List Cell}
      (hbody : ∀ c ∈ body, c.mark = .inside kind) (hrest : Parted rest) :
      Parted (⟨b, .opening kind⟩ :: (body ++ rest))

/-- Two parted runs make a parted one. -/
theorem Parted.append {a b : List Cell} (ha : Parted a) (hb : Parted b) : Parted (a ++ b) := by
  induction ha with
  | nil => exact hb
  | code _ ih => exact .code ih
  | region hbody _ ih =>
    rw [List.cons_append, List.append_assoc]
    exact .region hbody ih

/-- Code is parted. -/
theorem parted_codeCells (bytes : Bytes) : Parted (codeCells bytes) := by
  induction bytes with
  | nil => exact .nil
  | cons b bytes ih => exact .code ih

/-- The comment or literal that a mode is inside of. -/
def Mode.kind? : Mode → Option Kind
  | .code => none
  | .line => some .lineComment
  | .blockSlash | .block _ => some .blockComment
  | .quoted quote _ => some (quotedKind quote)

/-- The mode behind what opens a region is one of its kind. -/
theorem kind?_of_opens {b : UInt8} {next : Option UInt8} {kind : Kind} {mode : Mode}
    (h : opens? b next = some (kind, mode)) : mode.kind? = some kind := by
  unfold opens? at h
  split at h
  · split at h <;> cases h <;> rfl
  · split at h <;> cases h
    rfl

/-- A byte read inside a comment or literal belongs to it, and the scanner stays inside or is back
in code; only a newline ends a line comment and is code itself. -/
theorem Mode.read_inside {mode : Mode} {kind : Kind} (h : mode.kind? = some kind) (b : UInt8)
    (next : Option UInt8) :
    mode.read b next = (.code, .code) ∧ b = Byte.newline ∨
      (mode.read b next).1 = .inside kind ∧
        ((mode.read b next).2 = .code ∨ (mode.read b next).2.kind? = some kind) := by
  cases mode with
  | code => cases h
  | line =>
    cases h
    by_cases hb : b = Byte.newline
    · exact .inl ⟨by simp [read, hb], hb⟩
    · exact .inr (by simp [read, hb, kind?])
  | blockSlash =>
    cases h
    exact .inr ⟨rfl, .inr rfl⟩
  | block star =>
    cases h
    refine .inr ⟨rfl, ?_⟩
    simp only [read]
    split
    · exact .inl rfl
    · exact .inr rfl
  | quoted quote escaped =>
    cases h
    refine .inr ⟨rfl, ?_⟩
    simp only [read]
    split
    · exact .inr rfl
    · split
      · exact .inr rfl
      · split
        · exact .inl rfl
        · exact .inr rfl

/-- From inside a comment or literal the scanner reads the rest of it, and then what follows. -/
theorem Mode.cells_inside {mode : Mode} {kind : Kind} (h : mode.kind? = some kind) (text : Bytes) :
    ∃ body rest, mode.cells none text = body ++ scan rest ∧ rest.length ≤ text.length ∧
      ∀ c ∈ body, c.mark = .inside kind := by
  induction text generalizing mode with
  | nil => exact ⟨[], [], rfl, Nat.le_refl _, by simp⟩
  | cons b text ih =>
    rcases mode.read_inside h b (text.head?.or none) with ⟨hread, rfl⟩ | ⟨hmark, hmode⟩
    · refine ⟨[], Byte.newline :: text, ?_, Nat.le_refl _, by simp⟩
      rw [cells, hread, scan_eq_cells]
      rfl
    · rcases hmode with hmode | hmode
      · refine ⟨[⟨b, .inside kind⟩], text, ?_, by simp, by simp⟩
        rw [cells, hmark, hmode, scan_eq_cells]
        rfl
      · obtain ⟨body, rest, hcells, hlen, hbody⟩ := ih hmode
        refine ⟨⟨b, .inside kind⟩ :: body, rest, ?_, by simp only [List.length_cons]; omega,
          by simpa using hbody⟩
        rw [cells, hmark, hcells]
        rfl

/-- A scan is parted. -/
theorem parted_scan (text : Bytes) : Parted (scan text) := by
  induction hn : text.length using Nat.strongRecOn generalizing text with
  | ind n ih =>
  subst hn
  cases text with
  | nil => exact .nil
  | cons b text =>
    rw [scan_eq_cells, Mode.cells, Mode.read]
    cases hopen : opens? b (text.head?.or none) with
    | none =>
      rw [← scan_eq_cells]
      exact .code (ih text.length (by simp) text rfl)
    | some p =>
      obtain ⟨kind, mode⟩ := p
      obtain ⟨body, rest, hcells, hlen, hbody⟩ := Mode.cells_inside (kind?_of_opens hopen) text
      simp only [hcells]
      exact .region hbody (ih rest.length (by rw [List.length_cons]; omega) rest rfl)

/-- A lexed run is parted. -/
theorem Lexed.parted {cells : List Cell} (h : Lexed cells) : Parted cells := by
  rw [← h]
  exact parted_scan _

/-! ## Collecting regions -/

/-- The last region grows by the cells that go on inside it. -/
theorem regionsFrom_body {kind : Kind} {body : List Cell}
    (hbody : ∀ c ∈ body, c.mark = .inside kind) (start stop : Nat) (found : List Region)
    (rest : List Cell) :
    regionsFrom stop (⟨kind, ⟨start, stop⟩⟩ :: found) (body ++ rest) =
      regionsFrom (stop + body.length) (⟨kind, ⟨start, stop + body.length⟩⟩ :: found) rest := by
  induction body generalizing stop with
  | nil => rfl
  | cons c body ih =>
    have hlen : stop + (c :: body).length = stop + 1 + body.length := by
      simp only [List.length_cons]
      omega
    rw [List.cons_append, regionsFrom, hbody c (by simp), hlen,
      ← ih (fun x hx => hbody x (List.mem_cons_of_mem _ hx))]
    rfl

/-- Regions that were found before stay as they are in front of parted cells. -/
theorem Parted.regionsFrom_eq {cells : List Cell} (h : Parted cells) (offset : Nat)
    (found : List Region) :
    regionsFrom offset found cells = found.reverse ++ regionsFrom offset [] cells := by
  induction h generalizing offset found with
  | nil => simp [regionsFrom]
  | code _ ih =>
    rw [regionsFrom, regionsFrom]
    exact ih _ _
  | region hbody _ ih =>
    simp only [regionsFrom]
    rw [regionsFrom_body hbody, regionsFrom_body hbody, ih, ih _ [_]]
    simp

theorem regionsFrom_code (offset : Nat) (b : UInt8) (cells : List Cell) :
    regionsFrom offset [] (⟨b, .code⟩ :: cells) = regionsFrom (offset + 1) [] cells := rfl

/-- A region of parted cells is found whole. -/
theorem Parted.regionsFrom_region {kind : Kind} {b : UInt8} {body rest : List Cell}
    (hbody : ∀ c ∈ body, c.mark = .inside kind) (hrest : Parted rest) (offset : Nat) :
    regionsFrom offset [] (⟨b, .opening kind⟩ :: (body ++ rest)) =
      ⟨kind, ⟨offset, offset + 1 + body.length⟩⟩ ::
        regionsFrom (offset + 1 + body.length) [] rest := by
  simp only [regionsFrom]
  rw [regionsFrom_body hbody, hrest.regionsFrom_eq]
  rfl

/-- The regions of two runs, one behind the other. -/
theorem Parted.regionsFrom_append {a b : List Cell} (ha : Parted a) (hb : Parted b)
    (offset : Nat) : regionsFrom offset [] (a ++ b) =
      regionsFrom offset [] a ++ regionsFrom (offset + a.length) [] b := by
  induction ha generalizing offset with
  | nil => rfl
  | @code x rest _ ih =>
    rw [List.cons_append, regionsFrom_code, ih, regionsFrom_code, List.length_cons, Nat.add_assoc,
      Nat.add_comm 1]
  | @region kind x body rest hbody hrest ih =>
    rw [List.cons_append, List.append_assoc, regionsFrom_region hbody (hrest.append hb), ih,
      regionsFrom_region hbody hrest, List.cons_append, List.length_cons, List.length_append]
    congr 3
    omega

/-- A region lies within its cells and is not empty. -/
theorem Parted.span_of_mem {cells : List Cell} (h : Parted cells) {offset : Nat} {r : Region}
    (hr : r ∈ regionsFrom offset [] cells) :
    offset ≤ r.span.start ∧ r.span.start < r.span.stop ∧ r.span.stop ≤ offset + cells.length := by
  induction h generalizing offset with
  | nil => cases hr
  | code _ ih =>
    rw [regionsFrom_code] at hr
    have := ih hr
    simp only [List.length_cons]
    omega
  | region hbody hrest ih =>
    rw [regionsFrom_region hbody hrest] at hr
    simp only [List.length_cons, List.length_append]
    rcases List.mem_cons.1 hr with rfl | hr
    · simp only
      omega
    · have := ih hr
      omega

@[simp] theorem regionsFrom_codeCells (offset : Nat) (bytes : Bytes) :
    regionsFrom offset [] (codeCells bytes) = [] := by
  induction bytes generalizing offset with
  | nil => rfl
  | cons b bytes ih => rw [codeCells_cons, regionsFrom_code, ih]

/-! ## What regions hold -/

/-- The kind of a region and the text that it covers. -/
def Region.content (text : Bytes) (r : Region) : Kind × Bytes :=
  (r.kind, Bytes.slice text r.span)

/-- The kinds and the texts of the comments and literals among cells. -/
def pieces : List Cell → List (Kind × Bytes)
  | [] => []
  | c :: cells =>
    match c.mark with
    | .opening kind => (kind, c.byte :: (cells.takeWhile (·.isInside)).map (·.byte)) :: pieces cells
    | _ => pieces cells

/-- What goes on inside a region begins no piece. -/
theorem pieces_body {kind : Kind} {body : List Cell} (hbody : ∀ c ∈ body, c.mark = .inside kind)
    (rest : List Cell) : pieces (body ++ rest) = pieces rest := by
  induction body with
  | nil => rfl
  | cons c body ih =>
    rw [List.cons_append, pieces, hbody c (by simp)]
    exact ih fun x hx => hbody x (List.mem_cons_of_mem _ hx)

/-- Parted cells do not go on inside of anything. -/
theorem Parted.takeWhile_inside {cells : List Cell} (h : Parted cells) :
    cells.takeWhile (·.isInside) = [] := by
  cases h <;> rfl

/-- A region of parted cells is one piece. -/
theorem pieces_region {kind : Kind} {b : UInt8} {body rest : List Cell}
    (hbody : ∀ c ∈ body, c.mark = .inside kind) (hrest : Parted rest) :
    pieces (⟨b, .opening kind⟩ :: (body ++ rest)) =
      (kind, (⟨b, .opening kind⟩ :: body).map (·.byte)) :: pieces rest := by
  have hinside : ∀ c ∈ body, c.isInside = true := fun c hc => by
    simp [Cell.isInside, hbody c hc]
  rw [pieces, pieces_body hbody, List.takeWhile_append_of_pos hinside, hrest.takeWhile_inside,
    List.append_nil]
  rfl

/-- The pieces of two parted runs. -/
theorem Parted.pieces_append {a b : List Cell} (ha : Parted a) (hb : Parted b) :
    pieces (a ++ b) = pieces a ++ pieces b := by
  induction ha with
  | nil => rfl
  | code _ ih => exact ih
  | region hbody hrest ih =>
    rw [List.cons_append, List.append_assoc, pieces_region hbody (hrest.append hb),
      pieces_region hbody hrest, ih, List.cons_append]

@[simp] theorem pieces_codeCells (bytes : Bytes) : pieces (codeCells bytes) = [] := by
  induction bytes with
  | nil => rfl
  | cons b bytes ih => exact ih

/-- The span of the middle one of three texts cuts it out. -/
theorem slice_middle (a b c : Bytes) :
    Bytes.slice (a ++ b ++ c) ⟨a.length, a.length + b.length⟩ = b := by
  rw [Bytes.slice, Nat.add_sub_cancel_left, List.append_assoc, List.drop_left, List.take_left]

/-- The contents of regions do not depend on what stands around them. -/
theorem Parted.map_content {cells : List Cell} (h : Parted cells) (pre post : List Cell) :
    (regionsFrom pre.length [] cells).map (Region.content ((pre ++ cells ++ post).map (·.byte))) =
      pieces cells := by
  induction h generalizing pre with
  | nil => rfl
  | @code b rest _ ih =>
    have := ih (pre ++ [⟨b, .code⟩])
    rw [regionsFrom_code]
    simpa [pieces] using this
  | @region kind b body rest hbody hrest ih =>
    have hslice : Bytes.slice
        ((pre ++ (⟨b, .opening kind⟩ :: (body ++ rest)) ++ post).map (·.byte))
        ⟨pre.length, pre.length + 1 + body.length⟩ =
          (⟨b, .opening kind⟩ :: body).map (·.byte) := by
      have := slice_middle (pre.map (·.byte))
        ((⟨b, .opening kind⟩ :: body : List Cell).map (·.byte)) ((rest ++ post).map (·.byte))
      simpa [Nat.add_assoc, Nat.add_comm 1] using this
    have := ih (pre ++ ⟨b, .opening kind⟩ :: body)
    rw [regionsFrom_region hbody hrest, pieces_region hbody hrest, List.map_cons, Region.content,
      hslice, ← this]
    simp [Nat.add_assoc, Nat.add_comm 1]

/-- The contents of the regions of a text. -/
theorem map_content_regions (text : Bytes) :
    (regions text).map (Region.content text) = pieces (scan text) := by
  have := (parted_scan text).map_content [] []
  rw [List.nil_append, List.append_nil, map_byte_scan] at this
  exact this

/-! ## What regions cover -/

/-- The place of a cell lies in a region of the cells that start at `offset`. -/
def Covered (offset : Nat) (cells : List Cell) (place : Nat) : Prop :=
  ∃ r ∈ regionsFrom offset [] cells, r.span.contains place = true

/-- A place in two parted runs is covered by a region of one of them. -/
theorem Parted.covered_append {a b : List Cell} (ha : Parted a) (hb : Parted b)
    (offset place : Nat) : Covered offset (a ++ b) place ↔
      Covered offset a place ∨ Covered (offset + a.length) b place := by
  rw [Covered, ha.regionsFrom_append hb]
  simp only [List.mem_append, or_and_right, exists_or]
  rfl

/-- What is covered lies within the cells. -/
theorem Parted.bounds_of_covered {cells : List Cell} (h : Parted cells) {offset place : Nat}
    (hcovered : Covered offset cells place) : offset ≤ place ∧ place < offset + cells.length := by
  obtain ⟨r, hr, hcontains⟩ := hcovered
  have := h.span_of_mem hr
  have := Span.contains_iff.1 hcontains
  omega

/-- A region covers its own cells. -/
theorem covered_region_iff {kind : Kind} {b : UInt8} {body : List Cell}
    (hbody : ∀ c ∈ body, c.mark = .inside kind) {offset place : Nat} :
    Covered offset (⟨b, .opening kind⟩ :: body) (offset + place) ↔ place < body.length + 1 := by
  have hfrom := Parted.regionsFrom_region (b := b) hbody .nil offset
  rw [List.append_nil] at hfrom
  rw [Covered, hfrom]
  simp only [regionsFrom, List.reverse_nil, List.mem_singleton, exists_eq_left, Span.contains,
    Bool.and_eq_true, decide_eq_true_eq]
  omega

/-- A region covers a place exactly when its cell is not code. -/
theorem Parted.covered_iff {a b : List Cell} {x : Cell} (h : Parted (a ++ x :: b)) (offset : Nat) :
    Covered offset (a ++ x :: b) (offset + a.length) ↔ x.mark ≠ .code := by
  generalize hcells : a ++ x :: b = cells at h
  induction h generalizing a offset with
  | nil => cases a <;> cases hcells
  | @code c rest hrest ih =>
    have happ := Parted.covered_append (a := [⟨c, .code⟩]) (.code .nil) hrest offset
      (offset + a.length)
    have hnone : ¬ Covered offset [⟨c, .code⟩] (offset + a.length) := by
      rintro ⟨r, hr, -⟩
      cases hr
    rw [List.singleton_append] at happ
    rw [happ, or_iff_right hnone, List.length_singleton]
    cases a with
    | nil =>
      obtain ⟨rfl, rfl⟩ := List.cons.inj hcells
      refine ⟨fun hcov => ?_, fun hne => absurd rfl hne⟩
      have := hrest.bounds_of_covered hcov
      simp only [List.length_nil] at this
      omega
    | cons y a =>
      have := ih (offset + 1) (List.cons.inj hcells).2
      rwa [Nat.add_assoc, Nat.add_comm 1] at this
  | @region kind c body rest hbody hrest ih =>
    have hregion : Parted (⟨c, .opening kind⟩ :: body) := by
      simpa using Parted.region (b := c) hbody .nil
    have happ := hregion.covered_append hrest offset (offset + a.length)
    rw [List.cons_append] at happ
    rw [← List.cons_append] at hcells
    rw [happ, covered_region_iff hbody]
    by_cases hlt : a.length < body.length + 1
    · -- the cell belongs to the region
      have hmem : x ∈ ⟨c, .opening kind⟩ :: body := by
        have hget : (⟨c, .opening kind⟩ :: body ++ rest)[a.length]? = some x := by
          rw [← hcells]
          simp
        rw [List.getElem?_append_left (by simpa using hlt)] at hget
        exact List.mem_of_getElem? hget
      refine iff_of_true (.inl hlt) ?_
      rcases List.mem_cons.1 hmem with rfl | hmem
      · exact Mark.noConfusion
      · rw [hbody x hmem]
        exact Mark.noConfusion
    · -- the cell stands behind the region
      obtain ⟨d, rfl⟩ : ⟨c, .opening kind⟩ :: body <+: a :=
        List.prefix_of_prefix_length_le (List.prefix_append _ rest)
          (hcells ▸ List.prefix_append a _) (by simpa using Nat.not_lt.1 hlt)
      rw [List.append_assoc] at hcells
      have := ih (offset + (⟨c, .opening kind⟩ :: body : List Cell).length)
        (List.append_cancel_left hcells)
      rw [or_iff_right hlt, ← this, List.length_append, Nat.add_assoc]

/-- A cell that continues a comment or literal stands strictly inside of its region. -/
theorem Parted.exists_region_of_isInside {cells : List Cell} (h : Parted cells) (offset : Nat)
    {place : Nat} {cell : Cell} (hcell : cells[place]? = some cell)
    (hinside : cell.isInside = true) :
    ∃ r ∈ regionsFrom offset [] cells, r.span.start < offset + place ∧
      offset + place < r.span.stop := by
  induction h generalizing offset place with
  | nil => cases hcell
  | @code b rest _ ih =>
    cases place with
    | zero =>
      cases hcell
      cases hinside
    | succ place =>
      obtain ⟨r, hr, hstart, hstop⟩ := ih (offset + 1) hcell
      rw [regionsFrom_code]
      exact ⟨r, hr, by omega, by omega⟩
  | @region kind b body rest hbody hrest ih =>
    rw [hrest.regionsFrom_region hbody]
    cases place with
    | zero =>
      cases hcell
      cases hinside
    | succ place =>
      rw [List.getElem?_cons_succ] at hcell
      rcases Nat.lt_or_ge place body.length with hlt | hge
      · exact ⟨_, List.mem_cons_self, by simp only; omega, by simp only; omega⟩
      · rw [List.getElem?_append_right hge] at hcell
        obtain ⟨r, hr, hstart, hstop⟩ := ih (offset + 1 + body.length) hcell
        exact ⟨r, List.mem_cons_of_mem _ hr, by omega, by omega⟩

/-- No region of a text covers a place exactly when its cell is code. -/
theorem regionAt?_eq_none_iff {text : Bytes} {a b : List Cell} {x : Cell}
    (h : scan text = a ++ x :: b) : regionAt? (regions text) a.length = none ↔ x.mark = .code := by
  have hcovered := (h ▸ parted_scan text).covered_iff 0
  rw [Nat.zero_add, ← h] at hcovered
  rw [regionAt?, List.find?_eq_none]
  constructor
  · intro hnone
    refine Decidable.byContradiction fun hne => ?_
    obtain ⟨r, hr, hcontains⟩ := hcovered.2 hne
    exact hnone r hr hcontains
  · intro hcode r hr hcontains
    exact hcovered.1 ⟨r, hr, hcontains⟩ hcode

end LogSweep.Lexical
