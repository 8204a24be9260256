import LogSweep.Proofs.Lexical.Regions

/-!
# Cutting a text

A text may be cut in two and each part read for itself, as long as no comment or literal reaches
across the cut (`scan_append`). The scanner sees one byte beyond the cut, which only a slash in code
makes use of, and then what it opens does reach across. In front of the cut it is back in code, or
it is in a line comment that ends there: the second part then begins with the newline, which is code
whether it ends a comment or not. The regions of the whole are then those of the parts, moved with
their cells (`regionsFrom_behind`).
-/

namespace LogSweep.Lexical

/-! ## The end of a part -/

namespace Mode

/-- A mode in no region is code. -/
theorem eq_code_of_kind? {mode : Mode} (h : mode.kind? = none) : mode = .code := by
  cases mode with
  | code => rfl
  | line | blockSlash | block | quoted => cases h

/-- A byte that leaves the scanner in code is read the same at the end of a text. -/
theorem read_last {mode : Mode} {b : UInt8} {next : Option UInt8}
    (h : (mode.read b next).2 = .code) : mode.read b none = mode.read b next := by
  by_cases hslash : (mode.read b next).1 = .code ∧ b = Byte.slash
  · -- a slash in code stays a slash in code when nothing follows it
    obtain ⟨hmark, rfl⟩ := hslash
    have hread : mode.read Byte.slash next = (.code, .code) := Prod.ext hmark h
    rw [hread, eq_code_of_read hmark (by decide)]
    rfl
  · exact read_blind none h hslash

/-- A text behind which the scanner is in code reads as it does at the end. -/
theorem cells_last {mode : Mode} {next : Option UInt8} {text : Bytes}
    (h : mode.behind next text = .code) : mode.cells none text = mode.cells next text := by
  induction text generalizing mode with
  | nil => rfl
  | cons b text ih =>
    cases text with
    | nil =>
      have hread := read_last (h : (mode.read b next).2 = .code)
      simp only [cells, List.head?_nil, Option.none_or, hread]
    | cons b' text =>
      simp only [behind, cells, List.head?_cons, Option.some_or] at *
      rw [ih h]

/-- From a newline on the rest of a text reads the same in a line comment as in code. -/
theorem cells_newline {mode : Mode} {text : Bytes}
    (h : (mode.read Byte.newline text.head?).1 = .code) :
    mode.cells none (Byte.newline :: text) = scan (Byte.newline :: text) := by
  rw [scan_eq_cells, cells, cells, Option.or_none, code_read h]

end Mode

/-! ## Reading part by part -/

/-- A region reaches across an offset: it starts in front of it and ends behind it. -/
def Region.Crosses (r : Region) (offset : Nat) : Prop :=
  r.span.start < offset ∧ offset < r.span.stop

/-- A region of a text that has `n` more bytes in front. -/
def Region.behind (n : Nat) (r : Region) : Region :=
  ⟨r.kind, ⟨n + r.span.start, n + r.span.stop⟩⟩

section
variable {a b : Bytes}

/-- A text is read part by part when no region reaches across the cut. -/
theorem scan_append (h : ∀ r ∈ regions (a ++ b), ¬ r.Crosses a.length) :
    scan (a ++ b) = scan a ++ scan b := by
  cases b with
  | nil => simp
  | cons x b =>
    have hsplit : scan (a ++ x :: b) = Mode.code.cells (some x) a ++
        (Mode.code.behind (some x) a).cells none (x :: b) := by
      rw [scan_eq_cells, Mode.cells_append]
      rfl
    rw [hsplit, scan_eq_cells a]
    cases hkind : (Mode.code.behind (some x) a).kind? with
    | none =>
      have hcode := Mode.eq_code_of_kind? hkind
      rw [hcode, Mode.cells_last hcode, scan_eq_cells]
    | some kind =>
      rcases Mode.read_inside hkind x b.head? with ⟨hread, rfl⟩ | ⟨hmark, -⟩
      · -- a line comment ends at the cut
        rw [Mode.cells_some (by decide) (by decide), Mode.cells_newline (by rw [hread])]
      · -- the first byte behind the cut belongs to what was opened in front of it
        exfalso
        have hcell : (scan (a ++ x :: b))[a.length]? = some ⟨x, .inside kind⟩ := by
          rw [hsplit, List.getElem?_append_right (by simp), Mode.length_cells, Nat.sub_self,
            Mode.cells, Option.or_none, hmark]
          rfl
        obtain ⟨r, hr, hstart, hstop⟩ := (parted_scan _).exists_region_of_isInside 0 hcell rfl
        rw [Nat.zero_add] at hstart hstop
        exact h r hr ⟨hstart, hstop⟩

end

/-- Regions move with their cells. -/
theorem regionsFrom_behind (n offset : Nat) (found : List Region) (cells : List Cell) :
    regionsFrom (n + offset) (found.map (Region.behind n)) cells =
      (regionsFrom offset found cells).map (Region.behind n) := by
  induction cells generalizing offset found with
  | nil => rw [regionsFrom, regionsFrom, List.map_reverse]
  | cons c cells ih =>
    have hextend : Region.extend (found.map (Region.behind n)) =
        (Region.extend found).map (Region.behind n) := by
      cases found <;> rfl
    simp only [regionsFrom, Nat.add_assoc]
    cases c.mark with
    | code => exact ih (offset + 1) found
    | opening kind => exact ih (offset + 1) (⟨kind, ⟨offset, offset + 1⟩⟩ :: found)
    | inside kind => rw [hextend]; exact ih (offset + 1) _

/-- The regions of a text are the regions of its first part followed by those of the second, moved
behind the first, if and only if none of them reaches across the cut. -/
theorem regions_append_iff (a b : Bytes) :
    regions (a ++ b) = regions a ++ (regions b).map (Region.behind a.length) ↔
      ∀ r ∈ regions (a ++ b), ¬ r.Crosses a.length := by
  constructor
  · rintro h r hr ⟨hstart, hstop⟩
    rw [h, List.mem_append, List.mem_map] at hr
    rcases hr with hr | ⟨r, -, rfl⟩
    · have := (parted_scan a).span_of_mem hr
      rw [length_scan] at this
      omega
    · exact absurd hstart (Nat.not_lt.2 (Nat.le_add_right _ _))
  · intro h
    have hbehind := regionsFrom_behind a.length 0 [] (scan b)
    rw [regions, scan_append h, (parted_scan a).regionsFrom_append (parted_scan b), length_scan,
      Nat.zero_add]
    exact congrArg (regions a ++ ·) hbehind

/-- A cut between two slashes takes a comment apart that neither part has. -/
example : regions (.ofString "a/" ++ .ofString "/b") = [⟨.lineComment, ⟨1, 4⟩⟩] ∧
    regions (.ofString "a/") = [] ∧ regions (.ofString "/b") = [] := by
  decide +kernel

end LogSweep.Lexical
