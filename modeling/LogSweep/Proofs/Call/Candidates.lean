import LogSweep.Proofs.Call.Run
import LogSweep.Proofs.Lexical.Regions

/-!
# Candidates

A place of a text is a candidate when the target is called there, as the text alone shows: it lies
in code, the target stands there and ends no longer name, and blanks and a parenthesis follow.
Candidates are the places that the search judges (`isCandidate_iff`). `calls` counts them over
cells, from left to right, so that the count of a text put together from parts is the sum of theirs
(`calls_append`).
-/

namespace LogSweep

open Lexical Block Call

/-- Whether the target is called at an offset of a text. -/
def isCandidate (target text : Bytes) (offset : Nat) : Bool :=
  (regionAt? (regions text) offset).isNone &&
  target.isPrefixOf (text.drop offset) &&
  ((text.take offset).getLast?.all fun b => !(Byte.isName b || b == Byte.dot)) &&
  ((text.drop (offset + target.length)).dropWhile Byte.isBlank).head? == some Byte.openParen

/-- The number of places of a text where the target is called. -/
def candidates (target text : Bytes) : Nat :=
  (List.range text.length).countP (isCandidate target text)

/-- Dropping bytes drops the cells that hold them. -/
theorem dropWhile_bytes {p : UInt8 → Bool} {a rest : List Cell} (ha : ∀ c ∈ a, p c.byte = true)
    (hrest : ∀ c, rest.head? = some c → p c.byte = false) :
    ((a ++ rest).map (·.byte)).dropWhile p = rest.map (·.byte) := by
  rw [List.map_append, List.dropWhile_append_of_pos (by simpa using ha)]
  cases rest with
  | nil => rfl
  | cons c rest => simp [hrest c rfl]

/-- The target is called between `pre` and `ahead`. -/
def Called (target : Bytes) (pre ahead : List Cell) : Prop :=
  ∃ blanks rest, CallAt target pre ahead blanks rest

/-- A candidate is a place where the search finds a call of the target. -/
theorem isCandidate_iff {target text : Bytes} (ht : Dotted target) {pre ahead : List Cell}
    (h : scan text = pre ++ ahead) :
    isCandidate target text pre.length = true ↔
      Called target pre ahead := by
  have htext : text = pre.map (·.byte) ++ ahead.map (·.byte) := by
    rw [← List.map_append, ← h, map_byte_scan]
  have hlen : pre.length = (pre.map (·.byte)).length := by rw [List.length_map]
  have htake : text.take pre.length = pre.map (·.byte) := by rw [htext, hlen, List.take_left]
  have hdrop : text.drop pre.length = ahead.map (·.byte) := by rw [htext, hlen, List.drop_left]
  have hended : ((text.take pre.length).getLast?.all fun b => !(Byte.isName b || b == Byte.dot)) =
      true ↔ Ended pre := by
    rw [htake, List.getLast?_map, Option.all_map]
    cases hlast : pre.getLast? with
    | none => simp [Ended, hlast]
    | some c => simp [Ended, hlast, isDottedByte]
  simp only [isCandidate, Bool.and_eq_true, beq_iff_eq, List.isPrefixOf_iff_prefix, hended,
    ← List.drop_drop, hdrop, Option.isNone_iff_eq_none]
  constructor
  · rintro ⟨⟨⟨hcode, more, hname⟩, hpre⟩, hopen⟩
    obtain ⟨name, rest, rfl, rfl, rfl⟩ := List.map_eq_append_iff.1 hname.symm
    obtain ⟨blanks, rest, rfl, hblank, hstop⟩ := skip_split Byte.isBlank rest
    rw [List.map_append, List.drop_left, dropWhile_bytes hblank hstop] at hopen
    cases rest with
    | nil => cases hopen
    | cons c rest =>
      have hlex : Lexed (name ++ (blanks ++ c :: rest)) := by
        obtain ⟨b, bytes, hb, -⟩ := ht.head
        cases name with
        | nil => cases hb
        | cons x name =>
          have hx := (regionAt?_eq_none_iff h).1 hcode
          exact Lexed.from_code (a := pre) (c := x) (h ▸ Lexed.scan text) hx
      exact ⟨_, rest, hpre, by simpa using hblank,
        call_cells ht hlex rfl hblank (Option.some.inj hopen)⟩
  · rintro ⟨blanks, rest, hpre, hblank, rfl⟩
    obtain ⟨b, bytes, hb, -⟩ := ht.head
    have hcode : regionAt? (regions text) pre.length = none := by
      rw [hb, codeCells_cons, List.cons_append, List.cons_append] at h
      exact (regionAt?_eq_none_iff h).2 rfl
    have hbytes : (codeCells target ++ codeCells blanks ++ ⟨Byte.openParen, .code⟩ :: rest).map
        (·.byte) = target ++ (blanks ++ Byte.openParen :: rest.map (·.byte)) := by
      simp
    rw [hbytes, List.drop_left, List.dropWhile_append_of_pos hblank]
    exact ⟨⟨⟨hcode, List.prefix_append _ _⟩, hpre⟩, rfl⟩

/-! ## Counting over cells -/

open Classical in
/-- One for a statement that holds. -/
noncomputable def tally (p : Prop) : Nat :=
  if p then 1 else 0

theorem tally_pos {p : Prop} (h : p) : tally p = 1 := if_pos h

theorem tally_neg {p : Prop} (h : ¬ p) : tally p = 0 := if_neg h

/-- The number of calls of the target that begin among cells; `pre` stands in front of them. -/
noncomputable def calls (target : Bytes) (pre : List Cell) : List Cell → Nat
  | [] => 0
  | c :: ahead => tally (Called target pre (c :: ahead)) + calls target (pre ++ [c]) ahead

/-- The candidates of a text are counted over its cells. -/
theorem candidates_eq {target : Bytes} (ht : Dotted target) (text : Bytes) :
    candidates target text = calls target [] (scan text) := by
  have hfrom : ∀ pre ahead, scan text = pre ++ ahead →
      (List.range' pre.length ahead.length).countP (isCandidate target text) =
        calls target pre ahead := by
    intro pre ahead h
    induction ahead generalizing pre with
    | nil => rfl
    | cons c ahead ih =>
      have hrest := ih (pre ++ [c]) (by simpa using h)
      rw [List.length_append, List.length_singleton] at hrest
      rw [List.length_cons, List.range'_succ, List.countP_cons, hrest, calls, Nat.add_comm]
      by_cases hcall : Called target pre (c :: ahead)
      · rw [tally_pos hcall, if_pos ((isCandidate_iff ht h).2 hcall)]
      · rw [tally_neg hcall, if_neg (mt (isCandidate_iff ht h).1 hcall)]
  have := hfrom [] (scan text) rfl
  rwa [length_scan, List.length_nil, ← List.range_eq_range'] at this

/-- Cells whose last significant one is no part of a name. No call that begins among them goes on
behind them. -/
def Sealed (cells : List Cell) : Prop :=
  ∀ a x g, cells = a ++ x :: g → x.isSignificant = true → (∀ y ∈ g, y.isSignificant = false) →
    isDottedByte x.byte = false

/-- The end of a sealed stretch is sealed. -/
theorem Sealed.of_append {a b : List Cell} (h : Sealed (a ++ b)) : Sealed b := by
  rintro a' x g rfl hx hg
  exact h (a ++ a') x g (by simp) hx hg

/-- A significant cell that no name goes on from seals what comes before. -/
theorem sealed_snoc {cells : List Cell} {c : Cell} (hc : c.isSignificant = true)
    (hb : isDottedByte c.byte = false) : Sealed (cells ++ [c]) := by
  intro a x g h hx hg
  rcases List.eq_nil_or_concat g with rfl | ⟨init, y, rfl⟩
  · rw [← (List.append_singleton_inj.1 h).2]
    exact hb
  · have hy : c = y := by
      rw [List.concat_eq_append, ← List.cons_append, ← List.append_assoc] at h
      exact (List.append_singleton_inj.1 h).2
    rw [← hy] at hg
    rw [hg c (by simp)] at hc
    cases hc

/-- Bytes of names and dots in code are significant. -/
theorem isSignificant_of_dotted {c : Cell} (hc : c.mark = .code) (hb : isDottedByte c.byte = true) :
    c.isSignificant = true := by
  cases hblank : Byte.isBlank c.byte with
  | false => simp [Cell.isSignificant, Cell.isCode, hc, hblank]
  | true =>
    rw [not_isDottedByte_of_isBlank hblank] at hb
    cases hb

/-- What follows the call in its statement has no byte of a name and no dot. -/
theorem Call.Statement.undotted_tail (s : Statement) :
    ∀ c ∈ Statement.tailCells s.tail, isDottedByte c.byte = false := by
  intro c hc
  cases htail : s.tail with
  | none =>
    rw [htail] at hc
    cases hc
  | some bytes =>
    rw [htail] at hc
    rcases List.mem_append.1 hc with hc | hc
    · exact not_isDottedByte_of_isBlank (isBlank_of_isHorizontal
        (s.isHorizontal bytes htail _ (mem_codeCells.1 hc).1))
    · rw [List.mem_singleton.1 hc]
      rfl

section
variable {target : Bytes} (ht : Dotted target) {pre pre' a b cells : List Cell} {c : Cell}

/-- The calls in some cells depend on the cells before them only by whether these end a name. -/
theorem calls_congr (h : Ended pre ↔ Ended pre') :
    calls target pre cells = calls target pre' cells := by
  induction cells generalizing pre pre' with
  | nil => rfl
  | cons c cells ih =>
    have hcall : Called target pre (c :: cells) ↔ Called target pre' (c :: cells) :=
      ⟨fun ⟨blanks, rest, hcall⟩ => ⟨blanks, rest, h.1 hcall.boundary, hcall.blank, hcall.ahead_eq⟩,
        fun ⟨blanks, rest, hcall⟩ =>
          ⟨blanks, rest, h.2 hcall.boundary, hcall.blank, hcall.ahead_eq⟩⟩
    have hrest : calls target (pre ++ [c]) cells = calls target (pre' ++ [c]) cells :=
      ih (by rw [ended_snoc, ended_snoc])
    rw [calls, calls, hrest, propext hcall]

/-- Places that no name goes on behind are all alike. -/
theorem calls_of_ended (h : Ended pre) : calls target pre cells = calls target [] cells :=
  calls_congr ⟨fun _ => .nil, fun _ => h⟩

/-- In a name only its beginning can begin a call. -/
theorem calls_name {name : Bytes} (hname : Dotted name) :
    calls target pre (codeCells name ++ cells) =
      tally (Called target pre (codeCells name ++ cells)) +
        calls target (pre ++ codeCells name) cells := by
  have hlater : ∀ (pre : List Cell) (c : Cell) (bytes : Bytes), isDottedByte c.byte = true →
      (∀ b ∈ bytes, isDottedByte b = true) → calls target (pre ++ [c]) (codeCells bytes ++ cells) =
        calls target (pre ++ [c] ++ codeCells bytes) cells := by
    intro pre c bytes hc hbytes
    induction bytes generalizing pre c with
    | nil => simp
    | cons b bytes ih =>
      have hcall : ¬ Called target (pre ++ [c]) (⟨b, .code⟩ :: (codeCells bytes ++ cells)) :=
        fun ⟨_, _, hcall⟩ => not_callAt_of_dotted hc hcall
      rw [codeCells_cons, List.cons_append, calls, tally_neg hcall, Nat.zero_add,
        ih (pre ++ [c]) ⟨b, .code⟩ (hbytes b (by simp))
          (fun x hx => hbytes x (List.mem_cons_of_mem _ hx))]
      simp
  obtain ⟨b, bytes, rfl, hb⟩ := hname.head
  rw [codeCells_cons, List.cons_append, calls, hlater pre ⟨b, .code⟩ bytes
    (hname.isDottedByte (by simp)) fun x hx => hname.isDottedByte (List.mem_cons_of_mem _ hx)]
  simp

include ht

/-- A call that begins in sealed cells comes to its parenthesis in them. -/
theorem callAt_append_iff (hsealed : Sealed (c :: a)) {blanks : Bytes} {rest : List Cell} :
    CallAt target pre (c :: a ++ b) blanks rest ↔
      ∃ d, rest = d ++ b ∧ CallAt target pre (c :: a) blanks d := by
  constructor
  · rintro ⟨hpre, hblank, heq⟩
    -- otherwise the last significant cell is one of the name
    have hname : ∀ name e : List Cell, name ≠ [] → (∀ x ∈ name, x ∈ codeCells target) →
        (∀ x ∈ e, x.isSignificant = false) → c :: a ≠ name ++ e := by
      intro name e hne hmem he hcells
      obtain ⟨init, z, rfl⟩ := (List.eq_nil_or_concat name).resolve_left hne
      obtain ⟨hz, hcode⟩ := mem_codeCells.1 (hmem z (by simp))
      have hdotted := ht.isDottedByte hz
      have := hsealed init z e (by rw [hcells]; simp) (isSignificant_of_dotted hcode hdotted) he
      rw [hdotted] at this
      cases this
    have hne : codeCells target ≠ [] := by
      obtain ⟨x, bytes, rfl, -⟩ := ht.head
      exact List.cons_ne_nil _ _
    have hblanks : ∀ x ∈ codeCells blanks, x.isSignificant = false := fun x hx => by
      simp [Cell.isSignificant, hblank _ (mem_codeCells.1 hx).1]
    rcases List.append_eq_append_iff.1 heq with ⟨d, hd, -⟩ | ⟨d, hd, hd'⟩
    · exfalso
      rcases List.append_eq_append_iff.1 hd with ⟨e, he, he'⟩ | ⟨e, he, -⟩
      · exact hname _ e hne (fun x hx => hx) (fun x hx => hblanks x (by rw [he']; simp [hx])) he
      · refine hname (c :: a) [] (List.cons_ne_nil c a) (fun x hx => ?_) (by simp) (by simp)
        rw [he]
        exact List.mem_append_left e hx
    · cases d with
      | nil =>
        exact absurd (by simpa using hd)
          (hname _ (codeCells blanks) hne (fun x hx => hx) hblanks)
      | cons y d =>
        obtain ⟨rfl, rfl⟩ := List.cons.inj hd'
        exact ⟨d, rfl, hpre, hblank, hd⟩
  · rintro ⟨d, rfl, hpre, hblank, heq⟩
    exact ⟨hpre, hblank, by rw [heq]; simp⟩

/-- A call that begins in sealed cells lies in them. -/
theorem called_append (hsealed : Sealed (c :: a)) :
    Called target pre (c :: a ++ b) ↔ Called target pre (c :: a) := by
  constructor
  · rintro ⟨blanks, rest, hcall⟩
    obtain ⟨d, -, hd⟩ := (callAt_append_iff ht hsealed).1 hcall
    exact ⟨blanks, d, hd⟩
  · rintro ⟨blanks, rest, hcall⟩
    exact ⟨blanks, rest ++ b, (callAt_append_iff ht hsealed).2 ⟨rest, rfl, hcall⟩⟩

/-- The calls of two runs, one behind the other. -/
theorem calls_append (hsealed : Sealed a) :
    calls target pre (a ++ b) = calls target pre a + calls target (pre ++ a) b := by
  induction a generalizing pre with
  | nil => simp [calls]
  | cons c a ih =>
    have hcall : Called target pre (c :: (a ++ b)) ↔ Called target pre (c :: a) :=
      called_append ht hsealed
    rw [List.cons_append, calls, calls, propext hcall, ih (Sealed.of_append (a := [c]) hsealed),
      Nat.add_assoc, List.append_assoc]
    rfl

/-- A byte outside of names is passed over. -/
theorem calls_skip (hc : isDottedByte c.byte = false) :
    calls target pre (c :: cells) = calls target [] cells := by
  have hcall : ¬ Called target pre (c :: cells) := by
    rintro ⟨blanks, rest, -, -, heq⟩
    obtain ⟨b, bytes, hb, hname⟩ := ht.head
    rw [hb] at heq
    rw [(List.cons.inj heq).1, isDottedByte, hname] at hc
    cases hc
  have hended : Ended (pre ++ [c]) := ended_snoc.2 hc
  rw [calls, tally_neg hcall, calls_of_ended hended, Nat.zero_add]

/-- So are several. -/
theorem calls_skips (ha : ∀ c ∈ a, isDottedByte c.byte = false) (hpre : Ended pre) :
    calls target pre (a ++ cells) = calls target [] cells := by
  induction a generalizing pre with
  | nil => exact calls_of_ended hpre
  | cons c a ih =>
    rw [List.cons_append, calls_skip ht (ha c (by simp))]
    exact ih (fun x hx => ha x (List.mem_cons_of_mem _ hx)) .nil

/-- A call shows which function it calls. -/
theorem called_name_iff {name blanks : Bytes} (hname : Dotted name)
    (hpre : Ended pre) (hblank : ∀ b ∈ blanks, Byte.isBlank b) :
    Called target pre (codeCells name ++ (codeCells blanks ++ ⟨Byte.openParen, .code⟩ :: cells)) ↔
      name = target := by
  have htake : ∀ (name blanks rest : Bytes), Dotted name → (∀ b ∈ blanks, Byte.isBlank b) →
      (name ++ (blanks ++ Byte.openParen :: rest)).takeWhile isDottedByte = name := by
    intro name blanks rest hname hblank
    have hstop : (blanks ++ Byte.openParen :: rest).takeWhile isDottedByte = [] := by
      cases blanks with
      | nil => rfl
      | cons b blanks =>
        simp [not_isDottedByte_of_isBlank (hblank b (by simp))]
    rw [List.takeWhile_append_of_pos fun b hb => hname.isDottedByte hb, hstop, List.append_nil]
  constructor
  · rintro ⟨blanks', rest, -, hblank', heq⟩
    have hbytes := congrArg (List.map (·.byte)) heq
    simp only [List.map_append, List.map_cons, map_byte_codeCells, List.append_assoc] at hbytes
    rw [← htake name blanks (cells.map (·.byte)) hname hblank, hbytes, htake _ _ _ ht hblank']
  · rintro rfl
    exact ⟨blanks, cells, hpre, hblank, by rw [List.append_assoc]⟩

/-- Behind a name nothing begins before its parenthesis. -/
theorem calls_behind_name {blanks : Bytes} (hblank : ∀ b ∈ blanks, Byte.isBlank b)
    (hc : isDottedByte c.byte = false) :
    calls target pre (codeCells blanks ++ c :: cells) = calls target [] (c :: cells) := by
  cases blanks with
  | nil => rw [codeCells_nil, List.nil_append, calls_skip ht hc, calls_skip ht hc]
  | cons b blanks =>
    rw [codeCells_cons, List.cons_append, calls_skip ht (not_isDottedByte_of_isBlank
      (hblank b (by simp)))]
    refine calls_skips ht (fun x hx => not_isDottedByte_of_isBlank (hblank _ ?_)) .nil
    exact List.mem_cons_of_mem _ (mem_codeCells.1 hx).1

/-- The calls in a statement: the statement itself if it calls the target, and those in its
arguments. -/
theorem calls_statement {function : Bytes} (hf : Dotted function) (s : Statement)
    (hpre : Ended pre) : calls target pre (s.cells function ++ cells) =
      tally (function = target) + (calls target [] s.group + calls target [] cells) := by
  have hsealed : Sealed s.group := sealed_snoc rfl rfl
  have hended : Ended s.group := ended_snoc.2 rfl
  calc calls target pre (s.cells function ++ cells)
      = calls target pre (codeCells function ++ (codeCells s.blanks ++
          (s.group ++ (Statement.tailCells s.tail ++ cells)))) := by simp [s.cells_eq]
    _ = tally (function = target) + calls target (pre ++ codeCells function)
          (codeCells s.blanks ++ (s.group ++ (Statement.tailCells s.tail ++ cells))) := by
        rw [calls_name hf, ← propext (called_name_iff ht hf hpre s.isBlank)]
        rfl
    _ = tally (function = target) +
          calls target [] (s.group ++ (Statement.tailCells s.tail ++ cells)) :=
        congrArg (tally _ + ·) (calls_behind_name ht s.isBlank rfl)
    _ = tally (function = target) + (calls target [] s.group + calls target [] cells) := by
        rw [calls_append ht hsealed, List.nil_append, calls_skips ht s.undotted_tail hended]

end

end LogSweep
