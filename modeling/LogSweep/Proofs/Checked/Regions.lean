import LogSweep.Proofs.Lexical.Regions
import LogSweep.Proofs.Text.Reads

/-!
# Regions by checked reads

The scanner again, this time as a walk by offsets: every byte is read at its place, and the end of a
comment or literal is looked up from where it begins. A read beyond the text ends the walk without a
result, and so does a region that ends where it begins. None of this ever happens, and the walk
collects the regions of the text (`regions?_eq`).
-/

namespace LogSweep.Lexical

/-! ## Where the cells of a text can be parted -/

/-- Cells can be parted wherever no comment or literal goes on. -/
theorem Parted.split {a b : List Cell} (h : Parted (a ++ b))
    (hb : ∀ c, b.head? = some c → c.isInside = false) : Parted a ∧ Parted b := by
  generalize hcells : a ++ b = cells at h
  induction h generalizing a with
  | nil =>
    obtain ⟨rfl, rfl⟩ := List.append_eq_nil_iff.1 hcells
    exact ⟨.nil, .nil⟩
  | @code x rest hrest ih =>
    cases a with
    | nil =>
      rw [List.nil_append] at hcells
      rw [hcells]
      exact ⟨.nil, .code hrest⟩
    | cons y a =>
      obtain ⟨rfl, htail⟩ := List.cons.inj hcells
      obtain ⟨ha, hb⟩ := ih htail
      exact ⟨.code ha, hb⟩
  | @region kind x body rest hbody hrest ih =>
    cases a with
    | nil =>
      rw [List.nil_append] at hcells
      rw [hcells]
      exact ⟨.nil, .region hbody hrest⟩
    | cons y a =>
      obtain ⟨rfl, htail⟩ := List.cons.inj hcells
      rcases List.append_eq_append_iff.1 htail with ⟨d, rfl, rfl⟩ | ⟨d, rfl, hd⟩
      · -- what is left of the region would go on behind the cut
        cases d with
        | nil =>
          rw [List.append_nil] at hbody
          have hregion := Parted.region (b := x) hbody .nil
          rw [List.append_nil] at hregion
          exact ⟨hregion, hrest⟩
        | cons c d =>
          have hinside : c.isInside = true := by simp [Cell.isInside, hbody c (by simp)]
          rw [hb c rfl] at hinside
          cases hinside
      · obtain ⟨hd', hb'⟩ := ih hd.symm
        exact ⟨.region hbody hd', hb'⟩

/-- Parted cells do not begin in the middle of a region. -/
theorem Parted.not_isInside {cells : List Cell} (h : Parted cells) :
    ∀ c, cells.head? = some c → c.isInside = false := by
  intro c hc
  cases h with
  | nil => cases hc
  | code | region =>
    cases hc
    rfl

/-- The cells of a text, cut where no comment or literal goes on. -/
structure Parting (text : Bytes) (pre ahead : List Cell) : Prop where
  scan_eq : scan text = pre ++ ahead
  pre : Parted pre
  ahead : Parted ahead

section
variable {text : Bytes} {pre ahead : List Cell}

/-- The cells of a text are as many as its bytes. -/
theorem length_of_scan (h : scan text = pre ++ ahead) :
    text.length = pre.length + ahead.length := by
  rw [← length_scan, h, List.length_append]

/-- The bytes from an offset on are those of the cells from there on. -/
theorem drop_of_scan (h : scan text = pre ++ ahead) :
    text.drop pre.length = ahead.map (·.byte) := by
  rw [← map_byte_scan text, h, List.map_append, ← List.length_map (f := (·.byte)), List.drop_left]

/-- The byte at an offset is that of the cell there. -/
theorem getElem?_of_scan (h : scan text = pre ++ ahead) :
    text[pre.length]? = ahead.head?.map (·.byte) := by
  rw [← List.head?_drop, drop_of_scan h, List.head?_map]

/-- The byte before an offset is that of the cell before it. -/
theorem precededBy?_of_scan (p : UInt8 → Bool) (h : scan text = pre ++ ahead) :
    text.precededBy? p pre.length = some (pre.getLast?.any (p ·.byte)) := by
  have hread := Bytes.precededBy?_append p (pre.map (·.byte)) (ahead.map (·.byte))
  rw [← List.map_append, ← h, map_byte_scan, List.length_map, List.getLast?_map,
    Option.any_map] at hread
  exact hread

/-- The bytes of the cells between two places can be read. -/
theorem range?_of_scan {a b c : List Cell} (h : scan text = a ++ b ++ c) :
    text.range? ⟨a.length, (a ++ b).length⟩ = some (b.map (·.byte)) := by
  have hread := Bytes.range?_middle (a.map (·.byte)) (b.map (·.byte)) (c.map (·.byte))
  rw [← List.map_append, ← List.map_append, ← h, map_byte_scan, List.length_map,
    List.length_map] at hread
  exact hread

/-- The start of a text lies in no region. -/
theorem Parting.start (text : Bytes) : Parting text [] (scan text) :=
  ⟨rfl, .nil, parted_scan text⟩

/-- A place whose cell is not inside of a region parts a text. -/
theorem Parting.of_scan (h : scan text = pre ++ ahead)
    (hahead : ∀ c, ahead.head? = some c → c.isInside = false) : Parting text pre ahead := by
  obtain ⟨hpre, hahead⟩ := (h ▸ parted_scan text).split hahead
  exact ⟨h, hpre, hahead⟩

/-- From lexed cells on no comment or literal goes on. -/
theorem Parting.of_lexed (h : scan text = pre ++ ahead) (hahead : Lexed ahead) :
    Parting text pre ahead :=
  .of_scan h hahead.parted.not_isInside

/-- A byte of code leads from one such place to the next. -/
theorem Parting.code {b : UInt8} (h : Parting text pre (⟨b, .code⟩ :: ahead)) :
    Parting text (pre ++ [⟨b, .code⟩]) ahead := by
  refine ⟨by rw [h.scan_eq, List.append_cons], h.pre.append (.code .nil), ?_⟩
  cases h.ahead with
  | code hrest => exact hrest

/-- So does a whole region. -/
theorem Parting.region {kind : Kind} {b : UInt8} {body : List Cell}
    (h : Parting text pre (⟨b, .opening kind⟩ :: (body ++ ahead)))
    (hbody : ∀ c ∈ body, c.mark = .inside kind) (hrest : Parted ahead) :
    Parting text (pre ++ ⟨b, .opening kind⟩ :: body) ahead := by
  have hregion := Parted.region (b := b) hbody .nil
  rw [List.append_nil] at hregion
  exact ⟨by rw [h.scan_eq, List.append_assoc, List.cons_append], h.pre.append hregion, hrest⟩

/-- The regions of a text on both sides of a cut. -/
theorem Parting.regions_eq (h : Parting text pre ahead) :
    regions text = regionsFrom 0 [] pre ++ regionsFrom pre.length [] ahead := by
  rw [regions, h.scan_eq, h.pre.regionsFrom_append h.ahead, Nat.zero_add]

/-- No region holds an offset of code. -/
theorem Parting.regionAt?_code {b : UInt8} (h : Parting text pre (⟨b, .code⟩ :: ahead)) :
    regionAt? (regions text) pre.length = none :=
  (regionAt?_eq_none_iff h.scan_eq).2 rfl

/-- The region that opens at an offset is the one that holds it. -/
theorem Parting.regionAt?_region {kind : Kind} {b : UInt8} {body : List Cell}
    (h : Parting text pre (⟨b, .opening kind⟩ :: (body ++ ahead)))
    (hbody : ∀ c ∈ body, c.mark = .inside kind) (hrest : Parted ahead) :
    regionAt? (regions text) pre.length =
      some ⟨kind, ⟨pre.length, (pre ++ ⟨b, .opening kind⟩ :: body).length⟩⟩ := by
  have hbefore : regionAt? (regionsFrom 0 [] pre) pre.length = none := by
    rw [regionAt?, List.find?_eq_none]
    intro r hr hcontains
    have := h.pre.span_of_mem hr
    have := Span.contains_iff.1 hcontains
    omega
  rw [regionAt?] at hbefore
  rw [h.regions_eq, hrest.regionsFrom_region hbody, regionAt?, List.find?_append, hbefore]
  have hlength : (pre ++ ⟨b, .opening kind⟩ :: body).length = pre.length + 1 + body.length := by
    simp only [List.length_append, List.length_cons]
    omega
  rw [hlength, Option.none_or, List.find?_cons_of_pos]
  exact Span.contains_iff.2 ⟨Nat.le_refl _, by simp only; omega⟩

end

end LogSweep.Lexical

namespace LogSweep.Checked

open Lexical

/-- The offset of the first byte of a value from `start` on, or else the end of the text. -/
def seek? (text : Bytes) (b : UInt8) (start : Nat) : Option Nat := do
  let rest ← text.range? ⟨min start text.length, text.length⟩
  return match rest.findIdx? (· == b) with
    | some i => start + i
    | none => text.length

/-- The offset behind the star and slash that end a block comment. -/
def blockEnd? (text : Bytes) (i : Nat) : Option Nat :=
  if i + 1 < text.length then do
    let b ← text[i]?
    let next ← text[i + 1]?
    if b == Byte.star && next == Byte.slash then return i + 2
    else blockEnd? text (i + 1)
  else some text.length
termination_by text.length - i

/-- The offset behind the quote that ends a literal; a backslash takes the byte behind it along. -/
def quoteEnd? (text : Bytes) (quote : UInt8) (i : Nat) : Option Nat :=
  if i < text.length then do
    let b ← text[i]?
    if b == Byte.backslash then quoteEnd? text quote (i + 2)
    else if b == quote then return i + 1
    else quoteEnd? text quote (i + 1)
  else some text.length
termination_by text.length - i

/-- The end of what a byte at the offset opens. -/
def regionEnd? (text : Bytes) (i : Nat) : Mode → Option Nat
  | .line => seek? text Byte.newline (i + 2)
  | .blockSlash => blockEnd? text (i + 2)
  | .quoted quote _ => quoteEnd? text quote (i + 1)
  | .code | .block _ => none

/-- The regions from an offset on. -/
def regionsFrom? (text : Bytes) (i : Nat) : Option (List Region) :=
  if i < text.length then do
    let b ← text[i]?
    match opens? b text[i + 1]? with
    | none => regionsFrom? text (i + 1)
    | some (kind, mode) => do
      let stop ← regionEnd? text i mode
      if i < stop then do
        let rest ← regionsFrom? text stop
        return ⟨kind, ⟨i, stop⟩⟩ :: rest
      else none
  else some []
termination_by text.length - i

/-- The regions of a text. -/
def regions? (text : Bytes) : Option (List Region) :=
  regionsFrom? text 0

/-! ## Ends of regions -/

/-- How far the comment or literal reaches that a mode is inside of. -/
def reach (mode : Mode) (text : Bytes) : Nat :=
  ((mode.cells none text).takeWhile (·.isInside)).length

/-- A region that a byte leaves open reaches one further than it does behind the byte. -/
theorem reach_cons {mode mode' : Mode} {b : UInt8} {text : Bytes} {kind : Kind}
    (h : mode.read b text.head? = (.inside kind, mode')) :
    reach mode (b :: text) = reach mode' text + 1 := by
  rw [reach, Mode.cells, Option.or_none, h, List.takeWhile_cons_of_pos rfl]
  rfl

/-- Nothing reaches on in code. -/
theorem reach_code (text : Bytes) : reach .code text = 0 := by
  rw [reach, ← scan_eq_cells, (parted_scan text).takeWhile_inside]
  rfl

theorem reach_nil (mode : Mode) : reach mode [] = 0 := rfl

/-- A line comment reaches to the next newline. -/
theorem reach_line (text : Bytes) :
    reach .line text = (text.findIdx? (· == Byte.newline)).getD text.length := by
  induction text with
  | nil => rfl
  | cons b text ih =>
    by_cases hb : b = Byte.newline
    · subst hb
      rfl
    · have hread : Mode.line.read b text.head? = (.inside .lineComment, .line) := by
        simp [Mode.read, hb]
      rw [reach_cons hread, ih, List.findIdx?_cons, beq_eq_false_iff_ne.2 hb]
      cases text.findIdx? (· == Byte.newline) with
      | none => rfl
      | some i => rfl

/-- A line comment reaches to the newline that is sought. -/
theorem seek?_newline {text : Bytes} {i : Nat} (hi : i ≤ text.length) :
    seek? text Byte.newline i = some (i + reach .line (text.drop i)) := by
  rw [seek?, Nat.min_eq_left hi, Bytes.range?_end hi, reach_line, List.length_drop,
    Option.bind_eq_bind, Option.bind_some]
  cases (text.drop i).findIdx? (· == Byte.newline) with
  | none =>
    show some text.length = some (i + (text.length - i))
    rw [Nat.add_sub_of_le hi]
  | some n => rfl

/-- A star that no slash follows makes no difference. -/
theorem reach_block_true {text : Bytes} (h : text.head? ≠ some Byte.slash) :
    reach (.block true) text = reach (.block false) text := by
  cases text with
  | nil => rfl
  | cons b text =>
    have hb : (b == Byte.slash) = false := by simpa using h
    have hread : (Mode.block true).read b text.head? =
        (.inside .blockComment, .block (b == Byte.star)) := by
      simp [Mode.read, hb]
    rw [reach_cons hread, reach_cons rfl]
    rfl

/-- Within a text there is a byte to read, and the rest begins with it. -/
theorem drop_eq_cons {text : Bytes} {i : Nat} (h : i < text.length) :
    ∃ b, text[i]? = some b ∧ text.drop i = b :: text.drop (i + 1) :=
  ⟨text[i], List.getElem?_eq_getElem h, List.drop_eq_getElem_cons h⟩

/-- A block comment reaches to the end that is sought for it. -/
theorem blockEnd?_eq {text : Bytes} {i : Nat} (hi : i ≤ text.length) :
    blockEnd? text i = some (i + reach (.block false) (text.drop i)) := by
  induction hn : text.length - i using Nat.strongRecOn generalizing i with
  | ind n ih =>
  subst hn
  rw [blockEnd?]
  split
  · next hlt =>
    obtain ⟨b, hb, hdrop⟩ := drop_eq_cons (Nat.lt_of_succ_lt hlt)
    obtain ⟨next, hnext, hdrop'⟩ := drop_eq_cons hlt
    have hrest := ih (text.length - (i + 1)) (by omega) (Nat.le_of_lt hlt) rfl
    have hread : (Mode.block false).read b (text.drop (i + 1)).head? =
        (.inside .blockComment, .block (b == Byte.star)) := rfl
    rw [hb, hnext, hdrop, reach_cons hread, Option.bind_eq_bind, Option.bind_some,
      Option.bind_some]
    by_cases hstar : b = Byte.star
    · subst hstar
      by_cases hslash : next = Byte.slash
      · subst hslash
        have hend : (Mode.block true).read Byte.slash (text.drop (i + 1 + 1)).head? =
            (.inside .blockComment, .code) := rfl
        rw [beq_self_eq_true, hdrop', reach_cons hend, reach_code]
        rfl
      · rw [if_neg (by simp [hslash]), beq_self_eq_true,
          reach_block_true (by simp [hdrop', hslash]), hrest, Nat.add_right_comm]
        rfl
    · rw [if_neg (by simp [hstar]), beq_eq_false_iff_ne.2 hstar, hrest, Nat.add_right_comm]
      rfl
  · next hge =>
    -- at most one byte is left, and it closes nothing
    rcases Nat.lt_or_ge i text.length with hlt | hle
    · obtain ⟨b, -, hdrop⟩ := drop_eq_cons hlt
      have hnil : text.drop (i + 1) = [] := List.drop_eq_nil_of_le (by omega)
      rw [hdrop, hnil, reach_cons rfl, reach_nil]
      congr 1
      omega
    · rw [List.drop_eq_nil_of_le hle, reach_nil]
      congr 1
      omega

/-- A literal reaches to the end that is sought for it. -/
theorem quoteEnd?_eq {text : Bytes} {quote : UInt8} {i : Nat} (hi : i ≤ text.length) :
    quoteEnd? text quote i = some (i + reach (.quoted quote false) (text.drop i)) := by
  induction hn : text.length - i using Nat.strongRecOn generalizing i with
  | ind n ih =>
  subst hn
  rw [quoteEnd?]
  split
  · next hlt =>
    obtain ⟨b, hb, hdrop⟩ := drop_eq_cons hlt
    have hrest : quoteEnd? text quote (i + 1) =
        some (i + 1 + reach (.quoted quote false) (text.drop (i + 1))) :=
      ih (text.length - (i + 1)) (by omega) hlt rfl
    rw [hb, hdrop, Option.bind_eq_bind, Option.bind_some]
    by_cases hback : b = Byte.backslash
    · subst hback
      have hread : (Mode.quoted quote false).read Byte.backslash (text.drop (i + 1)).head? =
          (.inside (quotedKind quote), .quoted quote true) := rfl
      rw [beq_self_eq_true, if_pos rfl, reach_cons hread]
      rcases Nat.lt_or_ge (i + 1) text.length with hlt' | hge
      · obtain ⟨next, -, hdrop'⟩ := drop_eq_cons hlt'
        have htaken : (Mode.quoted quote true).read next (text.drop (i + 1 + 1)).head? =
            (.inside (quotedKind quote), .quoted quote false) := rfl
        have hbehind : quoteEnd? text quote (i + 2) =
            some (i + 2 + reach (.quoted quote false) (text.drop (i + 1 + 1))) :=
          ih (text.length - (i + 2)) (by omega) hlt' rfl
        rw [hdrop', reach_cons htaken, hbehind, Nat.add_right_comm]
        rfl
      · -- the backslash is the last byte, and there is nothing to take
        rw [List.drop_eq_nil_of_le hge, reach_nil, quoteEnd?, if_neg (by omega)]
        congr 1
        omega
    · rw [beq_eq_false_iff_ne.2 hback, if_neg Bool.false_ne_true]
      by_cases hquote : b = quote
      · subst hquote
        have hread : (Mode.quoted b false).read b (text.drop (i + 1)).head? =
            (.inside (quotedKind b), .code) := by simp [Mode.read, hback]
        rw [beq_self_eq_true, if_pos rfl, reach_cons hread, reach_code]
        rfl
      · have hread : (Mode.quoted quote false).read b (text.drop (i + 1)).head? =
            (.inside (quotedKind quote), .quoted quote false) := by
          simp [Mode.read, hback, hquote]
        rw [beq_eq_false_iff_ne.2 hquote, if_neg Bool.false_ne_true, reach_cons hread, hrest,
          Nat.add_right_comm]
        rfl
  · next hge =>
    rw [List.drop_eq_nil_of_le (Nat.not_lt.1 hge), reach_nil]
    congr 1
    omega

/-- A byte opens a region only in code. -/
theorem opens_of_read {mode : Mode} {b : UInt8} {next : Option UInt8} {kind : Kind}
    (h : (mode.read b next).1 = .opening kind) :
    opens? b next = some (kind, (mode.read b next).2) := by
  cases mode with
  | code =>
    simp only [Mode.read] at h ⊢
    split at h
    · next hopen =>
      cases h
      exact hopen
    · cases h
  | line =>
    simp only [Mode.read] at h
    split at h <;> cases h
  | blockSlash | block | quoted => cases h

/-- A byte that is read as code opens no region. -/
theorem opens?_of_code {mode : Mode} {b : UInt8} {next : Option UInt8}
    (h : (mode.read b next).1 = .code) : opens? b next = none := by
  have hread := congrArg Prod.fst (Mode.code_read h)
  rw [h, Mode.read] at hread
  split at hread
  · cases hread
  · next hopen => exact hopen

/-- What a byte opens ends where the scanner is back in code. -/
theorem regionEnd?_eq {text : Bytes} {b : UInt8} {i : Nat} {kind : Kind} {mode : Mode}
    (hb : text[i]? = some b) (h : opens? b text[i + 1]? = some (kind, mode)) :
    regionEnd? text i mode = some (i + 1 + reach mode (text.drop (i + 1))) := by
  have hi : i < text.length := (List.getElem?_eq_some_iff.1 hb).1
  unfold opens? at h
  split at h
  · split at h
    · next hnext =>
      cases h
      have hlt : i + 1 < text.length := (List.getElem?_eq_some_iff.1 hnext).1
      obtain ⟨next, hnext', hdrop⟩ := drop_eq_cons hlt
      have hread : Mode.line.read next (text.drop (i + 1 + 1)).head? =
          (.inside .lineComment, .line) := by
        cases hnext.symm.trans hnext'
        rfl
      have hseek : seek? text Byte.newline (i + 1 + 1) =
          some (i + 1 + 1 + reach .line (text.drop (i + 1 + 1))) := seek?_newline hlt
      rw [regionEnd?, hseek, hdrop, reach_cons hread, Nat.add_right_comm]
      rfl
    · next hnext =>
      cases h
      have hlt : i + 1 < text.length := (List.getElem?_eq_some_iff.1 hnext).1
      obtain ⟨next, -, hdrop⟩ := drop_eq_cons hlt
      have hread : Mode.blockSlash.read next (text.drop (i + 1 + 1)).head? =
          (.inside .blockComment, .block false) := rfl
      have hblock : blockEnd? text (i + 1 + 1) =
          some (i + 1 + 1 + reach (.block false) (text.drop (i + 1 + 1))) := blockEnd?_eq hlt
      rw [regionEnd?, hblock, hdrop, reach_cons hread, Nat.add_right_comm]
      rfl
    · cases h
  · split at h
    · cases h
      rw [regionEnd?, quoteEnd?_eq hi]
    · cases h

/-! ## The walk -/

/-- The regions found by checked reads from a place on are those of the cells from there on. -/
theorem regionsFrom?_eq {text : Bytes} {pre ahead : List Cell} (h : Parting text pre ahead) :
    regionsFrom? text pre.length = some (regionsFrom pre.length [] ahead) := by
  have hahead := h.ahead
  induction hahead generalizing pre with
  | nil =>
    rw [regionsFrom?, if_neg]
    · rfl
    · rw [length_of_scan h.scan_eq]
      simp
  | @code b rest hrest ih =>
    have hlt : pre.length < text.length := by
      rw [length_of_scan h.scan_eq, List.length_cons]
      omega
    have hb : text[pre.length]? = some b := getElem?_of_scan h.scan_eq
    have hnext : text[pre.length + 1]? = (rest.map (·.byte)).head? := by
      have := getElem?_of_scan h.code.scan_eq
      rwa [List.length_append, List.length_singleton, ← List.head?_map] at this
    have hopen : opens? b text[pre.length + 1]? = none := by
      have hlex : Lexed (pre ++ ⟨b, .code⟩ :: rest) := h.scan_eq ▸ Lexed.scan text
      rw [hnext]
      exact opens?_of_code hlex.split.2.1
    have hrest := ih h.code
    rw [List.length_append, List.length_singleton] at hrest
    rw [regionsFrom?, if_pos hlt, hb, Option.bind_eq_bind, Option.bind_some, hopen]
    exact hrest
  | @region kind b body rest hbody hrest ih =>
    have hlt : pre.length < text.length := by
      rw [length_of_scan h.scan_eq, List.length_cons]
      omega
    have hb : text[pre.length]? = some b := getElem?_of_scan h.scan_eq
    have hnext : text.drop (pre.length + 1) = (body ++ rest).map (·.byte) := by
      rw [← List.drop_drop, drop_of_scan h.scan_eq]
      rfl
    have hlex : Lexed (pre ++ ⟨b, .opening kind⟩ :: (body ++ rest)) := h.scan_eq ▸ Lexed.scan text
    obtain ⟨-, hmark, hcells⟩ := hlex.split
    have hopen := opens_of_read hmark
    generalize ((Mode.code.behind _ _).read _ _).2 = mode at hopen hcells
    rw [← hnext, List.head?_drop] at hopen
    have hreach : reach mode (text.drop (pre.length + 1)) = body.length := by
      have hinside : ∀ c ∈ body, c.isInside = true := fun c hc => by
        simp [Cell.isInside, hbody c hc]
      rw [reach, hnext, hcells, List.takeWhile_append_of_pos hinside, hrest.takeWhile_inside,
        List.append_nil]
    have hstop := regionEnd?_eq hb hopen
    have htail := ih (h.region hbody hrest)
    have hlength : (pre ++ ⟨b, .opening kind⟩ :: body).length = pre.length + 1 + body.length := by
      simp only [List.length_append, List.length_cons]
      omega
    rw [hlength] at htail
    rw [hreach] at hstop
    rw [regionsFrom?, if_pos hlt, hb, Option.bind_eq_bind, Option.bind_some, hopen]
    simp only [hstop, Option.bind_eq_bind, Option.bind_some, htail]
    rw [if_pos (by omega), hrest.regionsFrom_region hbody]
    rfl

/-- Every read of the walk lies in the text, and the walk collects the regions. -/
theorem regions?_eq (text : Bytes) : regions? text = some (regions text) :=
  regionsFrom?_eq (.start text)

end LogSweep.Checked
