import LogSweep.Proofs.Block.Enclosing
import LogSweep.Proofs.Checked.Regions
import LogSweep.Proofs.Sweep.Placement

/-!
# Headers by checked reads

What can stand in front of the brace of a handler: a word that ends at a place (`endsWordAt?_eq`),
and a list in parentheses, whose first name is cut out of the text (`nameAt?_eq`). The name begins
behind a byte below 128 or the end of a comment (`isCut_of_significant`), and it ends in front of a
byte that belongs to no name, so no character is split.
-/

namespace LogSweep.Checked

open Lexical Block Call

/-- Whether a word ends at an offset, and is not the end of a longer name. -/
def endsWordAt? (text word : Bytes) (stop : Nat) : Option Bool :=
  if stop < word.length then some false else do
    let start := stop - word.length
    let found ← text.range? ⟨start, stop⟩
    if found != word then return false else do
      let inName ← text.precededBy? Byte.isName start
      return !inName

/-- The first significant byte in a range. -/
def firstCode? (text : Bytes) (rs : List Region) (i stop : Nat) : Option (Option Nat) :=
  if i < stop then
    if (regionAt? rs i).isNone then do
      let b ← text[i]?
      if Byte.isBlank b then firstCode? text rs (i + 1) stop else return some i
    else firstCode? text rs (i + 1) stop
  else some none
termination_by stop - i

/-- The name that begins at the first significant byte in a range, if one does. -/
def nameAt? (text : Bytes) (rs : List Region) (i stop : Nat) : Option (Option Bytes) := do
  match ← firstCode? text rs i stop with
  | none => return none
  | some start => do
    let listed ← text.range? ⟨start, stop⟩
    let length := (listed.takeWhile Byte.isName).length
    if length = 0 then return none else do
      let b ← text[start]?
      if Byte.isDigit b then return none else do
        let name ← text.cut? ⟨start, start + length⟩
        return some name

/-! ## Reading them -/

/-- Reading back from an offset tells whether a word ends there. -/
theorem endsWordAt?_append (front rest word : Bytes) :
    endsWordAt? (front ++ rest) word front.length =
      some (word.reverse.isPrefixOf front.reverse &&
        !(front.reverse.drop word.length).head?.any Byte.isName) := by
  rw [endsWordAt?]
  split
  · next hlt =>
    have hstarts : word.reverse.isPrefixOf front.reverse = false := by
      rw [← Bool.not_eq_true, List.isPrefixOf_iff_prefix]
      intro hstarts
      have := hstarts.length_le
      simp only [List.length_reverse] at this
      omega
    rw [hstarts, Bool.false_and]
  · next hle =>
    obtain ⟨lead, found, rfl, hfound⟩ : ∃ lead found, front = lead ++ found ∧
        found.length = word.length :=
      ⟨front.take (front.length - word.length), front.drop (front.length - word.length),
        (List.take_append_drop _ _).symm, by rw [List.length_drop]; omega⟩
    have hstart : (lead ++ found).length - word.length = lead.length := by
      rw [List.length_append]
      omega
    simp only [hstart, Bytes.range?_middle, Option.bind_eq_bind, Option.bind_some]
    by_cases hword : found = word
    · subst hword
      have hstarts : found.reverse.isPrefixOf (lead ++ found).reverse = true := by
        rw [List.isPrefixOf_iff_prefix, List.reverse_append]
        exact List.prefix_append _ _
      have hdrop : (lead ++ found).reverse.drop found.length = lead.reverse := by
        rw [List.reverse_append, ← List.length_reverse, List.drop_left]
      rw [if_neg (by simp), hstarts, hdrop, List.head?_reverse, List.append_assoc,
        Bytes.precededBy?_append]
      rfl
    · have hstarts : word.reverse.isPrefixOf (lead ++ found).reverse = false := by
        rw [← Bool.not_eq_true, List.isPrefixOf_iff_prefix, List.reverse_append]
        intro hstarts
        have heq := List.prefix_of_prefix_length_le hstarts (List.prefix_append _ _)
          (by simp [hfound])
        have := heq.eq_of_length (by simp [hfound])
        exact hword (List.reverse_inj.1 this).symm
      rw [if_pos (by simpa using hword), hstarts]
      rfl

/-- The word at a cell is the one that the cells up to it end with. -/
theorem endsWordAt?_eq {text : Bytes} {a b : List Cell} {x : Cell} (h : scan text = a ++ x :: b)
    (word : Bytes) : endsWordAt? text word (a.length + 1) =
      some (endsWithWord word.reverse (x :: a.reverse)) := by
  have htext : text = (a ++ [x]).map (·.byte) ++ b.map (·.byte) := by
    rw [← List.map_append, List.append_assoc, List.singleton_append, ← h, map_byte_scan]
  have hlength : a.length + 1 = ((a ++ [x]).map (·.byte)).length := by simp
  rw [hlength, htext, endsWordAt?_append, endsWithWord_eq, List.length_reverse, ← List.map_reverse,
    List.reverse_append]
  rfl

section
variable {text : Bytes}

/-- The first significant offset is looked for behind what is not significant. -/
theorem firstCode?_skip {a g b : List Cell} (h : scan text = a ++ (g ++ b)) {stop : Nat}
    (hstop : (a ++ g).length ≤ stop) (hg : ∀ y ∈ g, y.isSignificant = false) :
    firstCode? text (regions text) a.length stop =
      firstCode? text (regions text) (a ++ g).length stop := by
  induction g generalizing a with
  | nil => rw [List.append_nil]
  | cons y g ih =>
    obtain ⟨hy, hg⟩ := List.forall_mem_cons.1 hg
    have hrest := @ih (a ++ [y]) (by rw [h]; simp) (by simpa using hstop) hg
    have hlt : a.length < stop := by
      simp only [List.length_append, List.length_cons] at hstop
      omega
    have hcell : text[a.length]? = some y.byte := getElem?_of_scan h
    have hregion := regionAt?_eq_none_iff h
    rw [← List.append_cons, List.length_append, List.length_singleton] at hrest
    rw [firstCode?, if_pos hlt, ← hrest]
    split
    · next hcode =>
      have hcode : y.isCode = true := by
        rw [Cell.isCode, beq_iff_eq]
        exact hregion.1 (Option.isNone_iff_eq_none.1 hcode)
      have hblank : Byte.isBlank y.byte = true := by
        simpa [Cell.isSignificant, hcode] using hy
      rw [hcell, Option.bind_eq_bind, Option.bind_some, if_pos hblank]
    · rfl

/-- A significant cell is the first one from its offset on. -/
theorem firstCode?_of_significant {a b : List Cell} {x : Cell} (h : scan text = a ++ x :: b)
    {stop : Nat} (hstop : a.length < stop) (hx : x.isSignificant = true) :
    firstCode? text (regions text) a.length stop = some (some a.length) := by
  obtain ⟨hcode, hblank⟩ := Bool.and_eq_true_iff.1 hx
  have hcell : text[a.length]? = some x.byte := getElem?_of_scan h
  have hregion : regionAt? (regions text) a.length = none :=
    (regionAt?_eq_none_iff h).2 (by simpa [Cell.isCode] using hcode)
  rw [firstCode?, if_pos hstop, hregion, hcell]
  simp only [Option.isNone_none, if_true, Option.bind_eq_bind, Option.bind_some]
  rw [if_neg (by simpa using hblank)]
  rfl

/-- A character begins at the first significant byte behind a byte below 128: what stands in front
of it is that byte, white space, or the end of a comment or literal. -/
theorem isCut_of_significant (htext : Aligned text) {a g b : List Cell} {x : Cell}
    (h : scan text = a ++ (g ++ x :: b)) (hx : x.isSignificant = true)
    (hg : ∀ y ∈ g, y.isSignificant = false) (ha : ∀ c, a.getLast? = some c → c.byte < 128) :
    IsCut text (a ++ g).length := by
  have hbytes : text = (a ++ g).map (·.byte) ++ (x :: b).map (·.byte) := by
    rw [← List.map_append, List.append_assoc, ← h, map_byte_scan]
  have hlast : ∀ c, (a ++ g).getLast? = some c → c.byte < 128 := by
    intro c hc
    rcases List.eq_nil_or_concat g with rfl | ⟨init, y, rfl⟩
    · exact ha c (by simpa using hc)
    · rw [List.concat_eq_append, ← List.append_assoc, List.getLast?_concat, Option.some.injEq] at hc
      rw [← hc]
      have hy : y.isSignificant = false := hg y (by simp)
      cases hcode : y.isCode with
      | true =>
        have hblank : Byte.isBlank y.byte = true := by
          simpa [Cell.isSignificant, hcode] using hy
        simp only [Byte.isBlank, Bool.or_eq_true, beq_iff_eq] at hblank
        rcases hblank with (((hb | hb) | hb) | hb) | hb <;> rw [hb] <;> decide
      | false =>
        obtain ⟨hxcode, hxblank⟩ := Bool.and_eq_true_iff.1 hx
        have hlex : Lexed (a ++ init ++ y :: x :: b) := by
          have := h ▸ Lexed.scan text
          simpa using this
        have hend := hlex.region_end (by simpa [Cell.isCode] using hcode)
          (by simpa [Cell.isCode] using hxcode)
        rcases hend with hb | ⟨hb, -⟩ | hb | hb | hb
        · rw [hb] at hxblank
          cases hxblank
        all_goals
          rw [hb]
          decide
  have hboundary : Bytes.isBoundary text.toArray ((a ++ g).map (·.byte)).length = true := by
    rw [hbytes] at htext ⊢
    refine htext.isBoundary fun b hb => ?_
    rw [List.getLast?_map] at hb
    obtain ⟨c, hc, rfl⟩ := Option.map_eq_some_iff.1 hb
    exact hlast c hc
  refine ⟨?_, by rwa [List.length_map] at hboundary⟩
  rw [hbytes]
  simp

/-- No character is split in front of a byte that continues none. -/
theorem isCut_of_byte {a b : List Cell} {x : Cell} (h : scan text = a ++ x :: b)
    (hx : Byte.isContinuation x.byte = false) : IsCut text a.length := by
  have hbytes : text = a.map (·.byte) ++ x.byte :: b.map (·.byte) := by
    rw [← List.map_cons, ← List.map_append, ← h, map_byte_scan]
  have hboundary := Bytes.isBoundary_before (a.map (·.byte)) (b.map (·.byte)) hx
  rw [← hbytes, List.length_map] at hboundary
  refine ⟨?_, hboundary⟩
  rw [length_of_scan h]
  exact Nat.le_add_right _ _

/-- Between two cuts that split no character the bytes of the cells can be read. -/
theorem cut?_of_scan {a b c : List Cell} (h : scan text = a ++ b ++ c)
    (hstart : IsCut text a.length) (hstop : IsCut text (a ++ b).length) :
    text.cut? ⟨a.length, (a ++ b).length⟩ = some (b.map (·.byte)) := by
  rw [Bytes.cut?_eq_range? hstart.2 hstop.2, range?_of_scan h]

/-- Bytes that are no part of a name begin a character: the bytes in the middle of one count as
parts of names. -/
theorem not_isContinuation_of_not_isName {b : UInt8} (h : Byte.isName b = false) :
    Byte.isContinuation b = false := by
  simp only [Byte.isName, Bool.or_eq_false_iff] at h
  rw [Byte.isContinuation, h.2, Bool.false_and]

/-- A name ends in front of a byte that belongs to no name, and so can be cut out. -/
theorem cut?_takeWhile_isName {a m b : List Cell} {x : Cell} (h : scan text = a ++ (m ++ x :: b))
    (hx : Byte.isName x.byte = false) (hstart : IsCut text a.length) :
    text.cut? ⟨a.length, a.length + ((m.map (·.byte)).takeWhile Byte.isName).length⟩ =
      some ((m.map (·.byte)).takeWhile Byte.isName) := by
  obtain ⟨n, r, rfl, hn, hr⟩ := skip_split Byte.isName m
  have hname : ((n ++ r).map (·.byte)).takeWhile Byte.isName = n.map (·.byte) := by
    have hrest : (r.map (·.byte)).takeWhile Byte.isName = [] := by
      cases r with
      | nil => rfl
      | cons c r => rw [List.map_cons, List.takeWhile_cons_of_neg (by simpa using hr c rfl)]
    rw [List.map_append, List.takeWhile_append_of_pos (List.forall_mem_map.2 hn), hrest,
      List.append_nil]
  have hcells : scan text = a ++ n ++ (r ++ x :: b) := by
    rw [h]
    simp
  have hstop : IsCut text (a ++ n).length := by
    cases r with
    | nil => exact isCut_of_byte hcells (not_isContinuation_of_not_isName hx)
    | cons c r => exact isCut_of_byte hcells (not_isContinuation_of_not_isName (hr c rfl))
  rw [hname, List.length_map, ← List.length_append, cut?_of_scan hcells hstart hstop]

/-- The first name of a list in parentheses. -/
theorem nameAt?_eq (htext : Aligned text) {a listed b : List Cell} {p x : Cell}
    (h : scan text = a ++ p :: (listed ++ x :: b)) (hp : p.byte = Byte.openParen)
    (hx : x.byte = Byte.closeParen) :
    nameAt? text (regions text) (a.length + 1) (a ++ p :: listed).length =
      some (firstName? listed) := by
  obtain ⟨g, m, rfl, hg, hm⟩ : ∃ g m, listed = g ++ m ∧ (∀ y ∈ g, y.isSignificant = false) ∧
      listed.dropWhile (!·.isSignificant) = m :=
    ⟨_, _, (List.takeWhile_append_dropWhile (p := (!·.isSignificant))).symm,
      fun y hy => by simpa using List.mem_takeWhile_imp hy, rfl⟩
  have hstop : (a ++ p :: (g ++ m)).length = (a ++ [p] ++ g ++ m).length := by simp
  have hskip := @firstCode?_skip text (a ++ [p]) g (m ++ x :: b) (by rw [h]; simp)
    (a ++ [p] ++ g ++ m).length (by simp) hg
  rw [List.length_append, List.length_singleton] at hskip
  rw [nameAt?, hstop, hskip, firstName?, hm]
  cases m with
  | nil =>
    rw [firstCode?, if_neg (by simp)]
    rfl
  | cons y m =>
    have hy : y.isSignificant = true := by
      have := List.head?_dropWhile_not (!·.isSignificant) (g ++ y :: m)
      rw [hm] at this
      simpa using this
    have hplace : scan text = (a ++ [p] ++ g) ++ (y :: m ++ x :: b) := by
      rw [h]
      simp
    have hread := range?_of_scan (hplace.trans (List.append_assoc ..).symm)
    have hbyte : text[(a ++ [p] ++ g).length]? = some y.byte := getElem?_of_scan hplace
    have hbefore : ∀ c, (a ++ [p]).getLast? = some c → c.byte < 128 := by
      intro c hc
      rw [List.getLast?_concat, Option.some.injEq] at hc
      rw [← hc, hp]
      decide
    have hcut := cut?_takeWhile_isName hplace (by rw [hx]; rfl)
      (isCut_of_significant htext (hplace.trans (List.append_assoc ..)) hy hg hbefore)
    rw [firstCode?_of_significant hplace (by simp) hy]
    simp only [Option.bind_eq_bind, Option.bind_some, hread, hbyte, hcut]
    cases hname : ((y :: m).map (·.byte)).takeWhile Byte.isName with
    | nil => rfl
    | cons c name =>
      obtain rfl : c = y.byte := by
        rw [List.map_cons, List.takeWhile_cons] at hname
        split at hname
        · exact (List.cons.inj hname).1.symm
        · cases hname
      cases hdigit : Byte.isDigit y.byte <;> simp [hdigit]

end

end LogSweep.Checked
