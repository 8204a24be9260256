import LogSweep.Proofs.Sweep.Placement

/-!
# Line breaks

A sweep adds a line break only in front of a redirected call that does not start its line. The break
is a copy of one in the text: of the first behind the call, or else of the last in front of it
(`lineBreak_cases`). A call that is stranded (`Stranded`) has neither, even if its arguments go over
several lines, and is given a newline alone. A text whose newlines all have a carriage return before
them keeps them so exactly when no call is stranded, as long as it has no other carriage returns.
-/

namespace LogSweep

open Lexical Block Call

/-! ## Texts with long line breaks -/

/-- Every newline has a carriage return before it. -/
def LongBreaks (text : Bytes) : Prop :=
  ∀ i < text.length, text[i]? = some Byte.newline →
    0 < i ∧ text[i - 1]? = some Byte.carriageReturn

instance (text : Bytes) : Decidable (LongBreaks text) :=
  inferInstanceAs (Decidable (∀ i < text.length, _))

/-- Every carriage return has a newline behind it. -/
def PairedReturns (text : Bytes) : Prop :=
  ∀ i < text.length, text[i]? = some Byte.carriageReturn → text[i + 1]? = some Byte.newline

instance (text : Bytes) : Decidable (PairedReturns text) :=
  inferInstanceAs (Decidable (∀ i < text.length, _))

/-- A call is redirected to a line of its own in a text without a line break outside the call. -/
def Stranded (text : Bytes) (site : Site) : Prop :=
  site.redirection.isSome = true ∧ site.startsLine = false ∧
    Byte.newline ∉ text.take site.start ∧ Byte.newline ∉ text.drop site.stop

instance (text : Bytes) (site : Site) : Decidable (Stranded text site) :=
  inferInstanceAs (Decidable (_ ∧ _))

/-- All line breaks are long when every newline comes behind a carriage return. -/
theorem longBreaks_iff {text : Bytes} :
    LongBreaks text ↔ Preceded (· = Byte.newline) (· = Byte.carriageReturn) text := by
  constructor
  · rintro h a _ b rfl rfl
    obtain ⟨hpos, hlast⟩ := h a.length (by simp) (by simp)
    rw [List.getElem?_append_left (Nat.sub_lt hpos Nat.one_pos)] at hlast
    exact ⟨_, List.getLast?_eq_getElem?.trans hlast, rfl⟩
  · intro h i hi hnewline
    have hsplit : text = text.take i ++ Byte.newline :: text.drop (i + 1) := by
      rw [← Option.some.inj ((List.getElem?_eq_getElem hi).symm.trans hnewline),
        List.getElem_cons_drop, List.take_append_drop]
    obtain ⟨_, hlast, rfl⟩ := h _ _ _ hsplit rfl
    rw [List.getLast?_take] at hlast
    split at hlast
    · cases hlast
    · next hne =>
      have hbefore : text[i - 1]?.isSome = true := by
        rw [List.getElem?_eq_getElem (by omega)]
        rfl
      rw [Option.or_of_isSome hbefore] at hlast
      exact ⟨Nat.pos_of_ne_zero hne, hlast⟩

section
variable {a b : Bytes}

/-- A carriage return stands before each newline. -/
theorem LongBreaks.getLast? (h : LongBreaks (a ++ Byte.newline :: b)) :
    a.getLast? = some Byte.carriageReturn := by
  obtain ⟨_, hlast, rfl⟩ := longBreaks_iff.1 h a _ b rfl rfl
  exact hlast

/-- Long line breaks stay long side by side. -/
theorem LongBreaks.append (ha : LongBreaks a) (hb : LongBreaks b) : LongBreaks (a ++ b) :=
  longBreaks_iff.2 ((longBreaks_iff.1 ha).append (longBreaks_iff.1 hb))

/-- The start of a text with long line breaks has long ones. -/
theorem LongBreaks.left (h : LongBreaks (a ++ b)) : LongBreaks a :=
  longBreaks_iff.2 (longBreaks_iff.1 h).left

/-- Only behind a carriage return can a cut take the first half of a line break away. -/
theorem LongBreaks.right (h : LongBreaks (a ++ b))
    (ha : a.getLast? ≠ some Byte.carriageReturn) : LongBreaks b :=
  longBreaks_iff.2 ((longBreaks_iff.1 h).right (by rintro _ hx rfl; exact ha hx))

/-- Without newlines there is nothing to ask for. -/
theorem longBreaks_of_not_mem (h : Byte.newline ∉ a) : LongBreaks a := by
  rw [longBreaks_iff]
  rintro pre _ rest rfl rfl
  exact absurd (by simp) h

/-- Nothing is cut behind a carriage return but in front of a newline. -/
theorem PairedReturns.getLast?_ne {x : UInt8} (h : PairedReturns (a ++ x :: b))
    (hx : x ≠ Byte.newline) : a.getLast? ≠ some Byte.carriageReturn := by
  intro hlast
  obtain ⟨init, rfl⟩ := List.getLast?_eq_some_iff.1 hlast
  have hnext := h init.length (by simp) (by simp)
  rw [List.getElem?_append_right (by simp)] at hnext
  exact hx (by simpa using hnext)

end

/-! ## The line break in front of a redirected call -/

/-- The line break that ends with a newline behind the given bytes. -/
def breakBehind (a : Bytes) : Bytes :=
  if a.getLast? = some Byte.carriageReturn then [Byte.carriageReturn, Byte.newline]
  else [Byte.newline]

/-- Where no line break is seen there is no newline. -/
theorem longBreak?_eq_none {wasReturn : Bool} {cells : List Cell}
    (h : longBreak? wasReturn cells = none) : Byte.newline ∉ cells.map (·.byte) := by
  induction cells generalizing wasReturn with
  | nil => simp
  | cons c cells ih =>
    simp only [longBreak?] at h
    split at h
    · cases h
    · next hc =>
      rw [List.map_cons, List.mem_cons, not_or]
      exact ⟨fun heq => hc (beq_iff_eq.2 heq.symm), ih h⟩

/-- The first newline among the cells is long when a carriage return comes right before it. -/
theorem longBreak?_eq_some {wasReturn long : Bool} {cells : List Cell}
    (h : longBreak? wasReturn cells = some long) :
    ∃ a b, cells.map (·.byte) = a ++ Byte.newline :: b ∧
      (long = true ↔ a.getLast? = some Byte.carriageReturn ∨ a = [] ∧ wasReturn = true) := by
  induction cells generalizing wasReturn with
  | nil => cases h
  | cons c cells ih =>
    simp only [longBreak?] at h
    split at h
    · next hc =>
      cases h
      exact ⟨[], cells.map (·.byte), by simp [beq_iff_eq.1 hc], by simp⟩
    · obtain ⟨a, b, hsplit, hlong⟩ := ih h
      refine ⟨c.byte :: a, b, by simp [hsplit], ?_⟩
      rw [hlong]
      cases a <;> simp

/-- The line above ends with a long break when a carriage return comes right before its newline. -/
theorem longBreakAbove_past (keyword : Bytes) {a row : List Cell} {c : Cell}
    (hc : c.byte = Byte.newline) (hrow : ∀ x ∈ row, x.byte ≠ Byte.newline) :
    longBreakAbove (.past keyword (a ++ [c] ++ row)) = true ↔
      (a.map (·.byte)).getLast? = some Byte.carriageReturn := by
  have hdrop : (a ++ [c] ++ row).reverse.dropWhile (·.byte != Byte.newline) = c :: a.reverse := by
    rw [List.reverse_append, List.dropWhile_append_of_pos (by simpa using hrow)]
    simp [hc]
  rw [longBreakAbove, Cursor.before_past, hdrop, List.getLast?_map, ← List.head?_reverse]
  cases a.reverse <;> simp

/-- On the first line there is no line break above. -/
theorem longBreakAbove_past_none (keyword : Bytes) {pre : List Cell}
    (h : ∀ c ∈ pre, c.byte ≠ Byte.newline) : longBreakAbove (.past keyword pre) = false := by
  have hdrop : pre.reverse.dropWhile (·.byte != Byte.newline) = [] := by
    simpa using h
  rw [longBreakAbove, Cursor.before_past, hdrop]

/-- The line break for a statement is that of a newline behind it or in front of it, and a newline
alone where there is none. -/
theorem lineBreak_cases (keyword : Bytes) (pre : List Cell) (e : Ending) :
    (∃ a b, (pre.map (·.byte) = a ++ Byte.newline :: b ∨
        e.ahead.map (·.byte) = a ++ Byte.newline :: b) ∧
      lineBreak (.past keyword pre) e = breakBehind a) ∨
    (Byte.newline ∉ pre.map (·.byte) ∧ Byte.newline ∉ e.ahead.map (·.byte) ∧
      lineBreak (.past keyword pre) e = [Byte.newline]) := by
  cases hbehind : longBreak? false e.ahead with
  | some long =>
    obtain ⟨a, b, hsplit, hlong⟩ := longBreak?_eq_some hbehind
    refine .inl ⟨a, b, .inr hsplit, ?_⟩
    simp only [Bool.false_eq_true, and_false, or_false] at hlong
    simp only [lineBreak, hbehind, Option.getD_some, hlong, breakBehind]
  | none =>
    have hnone := longBreak?_eq_none hbehind
    obtain ⟨up, row, rfl, hup, hrow⟩ := Cursor.line_split pre
    rcases List.eq_nil_or_concat up with rfl | ⟨init, c, rfl⟩
    · refine .inr ⟨?_, hnone, ?_⟩
      · rintro hmem
        obtain ⟨x, hx, hnewline⟩ := List.mem_map.1 hmem
        exact hrow x hx hnewline
      · simp only [lineBreak, hbehind, Option.getD_none, List.nil_append,
          longBreakAbove_past_none keyword hrow]
        rfl
    · have hc : c.byte = Byte.newline := hup c (by simp)
      refine .inl ⟨init.map (·.byte), row.map (·.byte), .inl (by simp [hc]), ?_⟩
      simp only [lineBreak, hbehind, Option.getD_none, List.concat_eq_append,
        longBreakAbove_past keyword hc hrow, breakBehind]

/-- What a redirected call is put behind begins with the line break of its place, or is nothing. -/
theorem redirection_lead {keyword : Bytes} {pre : List Cell} {e : Ending} {r : Redirection}
    (h : redirection? (.past keyword pre) e = some r) :
    if (Cursor.past keyword pre).startsLine then r.lead = []
    else ∃ indent, r.lead = lineBreak (.past keyword pre) e ++ indent ∧
      ∀ b ∈ indent, Byte.isHorizontal b = true := by
  obtain ⟨up, row, rfl, hup, hrow⟩ := Cursor.line_split pre
  rw [redirection?_eq keyword e hup hrow] at h
  obtain ⟨handler, -, rfl⟩ := Option.map_eq_some_iff.1 h
  rw [Cursor.startsLine_past keyword hup hrow]
  split
  · rfl
  · refine ⟨(row.map (·.byte)).takeWhile Byte.isHorizontal ++ [Byte.space],
      List.append_assoc .., fun b hb => ?_⟩
    rcases List.mem_append.1 hb with hb | hb
    · exact List.all_eq_true.1 List.all_takeWhile b hb
    · rw [List.mem_singleton.1 hb]
      rfl

/-- What a call of a text is put behind when it is redirected: nothing when it starts its line; or
else a copy of a line break in front of it or behind it, or, when it is stranded, a newline. -/
inductive Led (text : Bytes) (site : Site) (front behind : Bytes) : Bytes → Prop
  | starts (hstarts : site.startsLine = true) : Led text site front behind []
  | copied {a b indent : Bytes}
      (hsplit : front = a ++ Byte.newline :: b ∨ behind = a ++ Byte.newline :: b)
      (hindent : ∀ x ∈ indent, Byte.isHorizontal x = true) :
      Led text site front behind (breakBehind a ++ indent)
  | stranded {indent : Bytes} (hstranded : Stranded text site)
      (hindent : ∀ x ∈ indent, Byte.isHorizontal x = true) :
      Led text site front behind (Byte.newline :: indent)

section
variable {target keyword text : Bytes} {pre behind : List Cell} {s : Statement} {site : Site}

/-- What stands before a site. -/
theorem Call.Statement.take_start (htext : text = (pre ++ s.cells target ++ behind).map (·.byte))
    (hsite : site = s.site target keyword pre behind) :
    text.take site.start = pre.map (·.byte) := by
  rw [hsite, htext, List.append_assoc, List.map_append]
  exact List.take_left' (List.length_map ..)

/-- What stands behind a site. -/
theorem Call.Statement.drop_stop (htext : text = (pre ++ s.cells target ++ behind).map (·.byte))
    (hsite : site = s.site target keyword pre behind) :
    text.drop site.stop = behind.map (·.byte) := by
  rw [hsite, htext, List.map_append]
  exact List.drop_left' (by simp [Statement.site])

/-- A redirected call is led as the line breaks around it say. -/
theorem Call.Statement.led {r : Redirection}
    (htext : text = (pre ++ s.cells target ++ behind).map (·.byte))
    (hsite : site = s.site target keyword pre behind) (hred : site.redirection = some r) :
    Led text site (pre.map (·.byte)) (behind.map (·.byte)) r.lead := by
  have hlead : redirection? (.past keyword pre) (s.ending target pre.length behind) = some r := by
    rw [hsite] at hred
    exact hred
  have hstarts : site.startsLine = (Cursor.past keyword pre).startsLine := by rw [hsite]; rfl
  have hplace := redirection_lead hlead
  split at hplace
  · next h =>
    rw [hplace]
    exact .starts (hstarts.trans h)
  · next h =>
    obtain ⟨indent, hindent, hblank⟩ := hplace
    rw [hindent]
    rcases lineBreak_cases keyword pre (s.ending target pre.length behind) with
      ⟨a, b, hsplit, hbreak⟩ | ⟨hpre, hahead, hbreak⟩
    · rw [hbreak]
      exact .copied hsplit hblank
    · rw [hbreak]
      refine .stranded ⟨by rw [hred]; rfl, ?_, ?_, ?_⟩ hblank
      · rw [hstarts]
        exact Bool.eq_false_iff.2 h
      · rwa [Statement.take_start htext hsite]
      · rw [Statement.drop_stop htext hsite]
        exact hahead

/-- A stranded call is put on a line of its own by a newline alone. -/
theorem Led.of_stranded {front behind lead : Bytes} (h : Led text site front behind lead)
    (hfront : text.take site.start = front) (hbehind : text.drop site.stop = behind)
    (hstranded : Stranded text site) : ∃ indent, lead = Byte.newline :: indent := by
  obtain ⟨-, hline, hnone, hnone'⟩ := hstranded
  cases h with
  | starts hstarts =>
    rw [hstarts] at hline
    cases hline
  | @copied a b indent hsplit =>
    exfalso
    rcases hsplit with hsplit | hsplit
    · exact hnone (by rw [hfront, hsplit]; simp)
    · exact hnone' (by rw [hbehind, hsplit]; simp)
  | @stranded indent => exact ⟨indent, rfl⟩

/-- Next to long line breaks the line break of a call that is not stranded is long. -/
theorem Led.longBreaks {front behind lead : Bytes} (h : Led text site front behind lead)
    (hfront : LongBreaks front) (hbehind : LongBreaks behind) (hsite : ¬ Stranded text site) :
    LongBreaks lead := by
  cases h with
  | starts => exact longBreaks_of_not_mem (by simp)
  | @copied a b indent hsplit hindent =>
    have hlast : a.getLast? = some Byte.carriageReturn := by
      rcases hsplit with rfl | rfl
      · exact hfront.getLast?
      · exact hbehind.getLast?
    rw [breakBehind, if_pos hlast]
    refine .append (by decide) (longBreaks_of_not_mem fun hmem => ?_)
    cases hindent _ hmem
  | stranded hstranded => exact absurd hstranded hsite

/-- Where there are no carriage returns a call is given none. -/
theorem Led.carriageReturn_not_mem {front behind lead : Bytes}
    (h : Led text site front behind lead) (hfront : Byte.carriageReturn ∉ front)
    (hbehind : Byte.carriageReturn ∉ behind) : Byte.carriageReturn ∉ lead := by
  have hhorizontal : ∀ {indent : Bytes}, (∀ x ∈ indent, Byte.isHorizontal x = true) →
      Byte.carriageReturn ∉ Byte.newline :: indent := by
    intro indent hindent hmem
    rcases List.mem_cons.1 hmem with heq | hmem
    · cases heq
    · cases hindent _ hmem
  cases h with
  | starts => simp
  | @copied a b indent hsplit hindent =>
    have hlast : a.getLast? ≠ some Byte.carriageReturn := by
      intro hlast
      have hmem := List.mem_of_getLast? hlast
      rcases hsplit with rfl | rfl
      · exact hfront (List.mem_append_left _ hmem)
      · exact hbehind (List.mem_append_left _ hmem)
    rw [breakBehind, if_neg hlast]
    exact hhorizontal hindent
  | stranded _ hindent => exact hhorizontal hindent

/-- No statement ends with a carriage return. -/
theorem Call.Statement.getLast?_ne (s : Statement) (function front : Bytes) :
    (front ++ (s.cells function).map (·.byte)).getLast? ≠ some Byte.carriageReturn := by
  obtain ⟨init, z, hz, -, hbyte⟩ := s.cells_eq_snoc function
  rw [hz, List.map_append, ← List.append_assoc, List.map_singleton, List.getLast?_concat]
  rcases hbyte with hbyte | hbyte <;> rw [hbyte] <;> decide

/-- Nor does what is cleared with one. -/
theorem Call.Clearing.getLast?_ne (cl : Clearing) {front : List Cell}
    (hfront : (front.map (·.byte)).getLast? ≠ some Byte.carriageReturn) :
    ((front ++ (cl.gap ++ cl.brk)).map (·.byte)).getLast? ≠ some Byte.carriageReturn := by
  have hgap : ((front ++ cl.gap).map (·.byte)).getLast? ≠ some Byte.carriageReturn := by
    rcases List.eq_nil_or_concat cl.gap with hnil | ⟨init, x, hx⟩
    · rwa [hnil, List.append_nil]
    · have hblank := cl.gap_blank x (by rw [hx]; simp)
      rw [hx, List.concat_eq_append, ← List.append_assoc, List.map_append, List.map_singleton,
        List.getLast?_concat]
      intro heq
      rw [Option.some.inj heq] at hblank
      cases hblank
  rw [← List.append_assoc, List.map_append, List.getLast?_append]
  rcases cl.shape with ⟨-, hbrk | hbrk | ⟨hbrk, -⟩⟩ | ⟨-, hbrk, -⟩
  · rw [hbrk]
    show some Byte.newline ≠ some Byte.carriageReturn
    decide
  · rw [hbrk]
    show some Byte.newline ≠ some Byte.carriageReturn
    decide
  · rwa [hbrk]
  · rwa [hbrk]

/-- Nothing that is removed ends with a carriage return. -/
theorem Call.Statement.removed_getLast?_ne {extra src : List Cell} {start : Nat}
    (hsite : site = s.site target keyword pre (extra ++ src))
    (hrem : site.removal = ⟨start, (pre ++ s.cells target ++ extra).length⟩) :
    ((pre ++ s.cells target ++ extra).map (·.byte)).getLast? ≠ some Byte.carriageReturn := by
  obtain ⟨cl, -, hbehind, hcl⟩ := removal_eq keyword pre (extra ++ src)
    (pre.length + (s.cells target).length) s.tail.isSome
  rw [hsite] at hrem
  have hlength : extra.length = (cl.gap ++ cl.brk).length := by
    have hstop := congrArg Span.stop (hrem.symm.trans hcl)
    simp only [List.length_append] at hstop ⊢
    omega
  rw [(List.append_inj hbehind hlength).1]
  refine cl.getLast?_ne ?_
  rw [List.map_append]
  exact s.getLast?_ne target _

end

/-! ## Sweeps -/

section
variable {target keyword replacement text : Bytes} {accepted : Option Span}
  {pre src out : List Cell} {sites : List Site}

/-- A call statement as it is redirected, byte for byte. -/
theorem Call.Statement.map_byte_tidy (s : Statement) (function : Bytes) :
    (s.tidy.cells function).map (·.byte) = function ++ [Byte.openParen] ++
      s.arguments.map (·.byte) ++ [Byte.closeParen] ++
        if s.tail.isSome then [Byte.semicolon] else [] := by
  rw [map_byte_cells]
  cases htail : s.tail <;> simp [tidy, htail]

/-- There is no white space in a dotted name. -/
theorem Dotted.not_mem_of_isBlank {name : Bytes} (h : Dotted name) {b : UInt8}
    (hb : Byte.isBlank b = true) : b ∉ name := by
  intro hmem
  have hdotted := h.isDottedByte hmem
  rw [not_isDottedByte_of_isBlank hb] at hdotted
  cases hdotted

/-- A call keeps the line breaks of its arguments when it is redirected. -/
theorem Call.Statement.longBreaks_tidy (hr : Dotted replacement) (s : Statement)
    (h : LongBreaks ((pre ++ s.cells target).map (·.byte))) :
    LongBreaks ((s.tidy.cells replacement).map (·.byte)) := by
  have harguments : LongBreaks (s.arguments.map (·.byte)) := by
    rw [List.map_append, map_byte_cells] at h
    simp only [← List.append_assoc] at h
    refine h.left.left.right ?_
    rw [List.getLast?_concat]
    decide
  have hend : LongBreaks (if s.tail.isSome then [Byte.semicolon] else []) := by
    split <;> decide
  rw [map_byte_tidy]
  exact ((((longBreaks_of_not_mem (hr.not_mem_of_isBlank rfl)).append (by decide)).append
    harguments).append (by decide)).append hend

/-- Long line breaks stay long where no call is stranded. The induction is on the weave: `pre` never
ends with a carriage return, so each part is cut out with all of its line breaks. -/
theorem Weave.longBreaks_out (hr : Dotted replacement)
    (h : Weave target keyword replacement pre accepted sites src out)
    (htext : text = (pre ++ src).map (·.byte)) (hlong : LongBreaks text)
    (hpre : (pre.map (·.byte)).getLast? ≠ some Byte.carriageReturn)
    (hsites : ∀ site ∈ sites, ¬ Stranded text site) : LongBreaks (out.map (·.byte)) := by
  induction h with
  | done =>
    rw [htext, List.map_append] at hlong
    exact hlong.right hpre
  | @deleted pre kept indent gap brk src out accepted s sites site hcut hsite hred hrem hrest ih =>
    have hkept : LongBreaks (kept.map (·.byte)) := by
      rw [htext, List.map_append] at hlong
      have hcells := hlong.right hpre
      rw [List.append_assoc, List.map_append] at hcells
      exact hcells.left
    have hlast := Statement.removed_getLast?_ne hsite (hrem.trans (by rw [← List.append_assoc]))
    rw [List.map_append]
    refine hkept.append (ih (htext.trans (by simp)) ?_ (List.forall_mem_cons.1 hsites).2)
    rwa [← List.append_assoc] at hlast
  | @redirected pre kept src out accepted s sites site r hcut hsite hred hrest ih =>
    have hplace : text = (pre ++ kept ++ s.cells target ++ src).map (·.byte) :=
      htext.trans (by simp)
    have hlast : ((pre ++ kept ++ s.cells target).map (·.byte)).getLast? ≠
        some Byte.carriageReturn := by
      rw [List.map_append]
      exact s.getLast?_ne target _
    rw [hplace, List.map_append] at hlong
    have hcall := hlong.left
    have hbehind := hlong.right hlast
    have hbefore : LongBreaks ((pre ++ kept).map (·.byte)) := by
      rw [List.map_append] at hcall
      exact hcall.left
    have hkept : LongBreaks (kept.map (·.byte)) := by
      rw [List.map_append] at hbefore
      exact hbefore.right hpre
    obtain ⟨hnot, hothers⟩ := List.forall_mem_cons.1 hsites
    have hlead := (Statement.led hplace hsite hred).longBreaks hbefore hbehind hnot
    rw [List.map_append, List.map_append, List.map_append, map_byte_codeCells]
    exact (hkept.append (hlead.append (s.longBreaks_tidy hr hcall))).append
      (ih hplace hlast hothers)

/-- A sweep writes no carriage return into a text that has none. -/
theorem Weave.carriageReturn_not_mem_out (hr : Dotted replacement)
    (h : Weave target keyword replacement pre accepted sites src out)
    (htext : text = (pre ++ src).map (·.byte)) (hnone : Byte.carriageReturn ∉ text) :
    Byte.carriageReturn ∉ out.map (·.byte) := by
  induction h with
  | done =>
    rw [htext, List.map_append, List.mem_append, not_or] at hnone
    exact hnone.2
  | @deleted pre kept indent gap brk src out accepted s sites site hcut hsite hred hrem hrest ih =>
    have hout := ih (htext.trans (by simp))
    simp only [htext, List.map_append, List.mem_append, not_or] at hnone hout ⊢
    exact ⟨hnone.2.1.1, hout⟩
  | @redirected pre kept src out accepted s sites site r hcut hsite hred hrest ih =>
    have hplace : text = (pre ++ kept ++ s.cells target ++ src).map (·.byte) :=
      htext.trans (by simp)
    have hout := ih hplace
    have hled := Statement.led hplace hsite hred
    have hparts := hnone
    rw [hplace, List.map_append, List.map_append, s.map_byte_cells] at hparts
    simp only [List.mem_append, not_or] at hparts
    obtain ⟨⟨hbefore, ⟨⟨-, harguments⟩, hclose⟩, -⟩, hbehind⟩ := hparts
    have hlead := hled.carriageReturn_not_mem hbefore hbehind
    have hkept : Byte.carriageReturn ∉ kept.map (·.byte) := by
      rw [List.map_append, List.mem_append, not_or] at hbefore
      exact hbefore.2
    have hend : Byte.carriageReturn ∉ if s.tail.isSome then [Byte.semicolon] else [] := by
      split <;> decide
    rw [List.map_append, List.map_append, List.map_append, map_byte_codeCells, s.map_byte_tidy]
    simp only [List.mem_append, not_or]
    exact ⟨⟨hkept, hlead, ⟨⟨⟨hr.not_mem_of_isBlank rfl, by decide⟩, harguments⟩, hclose⟩, hend⟩,
      hout⟩

/-- In a text where each carriage return has its newline, none stands right in front of what is cut
out. -/
theorem Cut.getLast?_ne {kept indent extra : List Cell} {s : Statement} (ht : Dotted target)
    (h : Cut target keyword accepted pre kept indent s extra src)
    (htext : text = (pre ++ (kept ++ (indent ++ s.cells target ++ extra) ++ src)).map (·.byte))
    (hpaired : PairedReturns text) {front : Bytes}
    (hfront : front.getLast? ≠ some Byte.carriageReturn) :
    (front ++ kept.map (·.byte)).getLast? ≠ some Byte.carriageReturn := by
  obtain ⟨c, rest, hcells, hc⟩ : ∃ c rest, indent ++ s.cells target = c :: rest ∧
      c.byte ≠ Byte.newline := by
    cases indent with
    | nil =>
      obtain ⟨c, rest, hcells, -, hname⟩ := s.cells_eq_cons ht
      exact ⟨c, rest, hcells, not_newline_of_name hname⟩
    | cons c indent =>
      exact ⟨c, _, rfl, Cursor.not_newline_of_horizontal (h.indent_row c (by simp))⟩
  have hsplit : text = (pre ++ kept).map (·.byte) ++
      c.byte :: (rest ++ extra ++ src).map (·.byte) := by
    rw [htext, hcells]
    simp
  rw [hsplit] at hpaired
  have hlast := hpaired.getLast?_ne hc
  rw [List.map_append, List.getLast?_append] at hlast
  rw [List.getLast?_append]
  cases hkept : (kept.map (·.byte)).getLast? with
  | none => exact hfront
  | some b => rwa [hkept] at hlast

/-- Where a call is stranded a newline comes alone. The induction is on the weave, with `front` the
swept text so far. -/
theorem Weave.not_stranded (ht : Dotted target)
    (h : Weave target keyword replacement pre accepted sites src out)
    (htext : text = (pre ++ src).map (·.byte)) (hpaired : PairedReturns text) (front : Bytes)
    (hfront : front.getLast? ≠ some Byte.carriageReturn)
    (hlong : LongBreaks (front ++ out.map (·.byte))) : ∀ site ∈ sites, ¬ Stranded text site := by
  induction h generalizing front with
  | done => simp
  | @deleted pre kept indent gap brk src out accepted s sites site hcut hsite hred hrem hrest ih =>
    rw [List.map_append, ← List.append_assoc] at hlong
    refine List.forall_mem_cons.2 ⟨?_, ?_⟩
    · rintro ⟨hsome, -⟩
      rw [hred] at hsome
      cases hsome
    · exact ih (htext.trans (by simp)) _ (hcut.getLast?_ne ht htext hpaired hfront) hlong
  | @redirected pre kept src out accepted s sites site r hcut hsite hred hrest ih =>
    have hplace : text = (pre ++ kept ++ s.cells target ++ src).map (·.byte) :=
      htext.trans (by simp)
    have hkept := hcut.getLast?_ne ht (htext.trans (by simp)) hpaired hfront
    simp only [List.map_append, map_byte_codeCells, ← List.append_assoc] at hlong
    refine List.forall_mem_cons.2 ⟨fun hstranded => hkept ?_,
      ih hplace _ (s.tidy.getLast?_ne replacement _) hlong⟩
    obtain ⟨indent, hlead⟩ := (Statement.led hplace hsite hred).of_stranded
      (Statement.take_start hplace hsite) (Statement.drop_stop hplace hsite) hstranded
    rw [hlead] at hlong
    exact hlong.left.left.getLast?

end

/-- A sweep by checked rules keeps the line breaks of a text. Where every newline has a carriage
return before it and no call is stranded, the same holds of the swept text; a stranded call always
gets a newline alone, unless a carriage return happens to stand in front of it. A text without
carriage returns is swept into one without. -/
theorem longBreaks_sweepScript (rules : Rules) (h : rules.fault? = none) (source : String) :
    let text := Bytes.ofString source
    let swept := (sweepScript rules text).text
    (LongBreaks text → (∀ site ∈ rules.sites text, ¬ Stranded text site) → LongBreaks swept) ∧
    (PairedReturns text → LongBreaks swept → ∀ site ∈ rules.sites text, ¬ Stranded text site) ∧
    (Byte.carriageReturn ∉ text → Byte.carriageReturn ∉ swept) := by
  intro text swept
  have ht := Rules.dotted_target h
  have hr := Rules.dotted_replacement h
  obtain ⟨out, hweave, -, hout, -, -⟩ := sweepScript_weave h (aligned_ofString source)
  have hswept : swept = out.map (·.byte) := hout
  have htext : text = ([] ++ scan text).map Cell.byte := (map_byte_scan text).symm
  rw [hswept]
  refine ⟨fun hlong => hweave.longBreaks_out hr htext hlong (by simp), fun hpaired hlong => ?_,
    hweave.carriageReturn_not_mem_out hr htext⟩
  exact hweave.not_stranded ht htext hpaired [] (by simp) hlong

/-- A call on the last line follows the line above. -/
theorem longBreaks_sweepScript_above :
    ({} : Rules).fault? = none ∧
    LongBreaks (.ofString "f()\r\ncatch\x7bconsole.log(1)\x7d") ∧
    (({} : Rules).sites (.ofString "f()\r\ncatch\x7bconsole.log(1)\x7d")).map
      (fun site => (site.span, site.redirection.map (·.lead))) =
        [(⟨11, 25⟩, some [Byte.carriageReturn, Byte.newline, Byte.space])] ∧
    LongBreaks (sweepScript {} (.ofString "f()\r\ncatch\x7bconsole.log(1)\x7d")).text := by
  have hfault : ({} : Rules).fault? = none := by decide +kernel
  have hlong : LongBreaks (.ofString "f()\r\ncatch\x7bconsole.log(1)\x7d") := by decide +kernel
  refine ⟨hfault, hlong, by decide +kernel, ?_⟩
  exact (longBreaks_sweepScript {} hfault "f()\r\ncatch\x7bconsole.log(1)\x7d").1 hlong
    (by decide +kernel)

/-- The one line break of this text lies in the arguments of a call, which is put on a line of its
own by a newline alone. -/
theorem not_longBreaks_sweepScript_arguments :
    ({} : Rules).fault? = none ∧
    Byte.newline ∈ Bytes.ofString "try \x7b f(); \x7d catch (e) \x7b console.log(\r\n  e); \x7d" ∧
    LongBreaks (.ofString "try \x7b f(); \x7d catch (e) \x7b console.log(\r\n  e); \x7d") ∧
    (sweepScript {} (.ofString
      "try \x7b f(); \x7d catch (e) \x7b console.log(\r\n  e); \x7d")).text =
      .ofString "try \x7b f(); \x7d catch (e) \x7b \n console.error(\r\n  e); \x7d" ∧
    ¬ LongBreaks (sweepScript {} (.ofString
      "try \x7b f(); \x7d catch (e) \x7b console.log(\r\n  e); \x7d")).text := by
  decide +kernel

end LogSweep
