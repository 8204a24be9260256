import LogSweep.Proofs.Component.Elements
import LogSweep.Proofs.Sweep.Weave

/-!
# Closing tags in a swept script

A sweep makes no closing tag: no tag that begins in a kept part reaches out of it, since the part
ends with a byte that is none of the tag's, or with the end of a block comment (`Cut.blind_kept`).
Nor does one that begins in the arguments of a call, because of the parenthesis. So a body without a
closing tag is swept to one without a closing tag (`Weave.noTag_out`).
-/

namespace LogSweep

open Lexical Block Call Component

namespace Component

/-- Whether a tag begins in the text does not depend on what follows. -/
def Blind (tag text : Bytes) : Prop :=
  ∀ a b rest, text = a ++ b :: rest → ∀ x y,
    beginsTag tag (b :: rest ++ x) = beginsTag tag (b :: rest ++ y)

section
variable {tag text x y : Bytes} {z : UInt8}

theorem Blind.nil : Blind tag [] := by
  intro a b rest h
  cases a <;> cases h

/-- A text that ends with a byte of no tag is blind to what follows. -/
theorem blind_snoc (hz : Byte.toLower z ∉ tag) : Blind tag (text ++ [z]) := by
  intro a b rest h x y
  have hlast : (b :: rest).getLast? = some z := by
    have := congrArg List.getLast? h
    simpa [List.getLast?_append] using this.symm
  obtain ⟨init, hinit⟩ := List.getLast?_eq_some_iff.1 hlast
  rw [hinit, List.append_assoc, List.append_assoc]
  exact beginsTag_blind hz init x y

/-- A blind text stays so with a byte where no tag begins. -/
theorem Blind.snoc (h : Blind tag text) (hz : ∀ x, beginsTag tag (z :: x) = false) :
    Blind tag (text ++ [z]) := by
  intro a b rest heq x y
  rcases List.append_eq_append_iff.1 heq with ⟨d, rfl, hd⟩ | ⟨d, rfl, hd⟩
  · cases d with
    | nil =>
      obtain ⟨rfl, rfl⟩ := List.cons.inj hd
      exact (hz x).trans (hz y).symm
    | cons y d => simp at hd
  · cases d with
    | nil =>
      obtain ⟨rfl, rfl⟩ := List.cons.inj hd
      exact (hz x).trans (hz y).symm
    | cons c d =>
      obtain ⟨rfl, rfl⟩ := List.cons.inj hd
      simpa using h a b d rfl (z :: x) (z :: y)

/-- What follows a blind text can be exchanged. -/
theorem Blind.noTag (h : Blind tag text) (hx : NoTag tag text x) : NoTag tag text y := by
  intro a b rest heq
  rw [h a b rest heq y x]
  exact hx a b rest heq

end

/-- A closing tag begins with an angle bracket. -/
theorem beginsTag_closeTag_of_ne {b : UInt8} (hb : b ≠ Byte.less) (text : Bytes) :
    beginsTag closeTag (b :: text) = false := by
  have hlower : Byte.less ≠ Byte.toLower b := by
    cases hupper : Byte.isUpper b with
    | true =>
      intro h
      rw [Byte.toLower, hupper, if_pos rfl] at h
      have hb : b = 28 := (UInt8.add_sub_cancel b 32).symm.trans (congrArg (· - 32) h.symm)
      rw [hb] at hupper
      cases hupper
    | false =>
      rw [Byte.toLower, hupper]
      exact hb.symm
  have htag : closeTag = Byte.less :: [Byte.slash, 115, 99, 114, 105, 112, 116] := rfl
  rw [htag, beginsTag, beq_eq_false_iff_ne.2 hlower, Bool.false_and]

/-- Without angle brackets no closing tag begins. -/
theorem noTag_of_ne {text : Bytes} (h : ∀ b ∈ text, b ≠ Byte.less) (after : Bytes) :
    NoTag closeTag text after := by
  rintro a b rest rfl
  exact beginsTag_closeTag_of_ne (h b (by simp)) _

end Component

section
variable {target keyword replacement : Bytes} {accepted : Option Span}
  {pre kept indent extra src out : List Cell} {s : Statement} {sites : List Site}

/-- A closing tag that begins in a kept part does not reach out of it. -/
theorem Cut.blind_kept (ht : Dotted target)
    (h : Cut target keyword accepted pre kept indent s extra src) :
    Blind closeTag (kept.map (·.byte)) := by
  rcases List.eq_nil_or_concat kept with rfl | ⟨init, x, rfl⟩
  · exact .nil
  rw [List.concat_eq_append] at h ⊢
  rw [List.map_append]
  by_cases hx : Byte.toLower x.byte ∈ closeTag
  · obtain ⟨c, rest, hlex, hcode, hnewline⟩ := h.next ht
    have hlast : (init ++ [x]).getLast? = some x := by simp
    have hmark : x.mark ≠ .code := by
      intro hxcode
      rcases h.last hlast hxcode with hb | hb | hb | hb
      · simp only [Byte.isBlank, Bool.or_eq_true, beq_iff_eq] at hb
        rcases hb with (((hb | hb) | hb) | hb) | hb <;> exact absurd hx (by rw [hb]; decide)
      all_goals exact absurd hx (by rw [hb]; decide)
    rcases Lexed.region_end (by simpa using hlex) hmark hcode with
      hb | ⟨hslash, hstar⟩ | hb | hb | hb
    · exact absurd hb hnewline
    · -- a block comment ends here, and no tag goes on behind its star
      obtain ⟨bytes, hbytes⟩ := List.getLast?_eq_some_iff.1 hstar
      rw [hbytes, List.map_singleton, hslash]
      exact (blind_snoc (by decide)).snoc (beginsTag_closeTag_of_ne (by decide))
    all_goals exact absurd hx (by rw [hb]; decide)
  · exact blind_snoc hx

/-- White space is no angle bracket. -/
theorem ne_less_of_isBlank {b : UInt8} (h : Byte.isBlank b) : b ≠ Byte.less := by
  rintro rfl
  cases h

/-- Bytes of names and dots are no angle brackets. -/
theorem ne_less_of_isDottedByte {b : UInt8} (h : isDottedByte b) : b ≠ Byte.less := by
  rintro rfl
  cases h

/-- No closing tag begins in what follows the call in its statement. -/
theorem Call.Statement.noTag_tail (s : Statement) (after : Bytes) :
    NoTag closeTag ((Statement.tailCells s.tail).map (·.byte)) after := by
  refine noTag_of_ne (fun b hb => ?_) after
  cases htail : s.tail with
  | none => rw [htail] at hb; cases hb
  | some bytes =>
    rw [htail, Statement.tailCells, List.map_append, map_byte_codeCells] at hb
    rcases List.mem_append.1 hb with hb | hb
    · exact ne_less_of_isBlank (isBlank_of_isHorizontal (s.isHorizontal bytes htail b hb))
    · rw [List.mem_singleton.1 hb]
      decide

/-- In a call closing tags begin in the arguments only. -/
theorem Call.Statement.noTag_group {function after : Bytes}
    (h : NoTag closeTag ((s.cells function).map (·.byte)) after) (after' : Bytes) :
    NoTag closeTag (s.group.map (·.byte)) after' := by
  have hblind : Blind closeTag (s.group.map (·.byte)) := by
    rw [Statement.group, List.map_append]
    exact blind_snoc (by decide)
  rw [s.cells_eq, List.map_append, noTag_append_iff, List.map_append, noTag_append_iff] at h
  exact hblind.noTag h.1.2

/-- No closing tag begins in a statement when none does in its parentheses. -/
theorem Call.Statement.noTag_cells {function : Bytes} (hf : Dotted function) (s : Statement)
    (h : ∀ after, NoTag closeTag (s.group.map (·.byte)) after) (after : Bytes) :
    NoTag closeTag ((s.cells function).map (·.byte)) after := by
  rw [s.cells_eq, List.map_append, noTag_append_iff, List.map_append, noTag_append_iff,
    List.map_append, noTag_append_iff, map_byte_codeCells, map_byte_codeCells]
  refine ⟨⟨⟨?_, ?_⟩, h _⟩, s.noTag_tail after⟩
  · exact noTag_of_ne (fun b hb => ne_less_of_isDottedByte (hf.isDottedByte hb)) _
  · exact noTag_of_ne (fun b hb => ne_less_of_isBlank (s.isBlank b hb)) _

/-- A sweep makes no closing tag. -/
theorem Weave.noTag_out (ht : Dotted target) (hr : Dotted replacement)
    (h : Weave target keyword replacement pre accepted sites src out) {after : Bytes}
    (hsrc : NoTag closeTag (src.map (·.byte)) after) : NoTag closeTag (out.map (·.byte)) after := by
  induction h with
  | done => exact hsrc
  | deleted hcut _ _ _ _ ih =>
    rw [List.map_append, List.map_append, noTag_append_iff, noTag_append_iff] at hsrc
    rw [List.map_append, noTag_append_iff]
    exact ⟨(hcut.blind_kept ht).noTag hsrc.1.1, ih hsrc.2⟩
  | @redirected pre kept src out accepted s sites site r hcut hsite hred _ ih =>
    rw [List.map_append, List.map_append, noTag_append_iff, noTag_append_iff] at hsrc
    obtain ⟨⟨hkept, hcells⟩, hrest⟩ := hsrc
    rw [List.map_append, List.map_append, noTag_append_iff, noTag_append_iff]
    refine ⟨⟨(hcut.blind_kept ht).noTag hkept, ?_⟩, ih hrest⟩
    rw [List.map_append, noTag_append_iff, map_byte_codeCells]
    refine ⟨noTag_of_ne (fun b hb => ne_less_of_isBlank (Statement.lead_isBlank hsite hred b hb)) _,
      s.tidy.noTag_cells hr ?_ _⟩
    exact fun after => Statement.noTag_group (s := s) hcells after

end

end LogSweep
