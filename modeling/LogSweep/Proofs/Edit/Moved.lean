import LogSweep.Proofs.Edit.Ordered

/-!
# Places that edits move

A batch of edits in the order of the text moves what it does not replace: every edit behind which a
place lies takes its range away in front of it and puts its replacement there (`Edit.moved`). A
place outside of all edits keeps its byte (`Edit.getElem?_splice_moved`). Edits of two texts can be
written into the two put together, when those of the second are moved behind the first
(`Edit.splice_append`).
-/

namespace LogSweep.Edit

/-- Where a place of a text stands when edits in its order have been written; the text given starts
at `offset`. A place inside the range of an edit is not moved by it. -/
def moved (offset place : Nat) : List Edit → Nat
  | [] => place - offset
  | e :: edits =>
    if place < e.stop then place - offset
    else e.start - offset + e.replacement.length + moved e.stop place edits

/-- A place before the end of an edit is moved by none of the edits from there on. -/
theorem moved_cons_of_lt {offset place : Nat} {e : Edit} {edits : List Edit}
    (h : place < e.stop) : moved offset place (e :: edits) = place - offset :=
  if_pos h

/-- A place behind an edit is moved by what the edit adds and removes. -/
theorem moved_cons_of_le {offset place : Nat} {e : Edit} {edits : List Edit}
    (h : e.stop ≤ place) : moved offset place (e :: edits) =
      e.start - offset + e.replacement.length + moved e.stop place edits :=
  if_neg (Nat.not_lt.2 h)

/-- A place that no edit covers keeps its byte. -/
theorem getElem?_splice_moved {offset place : Nat} {text : Bytes} {edits : List Edit}
    (hordered : Ordered edits)
    (hfits : ∀ e ∈ edits, offset ≤ e.start ∧ e.start ≤ e.stop ∧ e.stop ≤ offset + text.length)
    (hplace : offset ≤ place) (hout : ∀ e ∈ edits, place < e.start ∨ e.stop ≤ place) :
    (splice offset text edits)[moved offset place edits]? = text[place - offset]? := by
  induction edits generalizing offset text with
  | nil => rfl
  | cons e edits ih =>
    obtain ⟨hstop, hrest⟩ := List.pairwise_cons.1 hordered
    obtain ⟨⟨hfirst, hle, hend⟩, hothers⟩ := List.forall_mem_cons.1 hfits
    obtain ⟨hcover, hout⟩ := List.forall_mem_cons.1 hout
    have hfront : (text.take (e.start - offset)).length = e.start - offset := by
      rw [List.length_take]
      omega
    rw [splice]
    rcases hcover with hlt | hge
    · rw [moved_cons_of_lt (Nat.lt_of_lt_of_le hlt hle),
        List.getElem?_append_left (by omega), List.getElem?_take_of_lt (by omega)]
    · have hback : (text.drop (e.stop - offset)).length = offset + text.length - e.stop := by
        rw [List.length_drop]
        omega
      have hsame : (splice e.stop (text.drop (e.stop - offset)) edits)[moved e.stop place edits]? =
          (text.drop (e.stop - offset))[place - e.stop]? := by
        refine ih hrest (fun e' he' => ⟨hstop e' he', (hothers e' he').2.1, ?_⟩) hge hout
        have := (hothers e' he').2.2
        omega
      have hindex : e.start - offset + e.replacement.length + moved e.stop place edits =
          (text.take (e.start - offset)).length +
            (e.replacement.length + moved e.stop place edits) := by
        omega
      rw [moved_cons_of_le hge, hindex, List.getElem?_append_right (by omega),
        Nat.add_sub_cancel_left, List.getElem?_append_right (by omega), Nat.add_sub_cancel_left,
        hsame, List.getElem?_drop]
      congr 1
      omega

/-! ## Texts put together -/

/-- An edit of a text that is put behind another one of the given length. -/
def behind (n : Nat) (e : Edit) : Edit :=
  ⟨n + e.start, n + e.stop, e.replacement⟩

/-- Edits that are moved along with the text splice it as before. -/
theorem splice_behind (n offset : Nat) (text : Bytes) (edits : List Edit) :
    splice (n + offset) text (edits.map (behind n)) = splice offset text edits := by
  induction edits generalizing offset text with
  | nil => rfl
  | cons e edits ih =>
    simp only [List.map_cons, splice, behind, Nat.add_sub_add_left]
    rw [← ih]

/-- Edits in the order of a text and edits of a text behind it. -/
theorem splice_append {offset : Nat} {text : Bytes} {edits : List Edit} (hordered : Ordered edits)
    (hfits : ∀ e ∈ edits, offset ≤ e.start ∧ e.start ≤ e.stop ∧ e.stop ≤ offset + text.length)
    (more : Bytes) (others : List Edit) :
    splice offset (text ++ more) (edits ++ others.map (behind (offset + text.length))) =
      splice offset text edits ++ splice 0 more others := by
  induction edits generalizing offset text with
  | nil =>
    cases others with
    | nil => rfl
    | cons e others =>
      have hstart : offset + text.length + e.start - offset = text.length + e.start := by omega
      have hstop : offset + text.length + e.stop - offset = text.length + e.stop := by omega
      rw [List.nil_append, List.map_cons, splice, splice, behind]
      simp only [hstart, hstop, List.take_length_add_append, List.drop_length_add_append,
        splice_behind, Nat.sub_zero, splice, List.append_assoc]
  | cons e edits ih =>
    obtain ⟨hstop, hrest⟩ := List.pairwise_cons.1 hordered
    obtain ⟨⟨hfirst, hle, hend⟩, hothers⟩ := List.forall_mem_cons.1 hfits
    have hback : e.stop + (text.drop (e.stop - offset)).length = offset + text.length := by
      rw [List.length_drop]
      omega
    have hnext : splice e.stop (text.drop (e.stop - offset) ++ more)
        (edits ++ others.map (behind (e.stop + (text.drop (e.stop - offset)).length))) =
          splice e.stop (text.drop (e.stop - offset)) edits ++ splice 0 more others := by
      refine ih hrest fun e' he' => ⟨hstop e' he', (hothers e' he').2.1, ?_⟩
      rw [hback]
      exact (hothers e' he').2.2
    rw [hback] at hnext
    rw [List.cons_append, splice, splice, List.take_append_of_le_length (by omega),
      List.drop_append_of_le_length (by omega), hnext]
    simp only [List.append_assoc]

end LogSweep.Edit
